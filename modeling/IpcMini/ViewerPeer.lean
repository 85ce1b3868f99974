/-
The peer connections of the browser's viewer (`cloud/signaling/public/viewer.js`).

`startPeer` is asynchronous: it makes a connection, and then waits for the
microphone, for `replaceTrack`, for `createOffer` and for `setLocalDescription`.
After each wait it reads the globals again, which `closePeer` and a later
`startPeer` may have changed.

* `step` — the messages of the server, the socket, the user, and a run of
  `startPeer` that goes on with what it waited for;
* `Sound` — a run that `closePeer` overtook leaves the connections of later runs
  alone, a connection has one offer at most, and that goes to the master for
  which it was made;
* `Undisturbed` — no run makes a connection while one that was overtaken is
  waiting, the master stays the same while another is waiting, and an overtaken
  run does not come through `setLocalDescription`;
* **`offers_sound`** — a run of undisturbed steps is sound in every state;
* `stale_run_offers` — a run that goes on after the device has come back.
-/
import Mathlib.Data.List.Nodup
import IpcMini.Run

namespace IpcMini

open Interleaving

namespace ViewerPeer

/-! ### The viewer -/

/-- `ws.readyState`, where the last two states are not told apart. -/
inductive ReadyState
  | connecting
  | opened
  | closing
  deriving DecidableEq, Repr

/-- What a run of `startPeer` waits for. -/
inductive Point
  /-- `getUserMedia` -/
  | microphone
  /-- `replaceTrack` -/
  | replaceTrack
  /-- `createOffer` of a connection -/
  | createOffer (pc : ℕ)
  /-- `setLocalDescription` with the offer of a connection -/
  | setLocal (pc : ℕ)
  deriving DecidableEq, Repr

/-- The run sends its offer when this is settled. -/
def Point.sends : Point → Bool
  | .setLocal _ => true
  | _ => false

/-- A run of `startPeer` that waits.  Connections are numbered as they are made. -/
structure PeerRun where
  /-- the connection that it has made -/
  own : ℕ
  /-- `closePeer` was called since -/
  overtaken : Bool
  point : Point
  deriving DecidableEq, Repr

/-- A call of a run on a connection, or on its audio sender. -/
structure Touch where
  own : ℕ
  overtaken : Bool
  pc : ℕ
  deriving DecidableEq, Repr

/-- An offer that a run has sent, with the connection that made it, and with
`masterId` at that time. -/
structure Offer (α : Type) where
  own : ℕ
  overtaken : Bool
  pc : ℕ
  recipient : Option α
  deriving DecidableEq, Repr

structure Viewer (α : Type) where
  pc : Option ℕ
  /-- the connection that `audioSender` belongs to -/
  audioSender : Option ℕ
  masterId : Option α
  offerStarted : Bool
  ws : Option ReadyState
  connectedIntent : Bool
  /-- `viewMode` is `live` -/
  live : Bool
  runs : List PeerRun
  next : ℕ
  /-- the connections, with `masterId` when they were made -/
  created : List (ℕ × α)
  touches : List Touch
  offers : List (Offer α)
  deriving DecidableEq, Repr

/-- The page is ready. -/
def init {α : Type} : Viewer α where
  pc := none
  audioSender := none
  masterId := none
  offerStarted := false
  ws := none
  connectedIntent := false
  live := true
  runs := []
  next := 0
  created := []
  touches := []
  offers := []

/-- How far `startPeer` comes before it waits. -/
inductive Setup
  | waits
  /-- the connection cannot be made -/
  | noConnection
  /-- the connection is made, and then something throws -/
  | noSender
  deriving DecidableEq, Repr

/-- How a promise is settled. -/
inductive Answer
  | fulfilled
  | rejected
  deriving DecidableEq, Repr

inductive Label (α : Type)
  /-- the message `joined`, with `masterId` if there is one -/
  | joined (masterId : Option α) (setup : Setup)
  /-- the message `peer-joined` of a master -/
  | peerJoined (clientId : Option α) (setup : Setup)
  /-- the message `peer-left` of a master -/
  | peerLeft
  /-- `connect`, for an address that is accepted or not -/
  | connect (accepted : Bool)
  | disconnect
  | setViewMode (live : Bool)
  | wsOpen
  | wsClosing
  | wsClose
  /-- what a run waits for is settled; the microphone has a track or none -/
  | resume (own : ℕ) (answer : Answer) (track : Bool)
  deriving DecidableEq, Repr

namespace Viewer

variable {α : Type}

/-- `closePeer`. -/
def closePeer (s : Viewer α) : Viewer α :=
  { s with
    offerStarted := false, masterId := none, audioSender := none, pc := none
    runs := s.runs.map fun r => { r with overtaken := true } }

/-- The outer `catch` of `startPeer`. -/
def caught (s : Viewer α) : Viewer α := { s with offerStarted := false }

def startPeer (setup : Setup) (s : Viewer α) : Viewer α :=
  match s.masterId with
  | none => s
  | some master =>
    if s.offerStarted ∨ s.ws ≠ some .opened then s
    else
      let s := { s with offerStarted := true }
      match setup with
      | .noConnection => s.caught
      | .noSender =>
        { s with
          pc := some s.next, next := s.next + 1
          created := (s.next, master) :: s.created }.caught
      | .waits =>
        { s with
          pc := some s.next, audioSender := some s.next, next := s.next + 1
          created := (s.next, master) :: s.created
          runs := ⟨s.next, false, .microphone⟩ :: s.runs }

/-- `pc.createOffer()`, which throws where `pc` is `null`. -/
def createOffer (r : PeerRun) (s : Viewer α) : Viewer α :=
  match s.pc with
  | none => s.caught
  | some pc =>
    { s with
      touches := ⟨r.own, r.overtaken, pc⟩ :: s.touches
      runs := { r with point := .createOffer pc } :: s.runs }

/-- The run goes on until it waits again or ends. -/
def resumeRun (r : PeerRun) (answer : Answer) (track : Bool) (s : Viewer α) : Viewer α :=
  match r.point, answer with
  | .microphone, .fulfilled =>
    if track then
      match s.audioSender with
      -- the inner `catch`
      | none => s.createOffer r
      | some pc =>
        { s with
          touches := ⟨r.own, r.overtaken, pc⟩ :: s.touches
          runs := { r with point := .replaceTrack } :: s.runs }
    else s.createOffer r
  | .microphone, .rejected => s.createOffer r
  | .replaceTrack, _ => s.createOffer r
  | .createOffer offer, .fulfilled =>
    match s.pc with
    | none => s.caught
    | some pc =>
      { s with
        touches := ⟨r.own, r.overtaken, pc⟩ :: s.touches
        runs := { r with point := .setLocal offer } :: s.runs }
  | .createOffer _, .rejected => s.caught
  | .setLocal offer, .fulfilled =>
    match s.ws with
    -- `send` throws
    | none | some .connecting => s.caught
    -- `send` drops the text
    | some .closing => s
    | some .opened =>
      { s with offers := ⟨r.own, r.overtaken, offer, s.masterId⟩ :: s.offers }
  | .setLocal _, .rejected => s.caught

/-- `disconnect`. -/
def disconnect (s : Viewer α) : Viewer α :=
  { s with connectedIntent := false, ws := none }.closePeer

/-- The viewer handles an event; `none` for an event that cannot happen. -/
def step (s : Viewer α) : Label α → Option (Viewer α)
  | .joined none _ => some s
  | .joined (some master) setup => some ({ s with masterId := some master }.startPeer setup)
  | .peerJoined clientId setup => some ({ s with masterId := clientId }.startPeer setup)
  | .peerLeft => some s.closePeer
  | .connect accepted =>
    if accepted then
      some { s.closePeer with connectedIntent := true, ws := some .connecting }
    else some s.disconnect
  | .disconnect => some s.disconnect
  | .setViewMode live =>
    if live = s.live then some s
    else if !live ∧ s.connectedIntent then some { s with live := live }.disconnect
    else some { s with live := live }
  | .wsOpen => if s.ws = some .connecting then some { s with ws := some .opened } else none
  | .wsClosing => if s.ws.isSome then some { s with ws := some .closing } else none
  | .wsClose =>
    if s.ws.isNone then none
    else if !s.connectedIntent ∨ !s.live then some s
    else some { s with ws := none }.closePeer
  | .resume own answer track =>
    (s.runs.find? fun r => decide (r.own = own)).map fun r =>
      { s with runs := s.runs.filter fun r => decide (r.own ≠ own) }.resumeRun r answer track

end Viewer

/-! ### What is promised -/

section Promises

variable {α : Type}

structure Sound (s : Viewer α) : Prop where
  /-- a run that was overtaken does not touch the connection of a later one -/
  touches : ∀ t ∈ s.touches, t.overtaken = true → ¬ t.own < t.pc
  /-- and does not send an offer for it -/
  offers : ∀ o ∈ s.offers, o.overtaken = true → ¬ o.own < o.pc
  /-- a connection has one offer at most -/
  once : (s.offers.map Offer.pc).Nodup
  /-- it goes to the master for which the connection was made -/
  addressed : ∀ o ∈ s.offers, ∃ master, (o.pc, master) ∈ s.created ∧ o.recipient = some master
  /-- which is one master -/
  numbered : (s.created.map Prod.fst).Nodup

/-- A message that names this master is handled.  If a run makes a connection with
it, no run that was overtaken is waiting; and the other runs that wait do so for
this master. -/
def Names (s : Viewer α) (masterId : Option α) (setup : Setup) : Prop :=
  (s.offerStarted = false → s.ws = some .opened → masterId.isSome = true →
    setup ≠ .noConnection → ∀ r ∈ s.runs, r.overtaken = false) ∧
  ∀ r ∈ s.runs, r.overtaken = false → s.masterId = masterId

/-- No run makes a connection while one that was overtaken is waiting, the master
stays the same while a run is waiting that was not, and no run that was overtaken
sends its offer. -/
def Undisturbed (s : Viewer α) : Label α → Prop
  | .joined (some master) setup => Names s (some master) setup
  | .peerJoined clientId setup => Names s clientId setup
  | .resume own .fulfilled _ => s.ws = some .opened →
    ∀ r ∈ s.runs, r.own = own → r.overtaken = true → r.point.sends = false
  | _ => True

instance [DecidableEq α] (s : Viewer α) (masterId : Option α) (setup : Setup) :
    Decidable (Names s masterId setup) :=
  inferInstanceAs (Decidable ((s.offerStarted = false → s.ws = some .opened →
    masterId.isSome = true → setup ≠ .noConnection → ∀ r ∈ s.runs, r.overtaken = false) ∧
    ∀ r ∈ s.runs, r.overtaken = false → s.masterId = masterId))

instance [DecidableEq α] (s : Viewer α) (l : Label α) : Decidable (Undisturbed s l) :=
  match l with
  | .joined (some master) setup => inferInstanceAs (Decidable (Names s (some master) setup))
  | .peerJoined clientId setup => inferInstanceAs (Decidable (Names s clientId setup))
  | .resume own .fulfilled _ => inferInstanceAs (Decidable (s.ws = some .opened →
    ∀ r ∈ s.runs, r.own = own → r.overtaken = true → r.point.sends = false))
  | .joined none _ | .resume _ .rejected _ | .peerLeft | .connect _ | .disconnect
  | .setViewMode _ | .wsOpen | .wsClosing | .wsClose => inferInstanceAs (Decidable True)

/-! ### The invariant -/

/-- What holds while a run waits. -/
structure Waits (s : Viewer α) (r : PeerRun) : Prop where
  point : ∀ offer, r.point = .createOffer offer ∨ r.point = .setLocal offer → offer = r.own
  unsent : ∀ o ∈ s.offers, o.pc ≠ r.own
  known : ∃ master, (r.own, master) ∈ s.created ∧ (r.overtaken = false → s.masterId = some master)
  current : r.overtaken = false →
    s.offerStarted = true ∧ s.pc = some r.own ∧ s.audioSender = some r.own
  closed : r.overtaken = true → s.pc = none ∧ s.audioSender = none

structure Inv (s : Viewer α) : Prop where
  sound : Sound s
  /-- one run at most is waiting -/
  runs : s.runs = [] ∨ ∃ r, s.runs = [r] ∧ Waits s r
  made : ∀ e ∈ s.created, e.1 < s.next

theorem inv_init : Inv (init : Viewer α) where
  sound := ⟨by simp [init], by simp [init], by simp [init], by simp [init], by simp [init]⟩
  runs := .inl rfl
  made := by simp [init]

variable {s : Viewer α}

/-- Only the history matters. -/
theorem Sound.of_history (h : Sound s) {t : Viewer α} (htouches : t.touches = s.touches)
    (hoffers : t.offers = s.offers) (hcreated : t.created = s.created) : Sound t := by
  constructor
  · rw [htouches]
    exact h.touches
  · rw [hoffers]
    exact h.offers
  · rw [hoffers]
    exact h.once
  · rw [hoffers, hcreated]
    exact h.addressed
  · rw [hcreated]
    exact h.numbered

/-- The socket, the user's intent and the view do not matter. -/
theorem Inv.socket (h : Inv s) (ws : Option ReadyState) (intent live : Bool) :
    Inv { s with ws := ws, connectedIntent := intent, live := live } where
  sound := h.sound.of_history rfl rfl rfl
  runs := by
    rcases h.runs with hruns | ⟨r, hruns, hw⟩
    · exact .inl hruns
    · exact .inr ⟨r, hruns, hw.point, hw.unsent, hw.known, hw.current, hw.closed⟩
  made := h.made

/-- `closePeer` overtakes the run that waits. -/
theorem Inv.closePeer (h : Inv s) : Inv s.closePeer where
  sound := h.sound.of_history rfl rfl rfl
  runs := by
    rcases h.runs with hruns | ⟨r, hruns, hw⟩
    · exact .inl (by rw [Viewer.closePeer, hruns]; rfl)
    · obtain ⟨master, hmem, -⟩ := hw.known
      refine .inr ⟨{ r with overtaken := true }, by rw [Viewer.closePeer, hruns]; rfl, ?_⟩
      exact ⟨hw.point, hw.unsent, ⟨master, hmem, fun h => absurd h (by simp)⟩,
        fun h => absurd h (by simp), fun _ => ⟨rfl, rfl⟩⟩
  made := h.made

theorem Inv.disconnect (h : Inv s) : Inv s.disconnect := (h.socket none false s.live).closePeer

/-- Nothing else is kept where no run waits. -/
theorem Inv.of_idle (h : Inv s) {t : Viewer α} (hruns : t.runs = [])
    (htouches : t.touches = s.touches) (hoffers : t.offers = s.offers)
    (hcreated : t.created = s.created) (hnext : t.next = s.next) : Inv t where
  sound := h.sound.of_history htouches hoffers hcreated
  runs := .inl hruns
  made := by
    rw [hcreated, hnext]
    exact h.made

/-- A message names the master for which a run waits. -/
theorem Inv.names (h : Inv s) {masterId : Option α}
    (hsame : ∀ r ∈ s.runs, r.overtaken = false → s.masterId = masterId) :
    Inv { s with masterId := masterId } where
  sound := h.sound.of_history rfl rfl rfl
  runs := by
    rcases h.runs with hruns | ⟨r, hruns, hw⟩
    · exact .inl hruns
    · obtain ⟨master, hmem, hcurrent⟩ := hw.known
      refine .inr ⟨r, hruns, hw.point, hw.unsent, ⟨master, hmem, fun hr => ?_⟩, hw.current,
        hw.closed⟩
      rw [← hcurrent hr]
      exact (hsame r (hruns ▸ List.mem_singleton_self r) hr).symm
  made := h.made

/-- What is caught when the connection cannot be made leaves an overtaken run
waiting. -/
theorem Inv.noConnection (h : Inv s) (hstarted : s.offerStarted = false) :
    Inv { s with offerStarted := true }.caught where
  sound := h.sound.of_history rfl rfl rfl
  runs := by
    rcases h.runs with hruns | ⟨r, hruns, hw⟩
    · exact .inl hruns
    · refine .inr ⟨r, hruns, hw.point, hw.unsent, hw.known, fun hr => ?_, hw.closed⟩
      exact absurd (hstarted.symm.trans (hw.current hr).1) (by decide)
  made := h.made

/-- A run begins where none is waiting. -/
theorem Inv.startPeer (h : Inv s) (setup : Setup)
    (hidle : s.offerStarted = false → s.ws = some .opened → s.masterId.isSome = true →
      setup ≠ .noConnection → s.runs = []) : Inv (s.startPeer setup) := by
  rw [Viewer.startPeer]
  split
  · exact h
  next master hmaster =>
    split
    · exact h
    next hbegin =>
      have hbegin := not_or.mp hbegin
      have hstarted : s.offerStarted = false := by simpa using hbegin.1
      have hruns : setup ≠ .noConnection → s.runs = [] :=
        hidle hstarted (not_not.mp hbegin.2) (by rw [hmaster]; rfl)
      -- the new connection has a number of its own
      have hfresh : ∀ e ∈ s.created, e.1 ≠ s.next := fun e he => Nat.ne_of_lt (h.made e he)
      have hnumbered : (((s.next, master) :: s.created).map Prod.fst).Nodup := by
        rw [List.map_cons, List.nodup_cons]
        refine ⟨fun hmem => ?_, h.sound.numbered⟩
        obtain ⟨e, he, heq⟩ := List.mem_map.mp hmem
        exact hfresh e he heq
      have hmade : ∀ e ∈ (s.next, master) :: s.created, e.1 < s.next + 1 := by
        intro e he
        rcases List.mem_cons.mp he with rfl | he
        · exact Nat.lt_succ_self _
        · exact Nat.lt_succ_of_lt (h.made e he)
      have haddressed : ∀ o ∈ s.offers, ∃ m, (o.pc, m) ∈ (s.next, master) :: s.created ∧
          o.recipient = some m := by
        intro o ho
        obtain ⟨m, hmem, hm⟩ := h.sound.addressed o ho
        exact ⟨m, List.mem_cons_of_mem _ hmem, hm⟩
      cases setup with
      | noConnection => exact h.noConnection hstarted
      | noSender =>
        exact ⟨⟨h.sound.touches, h.sound.offers, h.sound.once, haddressed, hnumbered⟩,
          .inl (hruns (by decide)), hmade⟩
      | waits =>
        refine ⟨⟨h.sound.touches, h.sound.offers, h.sound.once, haddressed, hnumbered⟩,
          .inr ⟨_, by rw [hruns (by decide)], ?_⟩, hmade⟩
        constructor
        · rintro offer (hpoint | hpoint) <;> cases hpoint
        · intro o ho
          obtain ⟨m, hmem, -⟩ := h.sound.addressed o ho
          exact hfresh _ hmem
        · exact ⟨master, List.mem_cons_self, fun _ => hmaster⟩
        · exact fun _ => ⟨rfl, rfl, rfl⟩
        · exact fun hr => absurd hr (by simp)

/-! ### A run goes on -/

/-- What the globals refer to is the run's own connection, if it is not
overtaken. -/
theorem Waits.own_connection {r : PeerRun} (hw : Waits s r) {pc : ℕ}
    (hpc : s.pc = some pc ∨ s.audioSender = some pc) : r.overtaken = false ∧ pc = r.own := by
  cases hr : r.overtaken with
  | true =>
    obtain ⟨hnone, hsender⟩ := hw.closed hr
    rw [hnone, hsender] at hpc
    rcases hpc with hpc | hpc <;> cases hpc
  | false =>
    obtain ⟨-, hown, hsender⟩ := hw.current hr
    rw [hown, hsender] at hpc
    refine ⟨rfl, ?_⟩
    rcases hpc with hpc | hpc
    · exact (Option.some.inj hpc).symm
    · exact (Option.some.inj hpc).symm

section Resume

variable {r : PeerRun} (h : Inv s) (hruns : s.runs = []) (hw : Waits s r)

include h hruns hw in
/-- The run calls its connection and waits for the answer. -/
theorem inv_touch {pc : ℕ} (hpc : s.pc = some pc ∨ s.audioSender = some pc) {point : Point}
    (hpoint : ∀ offer, point = .createOffer offer ∨ point = .setLocal offer → offer = r.own) :
    Inv { s with
      touches := ⟨r.own, r.overtaken, pc⟩ :: s.touches
      runs := { r with point := point } :: s.runs } := by
  obtain ⟨hr, -⟩ := hw.own_connection hpc
  refine ⟨⟨fun t ht hover => ?_, h.sound.offers, h.sound.once, h.sound.addressed,
    h.sound.numbered⟩, .inr ⟨_, by rw [hruns], ?_⟩, h.made⟩
  · rcases List.mem_cons.mp ht with rfl | ht
    · exact absurd (hr.symm.trans hover) (by decide)
    · exact h.sound.touches t ht hover
  · exact ⟨hpoint, hw.unsent, hw.known, hw.current, hw.closed⟩

include h hruns in
theorem inv_caught : Inv s.caught := h.of_idle hruns rfl rfl rfl rfl

include h hruns hw in
theorem inv_createOffer : Inv (s.createOffer r) := by
  rw [Viewer.createOffer]
  split
  · exact inv_caught h hruns
  next pc hpc =>
    refine inv_touch h hruns hw (.inl hpc) ?_
    rintro offer (hoffer | hoffer)
    · obtain rfl := Point.createOffer.inj hoffer
      exact (hw.own_connection (.inl hpc)).2
    · cases hoffer

include h hruns hw in
/-- The run sends its offer to the master for which it made the connection. -/
theorem inv_offer {offer : ℕ} (hr : r.overtaken = false) (hoffer : offer = r.own) :
    Inv { s with offers := ⟨r.own, r.overtaken, offer, s.masterId⟩ :: s.offers } := by
  obtain ⟨master, hmem, hcurrent⟩ := hw.known
  refine ⟨⟨h.sound.touches, fun o ho hover => ?_, ?_, fun o ho => ?_, h.sound.numbered⟩,
    .inl hruns, h.made⟩
  · rcases List.mem_cons.mp ho with rfl | ho
    · exact absurd (hr.symm.trans hover) (by decide)
    · exact h.sound.offers o ho hover
  · rw [List.map_cons, List.nodup_cons]
    refine ⟨fun hsent => ?_, h.sound.once⟩
    obtain ⟨o, ho, heq⟩ := List.mem_map.mp hsent
    exact hw.unsent o ho (heq.trans hoffer)
  · rcases List.mem_cons.mp ho with rfl | ho
    · exact ⟨master, hoffer ▸ hmem, hcurrent hr⟩
    · exact h.sound.addressed o ho

include h hruns hw in
/-- **A run that goes on keeps the invariant**, if it is not an overtaken one that
sends its offer. -/
theorem inv_resumeRun (answer : Answer) (track : Bool)
    (hsend : answer = .fulfilled → s.ws = some .opened → r.overtaken = true →
      r.point.sends = false) : Inv (s.resumeRun r answer track) := by
  have hcaught := inv_caught h hruns
  have hcreate := inv_createOffer h hruns hw
  rw [Viewer.resumeRun.eq_def]
  -- one continuation after the other, in the order of the source
  split
  · split
    · split
      · exact hcreate
      next pc hsender =>
        refine inv_touch h hruns hw (.inr hsender) ?_
        rintro offer (hoffer | hoffer) <;> cases hoffer
    · exact hcreate
  · exact hcreate
  · exact hcreate
  next offer hpoint =>
    split
    · exact hcaught
    next pc hpc =>
      refine inv_touch h hruns hw (.inl hpc) ?_
      rintro offer' (hoffer | hoffer)
      · cases hoffer
      · obtain rfl := Point.setLocal.inj hoffer
        exact hw.point offer (.inl hpoint)
  · exact hcaught
  next offer hpoint =>
    split
    · exact hcaught
    · exact hcaught
    · exact h
    next hopened =>
      -- an overtaken run that sends is what the hypothesis excludes
      have hr : r.overtaken = false := by
        cases hr : r.overtaken with
        | true =>
          have hfalse := hsend rfl hopened hr
          rw [hpoint] at hfalse
          cases hfalse
        | false => rfl
      exact inv_offer h hruns hw hr (hw.point offer (.inr hpoint))
  · exact hcaught

end Resume

/-! ### Every run -/

/-- A message that names a master. -/
theorem inv_names (h : Inv s) {masterId : Option α} {setup : Setup}
    (hn : Names s masterId setup) :
    Inv ({ s with masterId := masterId }.startPeer setup) := by
  refine (h.names hn.2).startPeer setup fun hstarted hopened hsome hmakes => ?_
  have hfree := hn.1 hstarted hopened hsome hmakes
  rcases h.runs with hruns | ⟨r, hruns, hw⟩
  · exact hruns
  · -- a run that is not overtaken has set `offerStarted`
    have hr := hfree r (hruns ▸ List.mem_singleton_self r)
    exact absurd (hstarted.symm.trans (hw.current hr).1) (by decide)

/-- **An undisturbed step keeps the invariant.** -/
theorem inv_step (s : Viewer α) (l : Label α) (t : Viewer α) (h : Inv s) (hl : Undisturbed s l)
    (ht : s.step l = some t) : Inv t := by
  cases l with
  | joined masterId setup =>
    cases masterId with
    | none =>
      obtain rfl := Option.some.inj ht
      exact h
    | some master =>
      obtain rfl := Option.some.inj ht
      exact inv_names h hl
  | peerJoined clientId setup =>
    obtain rfl := Option.some.inj ht
    exact inv_names h hl
  | peerLeft =>
    obtain rfl := Option.some.inj ht
    exact h.closePeer
  | connect accepted =>
    rw [Viewer.step] at ht
    split at ht
    · obtain rfl := Option.some.inj ht
      exact h.closePeer.socket (some .connecting) true s.live
    · obtain rfl := Option.some.inj ht
      exact h.disconnect
  | disconnect =>
    obtain rfl := Option.some.inj ht
    exact h.disconnect
  | setViewMode live =>
    rw [Viewer.step] at ht
    split at ht
    · obtain rfl := Option.some.inj ht
      exact h
    split at ht
    · obtain rfl := Option.some.inj ht
      exact (h.socket s.ws s.connectedIntent live).disconnect
    · obtain rfl := Option.some.inj ht
      exact h.socket s.ws s.connectedIntent live
  | wsOpen =>
    rw [Viewer.step] at ht
    split at ht
    · obtain rfl := Option.some.inj ht
      exact h.socket (some .opened) s.connectedIntent s.live
    · cases ht
  | wsClosing =>
    rw [Viewer.step] at ht
    split at ht
    · obtain rfl := Option.some.inj ht
      exact h.socket (some .closing) s.connectedIntent s.live
    · cases ht
  | wsClose =>
    rw [Viewer.step] at ht
    split at ht
    · cases ht
    split at ht
    · obtain rfl := Option.some.inj ht
      exact h
    · obtain rfl := Option.some.inj ht
      exact (h.socket none s.connectedIntent s.live).closePeer
  | resume own answer track =>
    obtain ⟨r, hfind, rfl⟩ := Option.map_eq_some_iff.mp ht
    have hmem := List.mem_of_find?_eq_some hfind
    have hown : r.own = own := by simpa using List.find?_some hfind
    rcases h.runs with hruns | ⟨r', hruns, hw⟩
    · rw [hruns] at hmem
      cases hmem
    -- the continuation that resumes is the only one
    obtain rfl : r = r' := by
      rw [hruns] at hmem
      exact List.mem_singleton.mp hmem
    -- and while it runs none is left in the list
    have hidle : s.runs.filter (fun r => decide (r.own ≠ own)) = [] := by
      rw [hruns]
      simp [hown]
    have hinv : Inv { s with runs := s.runs.filter fun r => decide (r.own ≠ own) } :=
      h.of_idle hidle rfl rfl rfl rfl
    refine inv_resumeRun hinv hidle ⟨hw.point, hw.unsent, hw.known, hw.current, hw.closed⟩
      answer track ?_
    rintro rfl hopened hr
    exact hl hopened r hmem hown hr

/-- **Every state that undisturbed steps lead to is sound.** -/
theorem offers_sound {ls : List (Label α)} {t : Viewer α}
    (hls : Along Viewer.step Undisturbed init ls) (ht : run Viewer.step init ls = some t) :
    Sound t :=
  (run_invariant inv_step inv_init hls ht).sound

end Promises

/-- The device leaves while the microphone is asked for, and the run ends; then
it comes back, and the next run sends its offer. -/
def returning : List (Label ℕ) :=
  [.connect true, .wsOpen, .joined (some 7) .waits, .peerLeft, .resume 0 .fulfilled true,
    .peerJoined (some 8) .waits, .resume 1 .fulfilled true, .resume 1 .fulfilled true,
    .resume 1 .fulfilled true, .resume 1 .fulfilled true]

theorem returning_sound : ∃ t, run Viewer.step init returning = some t ∧
    t.offers = [⟨1, false, 1, some 8⟩] ∧ Sound t := by
  refine ⟨_, rfl, by decide, ?_⟩
  exact @offers_sound ℕ returning _ (by decide) rfl

/-- **A run that was overtaken sends an offer for the connection of the next
one**, which then sends a second: the microphone is granted only when the device
has come back. -/
theorem stale_run_offers :
    ¬ ∀ (ls : List (Label ℕ)) (t : Viewer ℕ), run Viewer.step init ls = some t → Sound t := by
  intro h
  have hrun : (run Viewer.step (init : Viewer ℕ)
      [.connect true, .wsOpen, .joined (some 7) .waits, .peerLeft, .peerJoined (some 7) .waits,
        .resume 0 .fulfilled true, .resume 0 .fulfilled true, .resume 0 .fulfilled true,
        .resume 0 .fulfilled true, .resume 1 .fulfilled true, .resume 1 .fulfilled true,
        .resume 1 .fulfilled true, .resume 1 .fulfilled true]).map (fun t => t.offers) =
      some [⟨1, false, 1, some 7⟩, ⟨0, true, 1, some 7⟩] := by decide
  obtain ⟨t, ht, hoffers⟩ := Option.map_eq_some_iff.mp hrun
  exact (h _ t ht).offers ⟨0, true, 1, some 7⟩ (by simp [hoffers]) rfl (by decide)

end ViewerPeer

end IpcMini
