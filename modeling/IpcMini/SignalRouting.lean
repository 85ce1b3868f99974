/-
Whom the signals of the signaling server reach (`cloud/signaling/rooms.js`,
`cloud/signaling/protocol.js`).

An offer, an answer or a candidate is routed for the peer variable of the socket
it came on.  A replaced master keeps that variable until its socket is closed.

* `recipient` — whom `route` or `routeDefault` finds;
* `Delivered` — a signal reaches at most one socket, of a registered peer of the
  sender's room, from a registered sender and under both ids;
* `delivered_iff_step` — so it is, unless an unregistered sender finds an open
  socket;
* **`delivered_of_noReplacedSignal`** — so every signal is in the runs in which
  none comes on the socket of a replaced master;
* **`replacedMaster_signals`** — a replaced master that still signals.
-/
import IpcMini.ReplacedMasters

namespace IpcMini

open Interleaving

namespace Signaling

variable {β : Type}

/-- Whom `route`, or without an id `routeDefault`, sends a signal to. -/
def recipient (rooms : Rooms) (sender : Peer) (toId : String) : Option Peer :=
  if toId = "" then defaultTarget rooms sender else find rooms sender.room toId

def Message.isRelay : Message β → Bool
  | .relay _ _ _ => true
  | _ => false

/-- The signals that a step delivers, with their sockets. -/
def relayed (s t : State β) : List (ℕ × Message β) :=
  (t.log.drop s.log.length).filter (·.2.isRelay)

/-- A signal is delivered for a registered sender, to at most one socket, that
of a registered peer in the sender's room, with their ids. -/
def Delivered (cfg : Config) (s : State β) : Label β → Prop
  | .message ws (.signal toId message) newId =>
    ∀ t, step cfg s (.message ws (.signal toId message) newId) = some t →
      (relayed s t).length ≤ 1 ∧ ∀ delivery ∈ relayed s t, ∃ sender target,
        s.peerOf ws = some (some sender) ∧ Registered s sender ∧ Registered s target ∧
          target.room = sender.room ∧
          delivery = (target.ws, .relay sender.id target.id message)
  | _ => True

/-- A signal from a peer that is no longer registered finds no open socket. -/
def NoStaleSignal (s : State β) : Label β → Prop
  | .message ws (.signal toId message) _ =>
    ∀ socket sender, s.sockets ws = some socket → socket.ready ≠ .closed →
      (ClientMessage.signal toId message).valid = true → socket.peer = some sender →
      ¬ Registered s sender → ∀ target, recipient s.rooms sender toId = some target →
        s.isOpen target.ws = false
  | _ => True

theorem find_has {rooms : Rooms} {name id : String} {target : Peer}
    (h : find rooms name id = some target) :
    ((ensure rooms name).master = some target ∧ target.id = id) ∨
      (ensure rooms name).viewers.lookup id = some target := by
  unfold find at h
  split at h
  case h_1 => exact absurd h (by simp)
  case h_2 room hroom =>
    rw [ensure_of_eq hroom]
    split at h
    case h_1 master hm =>
      split_ifs at h with hid
      · obtain rfl := Option.some_inj.mp h
        exact .inl ⟨hm, hid⟩
      · exact .inr h
    case h_2 => exact .inr h

/-- Signals go to registered peers of the sender's room only. -/
theorem recipient_registered {s : State β} (hf : Filed s) {sender target : Peer} {toId : String}
    (h : recipient s.rooms sender toId = some target) :
    Registered s target ∧ target.room = sender.room ∧ (toId ≠ "" → target.id = toId) := by
  have hmaster : ∀ name, (ensure s.rooms name).master = some target →
      Registered s target ∧ target.room = name := by
    intro name hm
    obtain ⟨-, rfl, -⟩ := hf.master name target hm
    exact ⟨.inl hm, rfl⟩
  have hviewer : ∀ name id, (ensure s.rooms name).viewers.lookup id = some target →
      Registered s target ∧ target.room = name ∧ target.id = id := by
    intro name id hv
    obtain ⟨-, rfl, rfl, -⟩ := hf.viewer name id target hv
    exact ⟨.inr hv, rfl, rfl⟩
  unfold recipient at h
  -- without an id the target follows from the roles
  split_ifs at h with hto
  · unfold defaultTarget at h
    split at h
    case h_1 => exact absurd h (by simp)
    case h_2 room hroom =>
      have hensure := ensure_of_eq hroom
      split at h
      case h_1 master hrole hm =>
        obtain rfl := Option.some_inj.mp h
        obtain ⟨hreg, hname⟩ := hmaster sender.room (hensure.symm ▸ hm)
        exact ⟨hreg, hname, fun hne => absurd hto hne⟩
      case h_2 viewer hrole hlist =>
        obtain rfl := Option.some_inj.mp h
        have hmem : viewer ∈ room.viewerList := hlist ▸ List.mem_singleton_self _
        obtain ⟨id, hl⟩ := mem_viewerList.mp hmem
        obtain ⟨hreg, hname, -⟩ := hviewer sender.room id (hensure.symm ▸ hl)
        exact ⟨hreg, hname, fun hne => absurd hto hne⟩
      case h_3 => exact absurd h (by simp)
  · rcases find_has h with ⟨hm, hid⟩ | hv
    · obtain ⟨hreg, hname⟩ := hmaster sender.room hm
      exact ⟨hreg, hname, fun _ => hid⟩
    · obtain ⟨hreg, hname, hid⟩ := hviewer sender.room toId hv
      exact ⟨hreg, hname, fun _ => hid⟩

/-- One message is sent. -/
theorem log_send (s : State β) (ws : ℕ) (message : Message β) :
    (s.performAll [.send ws message]).log =
      s.log ++ if s.isOpen ws then [(ws, message)] else [] := by
  simp only [State.performAll, List.foldl_cons, List.foldl_nil, State.perform]
  split_ifs
  · rfl
  · exact (List.append_nil _).symm

/-- A signal is relayed to the recipient, or answered by an error. -/
theorem signal_log {s : State β} (hf : Filed s) (cfg : Config) (ws : ℕ) (sender : Peer)
    (newId toId : String) (message : β) :
    (∃ target, recipient s.rooms sender toId = some target ∧
      (handled cfg s ws (some sender) newId (.signal toId message)).log =
        s.log ++ if s.isOpen target.ws then
          [(target.ws, .relay sender.id target.id message)] else []) ∨
    (recipient s.rooms sender toId = none ∧ ∃ error,
      (handled cfg s ws (some sender) newId (.signal toId message)).log =
        s.log ++ if s.isOpen ws then [(ws, .error error)] else []) := by
  cases hr : recipient s.rooms sender toId with
  | some target =>
    refine .inl ⟨target, rfl, ?_⟩
    have hid := (recipient_registered hf hr).2.2
    unfold recipient at hr
    split_ifs at hr with hto
    · simp only [handled, handleClientMessage, if_pos hto, routeDefault, hr, Option.map_some]
      exact log_send _ _ _
    · simp only [handled, handleClientMessage, if_neg hto, route, hr, Option.map_some]
      rw [hid hto]
      exact log_send _ _ _
  | none =>
    refine .inr ⟨rfl, ?_⟩
    unfold recipient at hr
    split_ifs at hr with hto
    · refine ⟨"missing to", ?_⟩
      simp only [handled, handleClientMessage, if_pos hto, routeDefault, hr, Option.map_none]
      exact log_send _ _ _
    · refine ⟨"target offline", ?_⟩
      simp only [handled, handleClientMessage, if_neg hto, route, hr, Option.map_none]
      exact log_send _ _ _

theorem relayed_of_log {s t : State β} {sent : List (ℕ × Message β)} (h : t.log = s.log ++ sent) :
    relayed s t = sent.filter (·.2.isRelay) := by
  rw [relayed, h, List.drop_left]

/-- A socket without a peer gets an error. -/
theorem join_first_log (cfg : Config) (s : State β) (ws : ℕ) (newId toId : String) (message : β) :
    (handled cfg s ws none newId (.signal toId message)).log =
      s.log ++ if s.isOpen ws then [(ws, .error "join first")] else [] :=
  log_send _ _ _

theorem delivered_iff_step {cfg : Config} {s : State β} (hf : Filed s) (i : Label β) :
    Delivered cfg s i ↔ NoStaleSignal s i := by
  cases i with
  | message ws message newId =>
    cases message with
    | signal toId message =>
      constructor
      · intro h socket sender hsocket hready hvalid hpeer hunreg target hto
        by_contra hclosed
        have hopen : s.isOpen target.ws = true := Bool.of_not_eq_false hclosed
        have hstep : step cfg s (.message ws (.signal toId message) newId) =
            some (handled cfg s ws socket.peer newId (.signal toId message)) := by
          simp only [step, hsocket]
          rw [if_pos ⟨hready, hvalid, trivial⟩]
        rcases signal_log hf cfg ws sender newId toId message with
          ⟨target', hto', hlog⟩ | ⟨hnone, -⟩
        · obtain rfl := Option.some_inj.mp (hto.symm.trans hto')
          rw [if_pos hopen, ← hpeer] at hlog
          -- the signal of the unregistered sender is delivered
          obtain ⟨sender', target', hpeer', hreg, -⟩ := (h _ hstep).2
            (target.ws, .relay sender.id target.id message)
            (by rw [relayed_of_log hlog]; exact List.mem_singleton_self _)
          rw [peerOf_eq hsocket, hpeer] at hpeer'
          obtain rfl : sender = sender' := by simpa using hpeer'
          exact hunreg hreg
        · exact absurd (hnone.symm.trans hto) (by simp)
      · intro h t hstep
        obtain ⟨socket, hsocket, hready, hvalid, -, rfl⟩ := step_message hstep
        cases hpeer : socket.peer with
        | none =>
          rw [relayed_of_log (join_first_log cfg s ws newId toId message)]
          split_ifs <;> simp [Message.isRelay]
        | some sender =>
          rcases signal_log hf cfg ws sender newId toId message with
            ⟨target, hto, hlog⟩ | ⟨-, error, hlog⟩
          · rw [relayed_of_log hlog]
            split_ifs with hopen
            · obtain ⟨htarget, hroom, -⟩ := recipient_registered hf hto
              refine ⟨by simp [Message.isRelay], fun delivery hd => ?_⟩
              obtain rfl : delivery = (target.ws, .relay sender.id target.id message) := by
                simpa [Message.isRelay] using hd
              refine ⟨sender, target, by rw [peerOf_eq hsocket, hpeer], ?_, htarget, hroom, rfl⟩
              by_contra hunreg
              have := h socket sender hsocket hready hvalid hpeer hunreg target hto
              exact absurd (hopen.symm.trans this) (by simp)
            · simp
          · rw [relayed_of_log hlog]
            split_ifs <;> simp [Message.isRelay]
    | _ => exact Iff.rfl
  | _ => exact Iff.rfl

/-- No signal comes on the socket of a master that was replaced. -/
def NoReplacedSignal (w : State β × List ℕ) : Label β → Prop
  | .message ws (.signal _ _) _ => ws ∉ w.2
  | _ => True

instance (w : State β × List ℕ) (i : Label β) : Decidable (NoReplacedSignal w i) := by
  unfold NoReplacedSignal
  split <;> infer_instance

/-- The peer of a socket is registered, or a replaced master. -/
theorem noStaleSignal_of_noReplacedSignal {w : State β × List ℕ} (h : Followed w) {i : Label β}
    (hi : NoReplacedSignal w i) : NoStaleSignal w.1 i := by
  cases i with
  | message ws message newId =>
    cases message with
    | signal toId message =>
      intro socket sender hsocket _ _ hpeer hunreg
      have hsender : w.1.peerOf ws = some (some sender) := by rw [peerOf_eq hsocket, hpeer]
      exact absurd ((h.registered ws sender hsender).mpr hi) hunreg
    | _ => trivial
  | _ => trivial

/-- **The runs in which no signal comes on the socket of a replaced master
deliver every signal as they should.** -/
theorem delivered_of_noReplacedSignal (cfg : Config) (is : List (Label β))
    (h : Along (watched cfg) NoReplacedSignal (init, []) is) :
    Along (step cfg) (Delivered cfg) init is := by
  suffices hall : ∀ w : State β × List ℕ, Followed w → Along (watched cfg) NoReplacedSignal w is →
      Along (step cfg) (Delivered cfg) w.1 is from hall (init, []) followed_init h
  clear h
  -- the run of the server is that of the watched one, from the same state
  induction is with
  | nil => exact fun w _ _ => along_nil w.1
  | cons i is ih =>
    intro w hw h
    refine ⟨(delivered_iff_step hw.filed i).mpr (noStaleSignal_of_noReplacedSignal hw h.1),
      fun t ht => ?_⟩
    have hnext : watched cfg w i = some (t, stillReplaced w.1 w.2 i) := by
      rw [watched, ht, Option.map_some]
    exact ih _ (followed_step hw hnext) (h.2 _ hnext)

/-- A viewer and two devices join a room; the second device replaces the first
one, whose socket is still closing. -/
def replaced : List (Label Unit) :=
  [.connect 0, .message 0 (.join "r" .viewer "v") "", .connect 1,
    .message 1 (.join "r" .master "m") "", .connect 2, .message 2 (.join "r" .master "n") ""]

/-- The room after the first device is gone: its successor's signals are
delivered. -/
theorem successor_delivered :
    Along (step defaultConfig) (Delivered defaultConfig) init
      (replaced ++ [.close 1, .message 2 (.signal "v" ()) "", .message 0 (.signal "n" ()) ""]) :=
  delivered_of_noReplacedSignal defaultConfig _ (by decide +kernel)

/-- **The replaced device still signals**: its offer reaches the viewer. -/
theorem replacedMaster_signals :
    (run (step defaultConfig) init (replaced ++ [.message 1 (.signal "v" ()) ""])).isSome ∧
      ¬ Along (step defaultConfig) (Delivered defaultConfig) init
        (replaced ++ [.message 1 (.signal "v" ()) ""]) := by
  refine ⟨by decide +kernel, fun h => ?_⟩
  obtain ⟨s, hs⟩ : ∃ s, run (step defaultConfig) init replaced = some s :=
    Option.isSome_iff_exists.mp (by decide +kernel)
  have hsocket : (run (step defaultConfig) init replaced).map (·.sockets 1) =
      some (some ⟨.closing, some ⟨"m", .master, "r", 1, 1⟩⟩) := by decide +kernel
  have hmaster : (run (step defaultConfig) init replaced).map
      (fun s => (ensure s.rooms "r").master) = some (some ⟨"n", .master, "r", 2, 2⟩) := by
    decide +kernel
  have hto : (run (step defaultConfig) init replaced).map
      (fun s => recipient s.rooms ⟨"m", .master, "r", 1, 1⟩ "v") =
        some (some ⟨"v", .viewer, "r", 0, 0⟩) := by decide +kernel
  have hopen : (run (step defaultConfig) init replaced).map (·.isOpen 0) = some true := by
    decide +kernel
  have hviewer : (run (step defaultConfig) init replaced).map
      (fun s => (ensure s.rooms "r").viewers.lookup "m") = some none := by decide +kernel
  rw [hs, Option.map_some] at hsocket hmaster hto hopen hviewer
  have hfiled : Filed s := run_preserves (fun _ _ _ hf => filed_step hf) filed_init hs
  have hstale := (delivered_iff_step hfiled _).mp ((along_append.mp h).2 s hs).1
  have hclosed := hstale _ _ (Option.some_inj.mp hsocket) (by decide) (by decide +kernel) rfl ?_ _
    (Option.some_inj.mp hto)
  · exact absurd (hclosed.symm.trans (Option.some_inj.mp hopen)) (by simp)
  · rintro (hm | hv)
    · exact absurd ((Option.some_inj.mp hmaster).symm.trans hm) (by simp)
    · exact absurd ((Option.some_inj.mp hviewer).symm.trans hv) (by simp)

end Signaling

end IpcMini
