/-
The heartbeat of the signaling server (`cloud/signaling/server.js`).

Every 15 s the server walks over `wss.clients`: a socket that has not answered the ping
before is terminated, the others are pinged.  A socket that fails the authorisation has no
handler for pongs, and is a client all the same until it is gone.

* `Server.step` — the steps of `SignalingServer.lean`, with pongs, ticks and the shutdown;
* `silence`, `Silent` — the ticks since a socket was heard of last;
* `foldl_beat` — what a tick does to all clients;
* `refines` — a run is one of the server without the heartbeat;
* `Server.Inv`, and `inv_step`: every step keeps it, with the steps before it;
* **`heartbeat_ends`** — a socket is terminated exactly if two ticks came on it with no pong
  between them; whoever is in a room has a socket that is not closed, and one that is open
  was heard of since the last tick but one.
-/
import Mathlib.Data.List.Infix
import IpcMini.SignalRouting

namespace IpcMini

open Interleaving

namespace Signaling

variable {β : Type}

/-! ### The server -/

/-- The server with the sockets that it pings. -/
structure Server (β : Type) where
  state : State β
  /-- `wss.clients` -/
  clients : List ℕ
  /-- `isAlive` of the sockets; `none` is `undefined` -/
  isAlive : ℕ → Option Bool
  /-- the sockets that were terminated -/
  terminated : ℕ → Bool
  /-- the number of the next socket -/
  next : ℕ
  /-- `shutdown` was not called -/
  running : Bool

/-- An event; the sockets are numbered as they come. -/
inductive Event (β : Type)
  | connect (authorized : Bool)
  /-- a handler of an authorised socket is called -/
  | handle (i : Label β)
  /-- a socket without handlers is gone -/
  | gone (ws : ℕ)
  | pong (ws : ℕ)
  | heartbeat
  | shutdown

namespace Server

def init : Server β := ⟨Signaling.init, [], fun _ => none, fun _ => false, 0, true⟩

/-- The heartbeat comes to one socket.  A socket that is terminated closes. -/
def beat (s : Server β) (ws : ℕ) : Server β :=
  if s.isAlive ws = some false then
    { s with
      state := s.state.perform (.close ws)
      terminated := Function.update s.terminated ws true }
  else { s with isAlive := Function.update s.isAlive ws (some false) }

/-- The callback of `setInterval`. -/
def heartbeat (s : Server β) : Server β := s.clients.foldl beat s

/-- `shutdown`; from here on nobody can connect. -/
def shutdown (s : Server β) : Server β :=
  { s with state := s.state.performAll (s.clients.map .close), running := false }

def step (cfg : Config) (s : Server β) : Event β → Option (Server β)
  | .connect authorized =>
    if !s.running then none
    else if authorized then
      (Signaling.step cfg s.state (.connect s.next)).map fun state =>
        { s with
          state := state
          clients := s.clients ++ [s.next]
          isAlive := Function.update s.isAlive s.next (some true)
          next := s.next + 1 }
    -- it is sent an error and closed
    else some { s with clients := s.clients ++ [s.next], next := s.next + 1 }
  | .handle i =>
    match i with
    | .connect _ => none
    | .close ws =>
      (Signaling.step cfg s.state (.close ws)).map fun state =>
        { s with state := state, clients := s.clients.filter fun c => decide (c ≠ ws) }
    | i => (Signaling.step cfg s.state i).map fun state => { s with state := state }
  | .gone ws =>
    if (s.state.sockets ws).isNone then
      some { s with clients := s.clients.filter fun c => decide (c ≠ ws) }
    else none
  | .pong ws =>
    if (s.state.sockets ws).any fun socket => decide (socket.ready ≠ .closed) then
      some { s with isAlive := Function.update s.isAlive ws (some true) }
    else none
  | .heartbeat => if s.running then some s.heartbeat else none
  | .shutdown => some s.shutdown

end Server

/-! ### Silence -/

/-- The socket connects, or its pong comes. -/
def heard (e : Server β × Event β) (ws : ℕ) : Bool :=
  match e.2 with
  | .connect _ => decide (ws = e.1.next)
  | .pong other => decide (ws = other)
  | _ => false

/-- The heartbeat comes to the socket. -/
def beats (e : Server β × Event β) (ws : ℕ) : Bool :=
  match e.2 with
  | .heartbeat => decide (ws ∈ e.1.clients)
  | _ => false

/-- How often the heartbeat came to the socket since it was heard of last. -/
def silence (past : List (Server β × Event β)) (ws : ℕ) : ℕ :=
  past.foldl (fun n e => if heard e ws then 0 else if beats e ws then n + 1 else n) 0

/-- The heartbeat came to the socket twice and it was not heard of between. -/
def Silent (past : List (Server β × Event β)) (ws : ℕ) : Prop :=
  ∃ before, before <+: past ∧ 2 ≤ silence before ws

variable {past : List (Server β × Event β)} {e : Server β × Event β} {ws : ℕ}

theorem silence_concat :
    silence (past ++ [e]) ws =
      if heard e ws then 0 else if beats e ws then silence past ws + 1 else silence past ws := by
  rw [silence, List.foldl_append]
  rfl

theorem silent_concat :
    Silent (past ++ [e]) ws ↔ Silent past ws ∨ 2 ≤ silence (past ++ [e]) ws := by
  constructor
  · rintro ⟨before, hbefore, h⟩
    rcases List.prefix_concat_iff.mp hbefore with rfl | hbefore
    · exact .inr h
    · exact .inl ⟨before, hbefore, h⟩
  · rintro (⟨before, hbefore, h⟩ | h)
    · exact ⟨before, hbefore.trans (List.prefix_append _ _), h⟩
    · exact ⟨_, List.prefix_rfl, h⟩

/-- A step in which the heartbeat does not come to the socket. -/
theorem silent_of_not_beats (hbeats : beats e ws = false) :
    Silent (past ++ [e]) ws ↔ Silent past ws := by
  rw [silent_concat, silence_concat]
  refine or_iff_left_of_imp fun h => ?_
  split_ifs at h with hheard
  · exact absurd h (by decide)
  · exact absurd ‹beats e ws = true› (by simp [hbeats])
  · exact ⟨past, List.prefix_rfl, h⟩

/-! ### The sockets of the server -/

namespace State

variable {s t : State β}

/-- `readyState` of a socket. -/
def readyOf (s : State β) (ws : ℕ) : Option Ready := (s.sockets ws).map (·.ready)

theorem isOpen_iff : s.isOpen ws = true ↔ s.readyOf ws = some .open := by
  rw [isOpen, readyOf]
  cases s.sockets ws <;> simp

@[simp] theorem readyOf_setPeer (s : State β) (ws : ℕ) (peer : Option Peer) (ws' : ℕ) :
    (s.setPeer ws peer).readyOf ws' = s.readyOf ws' := by
  by_cases h : ws' = ws
  · subst h
    simp only [readyOf, setPeer, Function.update_self, Option.map_map]
    rfl
  · simp only [readyOf, setPeer, Function.update_of_ne h]

theorem readyOf_setReady (s : State β) (ws : ℕ) (ready : Ready) (ws' : ℕ) :
    (s.setReady ws ready).readyOf ws' =
      if ws' = ws then (s.readyOf ws).map fun _ => ready else s.readyOf ws' := by
  split_ifs with h
  · subst h
    simp only [readyOf, setReady, Function.update_self, Option.map_map]
    rfl
  · simp only [readyOf, setReady, Function.update_of_ne h]

end State

/-- The socket is as before, or it was open and closes. -/
def Winds (before after : Option Ready) : Prop :=
  after = before ∨ before = some .open ∧ after = some .closing

theorem Winds.trans {a b c : Option Ready} (h : Winds a b) (h' : Winds b c) : Winds a c := by
  rcases h with rfl | ⟨rfl, rfl⟩
  · exact h'
  · rcases h' with rfl | ⟨h', -⟩
    · exact .inr ⟨rfl, rfl⟩
    · exact absurd h' (by decide)

theorem Winds.of_open {a b : Option Ready} (h : Winds a b) (hb : b = some .open) :
    a = some .open := by
  rcases h with rfl | ⟨-, rfl⟩
  · exact hb
  · exact absurd hb (by decide)

theorem Winds.closed_iff {a b : Option Ready} (h : Winds a b) :
    b = some .closed ↔ a = some .closed := by
  rcases h with rfl | ⟨rfl, rfl⟩
  · exact Iff.rfl
  · decide

theorem Winds.none_iff {a b : Option Ready} (h : Winds a b) : b = none ↔ a = none := by
  rcases h with rfl | ⟨rfl, rfl⟩
  · exact Iff.rfl
  · simp

theorem winds_closing (s : State β) (h : s.isOpen ws = true) (ws' : ℕ) :
    Winds (s.readyOf ws') ((s.setReady ws .closing).readyOf ws') := by
  rw [State.readyOf_setReady]
  split_ifs with hws
  · subst hws
    rw [State.isOpen_iff.mp h]
    exact .inr ⟨rfl, rfl⟩
  · exact .inl rfl

theorem winds_perform (s : State β) (action : Action β) (ws : ℕ) :
    Winds (s.readyOf ws) ((s.perform action).readyOf ws) := by
  cases action with
  | send _ _ =>
    simp only [State.perform]
    split <;> exact .inl rfl
  | close _ =>
    simp only [State.perform]
    split
    case isTrue h => exact winds_closing s h ws
    case isFalse => exact .inl rfl

theorem winds_performAll (s : State β) (actions : List (Action β)) (ws : ℕ) :
    Winds (s.readyOf ws) ((s.performAll actions).readyOf ws) := by
  induction actions generalizing s with
  | nil => exact .inl rfl
  | cons action actions ih => exact (winds_perform s action ws).trans (ih _)

section Core

variable {cfg : Config} {s t : State β} {i : Label β}

/-- A socket changes by a handler only so, its own end apart. -/
theorem winds_step (hstep : step cfg s i = some t) (hconnect : i ≠ .connect ws)
    (hclose : i ≠ .close ws) : Winds (s.readyOf ws) (t.readyOf ws) := by
  cases i with
  | connect ws' =>
    obtain ⟨-, rfl⟩ := step_connect hstep
    have hne : ws ≠ ws' := fun h => hconnect (h ▸ rfl)
    simp only [State.readyOf, Function.update_of_ne hne]
    exact .inl rfl
  | message ws' message newId =>
    obtain ⟨socket, -, -, -, -, rfl⟩ := step_message hstep
    rw [handled, State.readyOf_setPeer]
    exact winds_performAll _ _ ws
  | refused ws' error close =>
    obtain rfl := step_refused hstep
    exact winds_performAll _ _ ws
  | closing ws' =>
    have hopen : s.isOpen ws' = true := (Option.ite_none_right_eq_some.mp hstep).1
    obtain rfl := step_closing hstep
    exact winds_closing s hopen ws
  | close ws' =>
    obtain ⟨socket, -, -, rfl⟩ := step_close hstep
    have hne : ws ≠ ws' := fun h => hclose (h ▸ rfl)
    rw [gone, State.readyOf_setPeer]
    refine Winds.trans ?_ (winds_performAll _ _ ws)
    rw [State.readyOf_setReady, if_neg hne]
    exact .inl rfl

theorem close_step (hstep : step cfg s (.close ws) = some t) : t.readyOf ws = some .closed := by
  obtain ⟨socket, hsocket, -, rfl⟩ := step_close hstep
  rw [gone, State.readyOf_setPeer]
  -- whoever is told that the peer left sits on another socket, or this one stays closed
  refine (winds_performAll _ _ ws).closed_iff.mpr ?_
  rw [State.readyOf_setReady, if_pos rfl, State.readyOf, hsocket]
  rfl

/-- A socket that is closed has no peer. -/
def Rests (s : State β) : Prop := ∀ ws, s.readyOf ws = some .closed → s.peerOf ws = some none

theorem rests_init : Rests (init : State β) := fun _ h => absurd h (by simp [init, State.readyOf])

theorem rests_step (h : Rests s) (hstep : step cfg s i = some t) : Rests t := by
  intro ws hclosed
  by_cases hclose : i = .close ws
  · subst hclose
    obtain ⟨socket, hsocket, -, rfl⟩ := step_close hstep
    exact peerOf_gone_self hsocket _
  · by_cases hconnect : i = .connect ws
    · subst hconnect
      obtain ⟨-, rfl⟩ := step_connect hstep
      exact absurd hclosed (by simp [State.readyOf])
    · have hbefore := (winds_step hstep hconnect hclose).closed_iff.mp hclosed
      have hpeer := h ws hbefore
      cases i with
      | connect ws' =>
        obtain ⟨-, rfl⟩ := step_connect hstep
        have hne : ws ≠ ws' := fun h => hconnect (h ▸ rfl)
        simpa only [State.peerOf, Function.update_of_ne hne] using hpeer
      | message ws' message newId =>
        obtain ⟨socket, hsocket, hready, -, -, rfl⟩ := step_message hstep
        have hne : ws ≠ ws' := by
          rintro rfl
          rw [State.readyOf, hsocket] at hbefore
          exact hready (Option.some_inj.mp hbefore)
        rwa [peerOf_handled_of_ne hne]
      | refused ws' error close =>
        obtain rfl := step_refused hstep
        rwa [State.peerOf_performAll]
      | closing ws' =>
        obtain rfl := step_closing hstep
        rwa [State.peerOf_setReady]
      | close ws' =>
        obtain ⟨socket, -, -, rfl⟩ := step_close hstep
        have hne : ws ≠ ws' := fun h => hclose (h ▸ rfl)
        rwa [peerOf_gone_of_ne hne]

/-- Whoever is in a room has a socket that is not closed. -/
theorem registered_ready (hfiled : Filed s) (hrests : Rests s) {peer : Peer}
    (h : Registered s peer) :
    s.readyOf peer.ws = some .open ∨ s.readyOf peer.ws = some .closing := by
  have hpeer : s.peerOf peer.ws = some (some peer) := by
    rcases h with hmaster | hviewer
    · exact (hfiled.master _ _ hmaster).2.2
    · exact (hfiled.viewer _ _ _ hviewer).2.2.2
  obtain ⟨socket, hsocket, -⟩ := Option.map_eq_some_iff.mp hpeer
  have hready : s.readyOf peer.ws = some socket.ready := by rw [State.readyOf, hsocket]; rfl
  rw [hready]
  cases hr : socket.ready with
  | «open» => exact .inl rfl
  | closing => exact .inr rfl
  | closed =>
    have hnone := hrests peer.ws (hready.trans (congrArg some hr))
    exact absurd (hpeer.symm.trans hnone) (by simp)

end Core

/-! ### What a tick does -/

/-- Sockets that are closed one after the other are not open. -/
theorem readyOf_closes (s : State β) (l : List ℕ) (hws : ws ∈ l) :
    (s.performAll (l.map .close)).readyOf ws ≠ some .open := by
  induction l generalizing s with
  | nil => exact absurd hws (by simp)
  | cons first l ih =>
    rcases List.mem_cons.mp hws with rfl | hws
    · intro h
      -- the first action has closed it
      have hopen := (winds_performAll (s.perform (.close ws)) (l.map .close) ws).of_open h
      have hbefore := (winds_perform s (.close ws) ws).of_open hopen
      rw [State.perform, if_pos (State.isOpen_iff.mpr hbefore), State.readyOf_setReady,
        if_pos rfl, hbefore] at hopen
      exact absurd hopen (by decide)
    · exact ih _ hws

/-- To close sockets is a run of the server. -/
theorem run_closes (cfg : Config) (s : State β) (l : List ℕ) :
    ∃ is, run (step cfg) s is = some (s.performAll (l.map .close)) := by
  induction l generalizing s with
  | nil => exact ⟨[], rfl⟩
  | cons ws l ih =>
    obtain ⟨is, h⟩ := ih (s.perform (.close ws))
    by_cases hopen : s.isOpen ws = true
    · refine ⟨.closing ws :: is, ?_⟩
      have hfirst : step cfg s (.closing ws) = some (s.perform (.close ws)) := by
        simp only [step, State.perform, if_pos hopen]
      rw [run_cons, hfirst]
      exact h
    · refine ⟨is, ?_⟩
      have hsame : s.perform (.close ws) = s := by rw [State.perform, if_neg hopen]
      rw [hsame] at h
      rw [List.map_cons, State.performAll, List.foldl_cons, hsame]
      exact h

namespace Server

variable {cfg : Config} {s t : Server β}

/-- The sockets that have not answered the ping before. -/
def dead (s : Server β) (ws : ℕ) : Bool := decide (s.isAlive ws = some false)

/-- The heartbeat comes to each of the sockets. -/
theorem foldl_beat (s : Server β) {l : List ℕ} (hl : l.Nodup) :
    l.foldl beat s =
      { s with
        state := s.state.performAll ((l.filter s.dead).map .close)
        isAlive := fun ws => if ws ∈ l then some false else s.isAlive ws
        terminated := fun ws => s.terminated ws || (decide (ws ∈ l) && s.dead ws) } := by
  induction l generalizing s with
  | nil => simp [State.performAll]
  | cons first l ih =>
    obtain ⟨hfirst, hl⟩ := List.nodup_cons.mp hl
    rw [List.foldl_cons, ih _ hl]
    unfold beat
    split
    case isTrue hdead =>
      have hfilter : (first :: l).filter s.dead = first :: l.filter s.dead :=
        List.filter_cons_of_pos (decide_eq_true hdead)
      rw [hfilter]
      simp only [List.map_cons, State.performAll, List.foldl_cons, Server.mk.injEq, true_and,
        and_true]
      refine ⟨rfl, funext fun ws => ?_, funext fun ws => ?_⟩
      · by_cases hws : ws = first
        · subst hws
          simp [hdead]
        · simp [hws]
      · by_cases hws : ws = first
        · subst hws
          simp [dead, hdead]
        · simp [dead, hws]
    case isFalse hdead =>
      have hfilter : (first :: l).filter s.dead = l.filter s.dead :=
        List.filter_cons_of_neg (by simpa [dead] using hdead)
      -- the others have not changed
      have hsame : ∀ ws ∈ l, Function.update s.isAlive first (some false) ws = s.isAlive ws := by
        intro ws hws
        have hne : ws ≠ first := fun h => hfirst (h ▸ hws)
        exact Function.update_of_ne hne _ _
      have hdead' : ∀ ws ∈ l, dead { s with
          isAlive := Function.update s.isAlive first (some false) } ws = s.dead ws := by
        intro ws hws
        simp only [dead, hsame ws hws]
      rw [hfilter, List.filter_congr hdead']
      simp only [Server.mk.injEq, true_and, and_true]
      refine ⟨funext fun ws => ?_, funext fun ws => ?_⟩
      · by_cases hws : ws = first
        · subst hws
          simp
        · simp [hws]
      · by_cases hws : ws = first
        · subst hws
          simp [dead, hdead, hfirst]
        · by_cases hmem : ws ∈ l
          · rw [hdead' ws hmem]
            simp [hmem]
          · simp [hmem, hws]

/-! ### The invariant -/

/-- The server, after the steps of the past. -/
structure Inv (past : List (Server β × Event β)) (s : Server β) : Prop where
  nodup : s.clients.Nodup
  new : ∀ ws, s.next ≤ ws → s.state.sockets ws = none ∧ ws ∉ s.clients ∧
    s.isAlive ws = none ∧ s.terminated ws = false
  /-- a socket that is not closed is a client -/
  client : ∀ ws, s.state.readyOf ws = some .open ∨ s.state.readyOf ws = some .closing →
    ws ∈ s.clients
  alive : ∀ ws ∈ s.clients, s.isAlive ws = some false ↔ 1 ≤ silence past ws
  terminated : ∀ ws, s.terminated ws = true ↔ Silent past ws
  ended : ∀ ws, s.terminated ws = true → s.state.readyOf ws ≠ some .open
  stopped : s.running = false → ∀ ws, s.state.readyOf ws ≠ some .open

theorem inv_init : Inv [] (init : Server β) where
  nodup := .nil
  new := fun _ _ => ⟨rfl, by simp [init], rfl, rfl⟩
  client := by simp [init, Signaling.init, State.readyOf]
  alive := by simp [init]
  terminated := by
    intro ws
    refine iff_of_false (by simp [init]) ?_
    rintro ⟨before, hbefore, h⟩
    rw [List.prefix_nil.mp hbefore] at h
    exact absurd h (by simp [silence])
  ended := by simp [init]
  stopped := by simp [init]

/-- A step that is no tick and in which no socket connects. -/
theorem Inv.of_quiet (h : Inv past s) {i : Event β} (hnext : t.next = s.next)
    (hnodup : t.clients.Nodup) (hclients : ∀ ws ∈ t.clients, ws ∈ s.clients)
    (hclient : ∀ ws, t.state.readyOf ws = some .open ∨ t.state.readyOf ws = some .closing →
      ws ∈ t.clients)
    (hnone : ∀ ws, s.state.sockets ws = none → t.state.sockets ws = none)
    (hopen : ∀ ws, t.state.readyOf ws = some .open → s.state.readyOf ws = some .open)
    (halive : t.isAlive = s.isAlive) (hterminated : t.terminated = s.terminated)
    (hstopped : t.running = false → s.running = false ∨ ∀ ws, t.state.readyOf ws ≠ some .open)
    (hheard : ∀ ws, heard (s, i) ws = false) (hbeats : ∀ ws, beats (s, i) ws = false) :
    Inv (past ++ [(s, i)]) t where
  nodup := hnodup
  new := by
    intro ws hws
    obtain ⟨hsocket, hmem, hundefined, hfalse⟩ := h.new ws (hnext ▸ hws)
    exact ⟨hnone ws hsocket, fun hws => hmem (hclients ws hws), halive ▸ hundefined,
      hterminated ▸ hfalse⟩
  client := hclient
  alive := by
    intro ws hws
    rw [halive, silence_concat, hheard ws, hbeats ws]
    exact h.alive ws (hclients ws hws)
  terminated := by
    intro ws
    rw [hterminated, silent_of_not_beats (hbeats ws)]
    exact h.terminated ws
  ended := by
    intro ws hws hready
    rw [hterminated] at hws
    exact h.ended ws hws (hopen ws hready)
  stopped := by
    intro hrunning ws hready
    rcases hstopped hrunning with hbefore | hclosed
    · exact h.stopped hbefore ws (hopen ws hready)
    · exact hclosed ws hready

theorem Inv.heartbeat (h : Inv past s) : Inv (past ++ [(s, .heartbeat)]) s.heartbeat := by
  have hbeats : ∀ ws, beats (s, .heartbeat) ws = decide (ws ∈ s.clients) := fun _ => rfl
  have hwinds := fun ws => winds_performAll s.state ((s.clients.filter s.dead).map .close) ws
  have hsilence : ∀ ws ∈ s.clients,
      silence (past ++ [(s, .heartbeat)]) ws = silence past ws + 1 := by
    intro ws hws
    rw [silence_concat, hbeats, if_pos (decide_eq_true hws)]
    rfl
  rw [Server.heartbeat, foldl_beat s h.nodup]
  exact
    { nodup := h.nodup
      new := by
        intro ws hws
        obtain ⟨hsocket, hmem, hundefined, hfalse⟩ := h.new ws hws
        refine ⟨?_, hmem, (if_neg hmem).trans hundefined, by simp [hmem, hfalse]⟩
        have hready := (hwinds ws).none_iff.mpr (by rw [State.readyOf, hsocket]; rfl)
        exact Option.map_eq_none_iff.mp hready
      client := by
        intro ws hready
        refine h.client ws ?_
        rcases hwinds ws with hsame | ⟨hopen, -⟩
        · rwa [hsame] at hready
        · exact .inl hopen
      alive := by
        intro ws hws
        rw [hsilence ws hws]
        exact iff_of_true (if_pos hws) (Nat.le_add_left 1 _)
      terminated := by
        intro ws
        rw [Bool.or_eq_true, Bool.and_eq_true, decide_eq_true_iff, h.terminated ws]
        by_cases hws : ws ∈ s.clients
        · rw [silent_concat, hsilence ws hws, dead, decide_eq_true_iff, h.alive ws hws]
          refine or_congr_right ((and_iff_right hws).trans ?_)
          omega
        · rw [silent_of_not_beats ((hbeats ws).trans (decide_eq_false hws))]
          exact or_iff_left fun hmem => hws hmem.1
      ended := by
        intro ws hws hready
        rcases Bool.or_eq_true _ _ ▸ hws with hbefore | hnow
        · exact h.ended ws hbefore ((hwinds ws).of_open hready)
        · obtain ⟨hmem, hdead⟩ := Bool.and_eq_true _ _ ▸ hnow
          exact readyOf_closes s.state _
            (List.mem_filter.mpr ⟨of_decide_eq_true hmem, hdead⟩) hready
      stopped := fun hrunning ws hready => h.stopped hrunning ws ((hwinds ws).of_open hready) }

theorem Inv.connect (h : Inv past s) {authorized : Bool} (hrunning : s.running = true)
    (hnext : t.next = s.next + 1) (hclients : t.clients = s.clients ++ [s.next])
    (hsockets : ∀ ws, ws ≠ s.next → t.state.sockets ws = s.state.sockets ws)
    (halive : ∀ ws, ws ≠ s.next → t.isAlive ws = s.isAlive ws)
    (hnew : t.isAlive s.next ≠ some false) (hterminated : t.terminated = s.terminated)
    (hstill : t.running = s.running) : Inv (past ++ [(s, .connect authorized)]) t := by
  obtain ⟨-, hfresh, -, hfalse⟩ := h.new s.next le_rfl
  have hheard : ∀ ws, heard (s, .connect authorized) ws = decide (ws = s.next) := fun _ => rfl
  have hready : ∀ ws, ws ≠ s.next → t.state.readyOf ws = s.state.readyOf ws := fun ws hws => by
    rw [State.readyOf, hsockets ws hws, State.readyOf]
  exact
    { nodup := by
        rw [hclients]
        exact List.nodup_append.mpr ⟨h.nodup, List.nodup_singleton _, fun ws hws other hother => by
          rw [List.mem_singleton.mp hother]
          exact fun he => hfresh (he ▸ hws)⟩
      new := by
        intro ws hws
        rw [hnext] at hws
        have hne : ws ≠ s.next := by omega
        obtain ⟨hsocket, hmem, hundefined, hfalse⟩ := h.new ws (by omega)
        rw [hsockets ws hne, hclients, halive ws hne, hterminated]
        exact ⟨hsocket, by simp [hmem, hne], hundefined, hfalse⟩
      client := by
        intro ws hws
        rw [hclients, List.mem_append, List.mem_singleton]
        by_cases hne : ws = s.next
        · exact .inr hne
        · rw [hready ws hne] at hws
          exact .inl (h.client ws hws)
      alive := by
        intro ws hws
        rw [silence_concat, hheard]
        by_cases hne : ws = s.next
        · subst hne
          exact iff_of_false hnew (by simp)
        · rw [halive ws hne, if_neg (by simpa using hne)]
          refine h.alive ws ?_
          simpa [hclients, hne] using hws
      terminated := by
        intro ws
        rw [hterminated, silent_of_not_beats rfl]
        exact h.terminated ws
      ended := by
        intro ws hws
        rw [hterminated] at hws
        have hne : ws ≠ s.next := by
          rintro rfl
          exact absurd (hfalse.symm.trans hws) (by decide)
        rw [hready ws hne]
        exact h.ended ws hws
      stopped := fun hstopped => absurd (hstill.symm.trans hstopped) (by simp [hrunning]) }

theorem Inv.pong (h : Inv past s) (ws : ℕ) (hsocket : s.state.sockets ws ≠ none) :
    Inv (past ++ [(s, .pong ws)])
      { s with isAlive := Function.update s.isAlive ws (some true) } where
  nodup := h.nodup
  new := by
    intro other hother
    obtain ⟨hnone, hmem, hundefined, hfalse⟩ := h.new other hother
    have hne : other ≠ ws := by
      rintro rfl
      exact hsocket hnone
    exact ⟨hnone, hmem, (Function.update_of_ne hne _ _).trans hundefined, hfalse⟩
  client := h.client
  alive := by
    intro other hother
    have hheard : heard (s, .pong ws) other = decide (other = ws) := rfl
    rw [silence_concat, hheard]
    by_cases hne : other = ws
    · subst hne
      simp
    · simp only [Function.update_of_ne hne]
      rw [if_neg (by simpa using hne)]
      exact h.alive other hother
  terminated := by
    intro other
    rw [silent_of_not_beats rfl]
    exact h.terminated other
  ended := h.ended
  stopped := h.stopped

/-! ### Steps -/

/-- A handler of an authorised socket; one that is closed is no client any more. -/
theorem step_handle {i : Label β} (hstep : step cfg s (.handle i) = some t) :
    (∀ ws, i ≠ .connect ws) ∧ ∃ state, Signaling.step cfg s.state i = some state ∧
      ((∃ ws, i = .close ws ∧ t = { s with
          state := state, clients := s.clients.filter fun c => decide (c ≠ ws) }) ∨
        (∀ ws, i ≠ .close ws) ∧ t = { s with state := state }) := by
  cases i with
  | connect ws => exact absurd hstep (by simp [step])
  | close ws =>
    obtain ⟨state, hcore, rfl⟩ := Option.map_eq_some_iff.mp hstep
    exact ⟨nofun, state, hcore, .inl ⟨ws, rfl, rfl⟩⟩
  | message ws message newId =>
    obtain ⟨state, hcore, rfl⟩ := Option.map_eq_some_iff.mp hstep
    exact ⟨nofun, state, hcore, .inr ⟨nofun, rfl⟩⟩
  | refused ws error close =>
    obtain ⟨state, hcore, rfl⟩ := Option.map_eq_some_iff.mp hstep
    exact ⟨nofun, state, hcore, .inr ⟨nofun, rfl⟩⟩
  | closing ws =>
    obtain ⟨state, hcore, rfl⟩ := Option.map_eq_some_iff.mp hstep
    exact ⟨nofun, state, hcore, .inr ⟨nofun, rfl⟩⟩

/-- A socket connects. -/
theorem step_connect {authorized : Bool} (hstep : step cfg s (.connect authorized) = some t) :
    s.running = true ∧ ∃ state isAlive,
      t = { s with
        state := state, clients := s.clients ++ [s.next], isAlive := isAlive,
        next := s.next + 1 } ∧
      (authorized = true ∧ Signaling.step cfg s.state (.connect s.next) = some state ∧
          isAlive = Function.update s.isAlive s.next (some true) ∨
        authorized = false ∧ state = s.state ∧ isAlive = s.isAlive) := by
  simp only [step] at hstep
  split at hstep
  case isTrue => exact absurd hstep (by simp)
  case isFalse hrunning =>
    refine ⟨by simpa using hrunning, ?_⟩
    split at hstep
    case isTrue hauthorized =>
      obtain ⟨state, hcore, rfl⟩ := Option.map_eq_some_iff.mp hstep
      exact ⟨state, _, rfl, .inl ⟨hauthorized, hcore, rfl⟩⟩
    case isFalse hauthorized =>
      obtain rfl := Option.some_inj.mp hstep
      exact ⟨s.state, s.isAlive, rfl, .inr ⟨by simpa using hauthorized, rfl, rfl⟩⟩

theorem Inv.handle (h : Inv past s) {i : Label β} (hstep : step cfg s (.handle i) = some t) :
    Inv (past ++ [(s, .handle i)]) t := by
  obtain ⟨hconnect, state, hcore, ht⟩ := step_handle hstep
  have hwinds : ∀ ws, i ≠ .close ws → Winds (s.state.readyOf ws) (state.readyOf ws) :=
    fun ws hclose => winds_step hcore (hconnect ws) hclose
  have hopen : ∀ ws, state.readyOf ws = some .open → s.state.readyOf ws = some .open := by
    intro ws hready
    by_cases hclose : i = .close ws
    · subst hclose
      exact absurd (hready.symm.trans (close_step hcore)) (by decide)
    · exact (hwinds ws hclose).of_open hready
  have hnone : ∀ ws, s.state.sockets ws = none → state.sockets ws = none := by
    intro ws hsocket
    by_cases hclose : i = .close ws
    · subst hclose
      obtain ⟨socket, hsome, -⟩ := step_close hcore
      exact absurd (hsocket.symm.trans hsome) (by simp)
    · refine Option.map_eq_none_iff.mp ((hwinds ws hclose).none_iff.mpr ?_)
      exact Option.map_eq_none_iff.mpr hsocket
  have hclient : ∀ ws, state.readyOf ws = some .open ∨ state.readyOf ws = some .closing →
      ws ∈ s.clients ∧ i ≠ .close ws := by
    intro ws hready
    have hclose : i ≠ .close ws := by
      rintro rfl
      rw [close_step hcore] at hready
      exact absurd hready (by decide)
    refine ⟨h.client ws ?_, hclose⟩
    rcases hwinds ws hclose with hsame | ⟨hbefore, -⟩
    · rwa [hsame] at hready
    · exact .inl hbefore
  rcases ht with ⟨closed, rfl, rfl⟩ | ⟨-, rfl⟩
  · refine h.of_quiet rfl (h.nodup.filter _) (fun ws hws => List.mem_of_mem_filter hws) ?_ hnone
      hopen rfl rfl .inl (fun _ => rfl) fun _ => rfl
    intro ws hready
    obtain ⟨hmem, hclose⟩ := hclient ws hready
    exact List.mem_filter.mpr ⟨hmem, decide_eq_true fun he => hclose (he ▸ rfl)⟩
  · exact h.of_quiet rfl h.nodup (fun _ hws => hws) (fun ws hready => (hclient ws hready).1) hnone
      hopen rfl rfl .inl (fun _ => rfl) fun _ => rfl

theorem Inv.shutdown (h : Inv past s) : Inv (past ++ [(s, .shutdown)]) s.shutdown := by
  have hwinds := fun ws => winds_performAll s.state (s.clients.map .close) ws
  refine h.of_quiet rfl h.nodup (fun _ hws => hws) ?_ ?_ ?_ rfl rfl ?_ (fun _ => rfl) fun _ => rfl
  · intro ws hready
    refine h.client ws ?_
    rcases hwinds ws with hsame | ⟨hbefore, -⟩
    · exact hsame ▸ hready
    · exact .inl hbefore
  · intro ws hsocket
    refine Option.map_eq_none_iff.mp ((hwinds ws).none_iff.mpr ?_)
    exact Option.map_eq_none_iff.mpr hsocket
  · exact fun ws => (hwinds ws).of_open
  · -- every open socket is a client
    refine fun _ => .inr fun ws hready => ?_
    exact readyOf_closes s.state s.clients (h.client ws (.inl ((hwinds ws).of_open hready))) hready

theorem inv_step (past : List (Server β × Event β)) (s : Server β) (e : Event β) (t : Server β)
    (h : Inv past s) (hstep : step cfg s e = some t) : Inv (past ++ [(s, e)]) t := by
  cases e with
  | connect authorized =>
    obtain ⟨hrunning, state, isAlive, rfl, hcases⟩ := step_connect hstep
    have hundefined := (h.new s.next le_rfl).2.2.1
    rcases hcases with ⟨-, hcore, rfl⟩ | ⟨-, rfl, rfl⟩
    · obtain ⟨-, rfl⟩ := Signaling.step_connect hcore
      exact h.connect hrunning rfl rfl (fun ws hws => Function.update_of_ne hws _ _)
        (fun ws hws => Function.update_of_ne hws _ _) (by simp) rfl rfl
    · exact h.connect hrunning rfl rfl (fun _ _ => rfl) (fun _ _ => rfl) (by simp [hundefined])
        rfl rfl
  | handle i => exact h.handle hstep
  | gone ws =>
    obtain ⟨hnone, h'⟩ := Option.ite_none_right_eq_some.mp hstep
    obtain rfl := Option.some_inj.mp h'
    refine h.of_quiet rfl (h.nodup.filter _) (fun ws hws => List.mem_of_mem_filter hws) ?_
      (fun _ => id) (fun _ => id) rfl rfl .inl (fun _ => rfl) fun _ => rfl
    intro other hready
    refine List.mem_filter.mpr ⟨h.client other hready, decide_eq_true ?_⟩
    rintro rfl
    rw [State.readyOf, Option.isNone_iff_eq_none.mp hnone] at hready
    exact absurd hready (by simp)
  | pong ws =>
    obtain ⟨hsocket, h'⟩ := Option.ite_none_right_eq_some.mp hstep
    obtain rfl := Option.some_inj.mp h'
    refine h.pong ws fun hnone => ?_
    rw [hnone] at hsocket
    exact absurd hsocket (by simp)
  | heartbeat =>
    obtain ⟨-, h'⟩ := Option.ite_none_right_eq_some.mp hstep
    obtain rfl := Option.some_inj.mp h'
    exact h.heartbeat
  | shutdown =>
    obtain rfl := Option.some_inj.mp hstep
    exact h.shutdown

/-! ### The server without the heartbeat -/

/-- Each step is a run of the server without the heartbeat. -/
theorem refines_step {e : Event β} (h : Inv past s) (hstep : step cfg s e = some t) :
    ∃ is, run (Signaling.step cfg) s.state is = some t.state := by
  cases e with
  | connect authorized =>
    obtain ⟨-, state, isAlive, rfl, ⟨-, hcore, -⟩ | ⟨-, rfl, -⟩⟩ := step_connect hstep
    · exact ⟨[.connect s.next], by rw [run_cons, hcore]; rfl⟩
    · exact ⟨[], rfl⟩
  | handle i =>
    obtain ⟨-, state, hcore, ⟨ws, -, rfl⟩ | ⟨-, rfl⟩⟩ := step_handle hstep
    · exact ⟨[i], by rw [run_cons, hcore]; rfl⟩
    · exact ⟨[i], by rw [run_cons, hcore]; rfl⟩
  | gone ws =>
    obtain rfl := Option.some_inj.mp (Option.ite_none_right_eq_some.mp hstep).2
    exact ⟨[], rfl⟩
  | pong ws =>
    obtain rfl := Option.some_inj.mp (Option.ite_none_right_eq_some.mp hstep).2
    exact ⟨[], rfl⟩
  | heartbeat =>
    obtain rfl := Option.some_inj.mp (Option.ite_none_right_eq_some.mp hstep).2
    rw [Server.heartbeat, foldl_beat s h.nodup]
    exact run_closes cfg s.state _
  | shutdown =>
    obtain rfl := Option.some_inj.mp hstep
    exact run_closes cfg s.state _

/-- The invariant holds after every run, which is one of the server without the heartbeat. -/
theorem refines {events : List (Event β)} (hrun : run (step cfg) init events = some s) :
    Inv (trace (step cfg) init events) s ∧
      ∃ is, run (Signaling.step cfg) Signaling.init is = some s.state := by
  refine run_trace_invariant (P := fun past s => Inv past s ∧
    ∃ is, run (Signaling.step cfg) Signaling.init is = some s.state) ?_ ⟨inv_init, [], rfl⟩ hrun
  rintro past s e t ⟨h, is, his⟩ hstep
  obtain ⟨js, hjs⟩ := refines_step h hstep
  refine ⟨inv_step past s e t h hstep, is ++ js, ?_⟩
  rw [run_append, his]
  exact hjs

end Server

variable {cfg : Config} {events : List (Event β)} {s : Server β}

/-- **The heartbeat.**  After every run a socket was terminated exactly if the heartbeat came
to it twice and it was not heard of between.  Whoever is in a room has a socket that is a
client and not closed; if it is open the server runs, and the heartbeat came to the socket
at most once since it was heard of last. -/
theorem heartbeat_ends (hrun : run (Server.step cfg) Server.init events = some s) :
    (∀ ws, s.terminated ws = true ↔ Silent (trace (Server.step cfg) Server.init events) ws) ∧
      ∀ peer, Registered s.state peer → peer.ws ∈ s.clients ∧
        (s.state.readyOf peer.ws = some .closing ∨
          s.state.readyOf peer.ws = some .open ∧ s.running = true ∧
            silence (trace (Server.step cfg) Server.init events) peer.ws ≤ 1) := by
  obtain ⟨h, is, his⟩ := Server.refines hrun
  refine ⟨h.terminated, fun peer hpeer => ?_⟩
  have hfiled : Filed s.state := run_preserves (fun _ _ _ => filed_step) filed_init his
  have hrests : Rests s.state := run_preserves (fun _ _ _ => rests_step) rests_init his
  have hready := registered_ready hfiled hrests hpeer
  refine ⟨h.client _ hready, hready.symm.imp_right fun hopen => ⟨hopen, ?_, ?_⟩⟩
  · by_contra hstopped
    exact h.stopped (by simpa using hstopped) peer.ws hopen
  · -- a socket that was silent is not open
    by_contra hsilence
    exact h.ended peer.ws ((h.terminated _).mpr ⟨_, List.prefix_rfl, by omega⟩) hopen

/-- A device joins and answers a ping, and a socket without authorisation lingers. -/
def lingering : List (Event Unit) :=
  [.connect true, .handle (.message 0 (.join "r" .master "m") ""), .connect false, .heartbeat,
    .pong 0, .heartbeat]

theorem lingering_ends :
    ∃ s, run (Server.step defaultConfig) Server.init lingering = some s ∧
      Silent (trace (Server.step defaultConfig) Server.init lingering) 1 ∧ 0 ∈ s.clients ∧
      silence (trace (Server.step defaultConfig) Server.init lingering) 0 ≤ 1 := by
  obtain ⟨s, hs⟩ : ∃ s, run (Server.step defaultConfig) Server.init lingering = some s :=
    Option.isSome_iff_exists.mp (by decide +kernel)
  have hended : (run (Server.step defaultConfig) Server.init lingering).map (·.terminated 1) =
      some true := by decide +kernel
  have hmaster : (run (Server.step defaultConfig) Server.init lingering).map
      (fun s => (ensure s.state.rooms "r").master) = some (some ⟨"m", .master, "r", 0, 0⟩) := by
    decide +kernel
  have hopen : (run (Server.step defaultConfig) Server.init lingering).map
      (fun s => s.state.readyOf 0) = some (some .open) := by decide +kernel
  rw [hs, Option.map_some] at hended hmaster hopen
  obtain ⟨hterminated, hroom⟩ := heartbeat_ends hs
  obtain ⟨hclient, hclosing | ⟨-, -, hsilence⟩⟩ :=
    hroom ⟨"m", .master, "r", 0, 0⟩ (.inl (Option.some.inj hmaster))
  · exact absurd ((Option.some.inj hopen).symm.trans hclosing) (by decide)
  · exact ⟨s, hs, (hterminated 1).mp (Option.some.inj hended), hclient, hsilence⟩

end Signaling

end IpcMini
