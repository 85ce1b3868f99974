/-
The reconnects of the signaling client (`protocol/webrtc/signaling_client.cpp`,
`protocol/webrtc/ws_client.cpp`).

A connection fails when it cannot be started, when the handshake cannot be sent
or is refused, when the server closes it, when TCP reports an error, and when the
join cannot be sent.  Each failure ends in `schedule_reconnect`, which starts a
timer unless one is pending, and waits longer after each failure in a row.

* `step` — what the poller calls: the callbacks of the TCP client and the timer;
* `handleTcpData_cases` — a piece of the stream leaves the connection open, or
  brings at least one failure;
* `Attended` — a connection is live or the timer is pending, and not both;
* **`one_live_or_pending`** — in every state of a run, and the delays are those of
  the failures in a row, counted modulo 2^32;
* `wrapped_delay` — after 2^32 failures in a row the delay starts over.
-/
import Mathlib.Algebra.Group.Nat.Defs
import IpcMini.HandshakeSplits
import IpcMini.Run

namespace IpcMini

open Interleaving

namespace SignalingClient

/-! ### The client -/

structure State where
  ws : WsClient.Client
  /-- the TCP client of `ws` has reported an error -/
  errorReported : Bool
  /-- the delay of the timer that is pending -/
  reconnectTimer : Option ℕ
  reconnectAttempt : UInt32
  /-- the failures since a handshake was completed -/
  failures : ℕ
  /-- the delays that were scheduled, each with the number of failures in a row
  that came before -/
  delays : List (ℕ × ℕ)
  deriving DecidableEq, Repr

/-- What `WsClient::connect` comes to. -/
inductive Connect
  /-- the URL is not accepted, or the poller takes no task -/
  | rejected
  /-- the TCP client cannot be created or started -/
  | failed
  | connecting
  deriving DecidableEq, Repr

namespace State

/-- The delay in `schedule_reconnect`. -/
def delayMs (reconnectAttempt : UInt32) : ℕ :=
  min 30000 (1000 <<< min reconnectAttempt.toNat 5)

/-- `schedule_reconnect`. -/
def scheduleReconnect (s : State) : State :=
  let k := s.failures
  let delay := delayMs s.reconnectAttempt
  let s := { s with reconnectAttempt := s.reconnectAttempt + 1, failures := s.failures + 1 }
  if s.reconnectTimer.isNone then
    { s with reconnectTimer := some delay, delays := s.delays ++ [(k, delay)] }
  else s

/-- `on_ws_state`; `join` is the result of `send_join`, after a failure of which
the connection is closed. -/
def onWsState (join : Bool) (s : State) (connected : Bool) : State :=
  if connected then
    let s := { s with reconnectAttempt := 0, failures := 0 }
    if !join then s.scheduleReconnect else s
  else s.scheduleReconnect

/-- `ws_.connect` and what its caller does with the answer. -/
def connect (s : State) : Connect → State
  | .rejected => s.scheduleReconnect
  | .failed => { s with ws := .closed, errorReported := false }.scheduleReconnect
  | .connecting => { s with ws := .connecting, errorReported := false }

/-- What the websocket client tells its handlers. -/
def onEvent (join : Bool) (s : State) : WsClient.Event → State
  | .state connected => s.onWsState join connected
  | .message _ | .pong _ => s

end State

/-- A client on which `start` is about to be called. -/
def init : State where
  ws := .closed
  errorReported := false
  reconnectTimer := none
  reconnectAttempt := 0
  failures := 0
  delays := []

/-- `start`. -/
def start (c : Connect) : State := init.connect c

/-! ### Steps -/

/-- What the poller calls. -/
inductive Label
  /-- `on_tcp_connect`; the handshake is sent or not -/
  | tcpConnect (sent : Bool)
  /-- `on_tcp_recv` -/
  | tcpRecv (data : List UInt8) (join : Bool)
  /-- `on_tcp_error`, once for a connection -/
  | tcpError
  /-- `reconnect_timer_cb` -/
  | timer (c : Connect)
  deriving DecidableEq, Repr

def step (s : State) : Label → Option State
  | .tcpConnect sent =>
    if !s.ws.client then none
    else if sent then some s
    else some ({ s with ws := .closed }.onWsState true false)
  | .tcpRecv data join =>
    if !s.ws.client || data.isEmpty then none
    else
      let (ws, events) := WsClient.handleTcpData join data s.ws
      some (events.foldl (State.onEvent join) { s with ws := ws })
  | .tcpError =>
    if !s.ws.client || s.errorReported then none
    else some ({ s with ws := .connecting, errorReported := true }.onWsState true false)
  | .timer c =>
    if s.reconnectTimer.isNone then none
    else some ({ s with reconnectTimer := none }.connect c)

/-! ### A piece of the stream -/

/-- The events have a failure: the connection is lost, or the join after the
handshake is not sent. -/
def Fails (join : Bool) (events : List WsClient.Event) : Prop :=
  .state false ∈ events ∨ (.state true ∈ events ∧ join = false)

/-- A loop over the frames ends with the connection closed, or has told no state. -/
theorem drain_cases (buffer : List UInt8) :
    ((WsClient.frames.drain buffer).2 = none ∧ .state false ∈ (WsClient.frames.drain buffer).1) ∨
    ((WsClient.frames.drain buffer).2 ≠ none ∧
      ∀ connected, .state connected ∉ (WsClient.frames.drain buffer).1) := by
  induction hn : buffer.length using Nat.strongRecOn generalizing buffer with
  | _ n ih =>
    cases hnext : WsClient.frames.next buffer with
    | none =>
      rw [Deframer.drain_of_none _ hnext]
      exact .inr ⟨by simp, fun _ => List.not_mem_nil⟩
    | some r =>
      -- a frame that does not close the connection tells no state
      have hrest : ∀ events rest, r = (events, some rest) →
          (∀ connected, .state connected ∉ events) →
          ((WsClient.frames.drain buffer).2 = none ∧
            .state false ∈ (WsClient.frames.drain buffer).1) ∨
          ((WsClient.frames.drain buffer).2 ≠ none ∧
            ∀ connected, .state connected ∉ (WsClient.frames.drain buffer).1) := by
        rintro events rest rfl hevents
        have hlt : rest.length < n := hn ▸ WsClient.frames.progress _ _ _ hnext
        rw [Deframer.drain_of_frame _ hnext]
        rcases ih _ hlt rest rfl with ⟨hclosed, hmem⟩ | ⟨hopen, hnone⟩
        · exact .inl ⟨hclosed, List.mem_append_right _ hmem⟩
        · refine .inr ⟨hopen, fun connected hmem => ?_⟩
          rcases List.mem_append.mp hmem with hmem | hmem
          · exact hevents connected hmem
          · exact hnone connected hmem
      rcases WsClient.nextFrame_cases hnext with rfl | ⟨rest, rfl⟩ | ⟨e, rest, decoded, he, rfl⟩
      · rw [Deframer.drain_of_end _ hnext]
        exact .inl ⟨rfl, List.mem_singleton.mpr rfl⟩
      · exact hrest _ _ rfl fun _ => List.not_mem_nil
      · refine hrest _ _ rfl fun connected hmem => ?_
        rcases he with rfl | rfl
        · exact absurd (List.mem_singleton.mp hmem) (by simp)
        · exact absurd (List.mem_singleton.mp hmem) (by simp)

theorem consumeFrames_cases (c : WsClient.Client) :
    ((WsClient.consumeFrames c).1.client = false ∧
      .state false ∈ (WsClient.consumeFrames c).2) ∨
    ((WsClient.consumeFrames c).1.client = c.client ∧
      ∀ connected, .state connected ∉ (WsClient.consumeFrames c).2) := by
  have hcases := drain_cases c.frameBuffer
  rw [WsClient.consumeFrames]
  generalize WsClient.frames.drain c.frameBuffer = d at hcases ⊢
  obtain ⟨events, _ | rest⟩ := d
  · rcases hcases with ⟨-, hmem⟩ | ⟨hopen, -⟩
    · exact .inl ⟨rfl, hmem⟩
    · exact absurd rfl hopen
  · rcases hcases with ⟨hclosed, -⟩ | ⟨-, hnone⟩
    · exact absurd hclosed (by simp)
    · exact .inr ⟨rfl, hnone⟩

/-- **A piece of the stream** closes the connection and has a failure, or leaves
it open and has none. -/
theorem handleTcpData_cases (join : Bool) (data : List UInt8) (c : WsClient.Client) :
    ((WsClient.handleTcpData join data c).1.client = false ∧
      Fails join (WsClient.handleTcpData join data c).2) ∨
    ((WsClient.handleTcpData join data c).1.client = c.client ∧
      ¬ Fails join (WsClient.handleTcpData join data c).2) := by
  -- frames that tell no state fail nothing
  have hquiet : ∀ events : List WsClient.Event,
      (∀ connected, WsClient.Event.state connected ∉ events) → ¬ Fails join events := by
    rintro events hnone (hmem | ⟨hmem, -⟩)
    · exact hnone false hmem
    · exact hnone true hmem
  rw [WsClient.handleTcpData]
  split
  · rcases consumeFrames_cases { c with frameBuffer := c.frameBuffer ++ data } with
      ⟨hclosed, hmem⟩ | ⟨hopen, hnone⟩
    · exact .inl ⟨hclosed, .inl hmem⟩
    · exact .inr ⟨hopen, hquiet _ hnone⟩
  dsimp only
  split
  · exact .inl ⟨rfl, .inl (List.mem_singleton.mpr rfl)⟩
  split
  · exact .inr ⟨rfl, hquiet _ fun _ => List.not_mem_nil⟩
  next before behind _ =>
  split
  · exact .inl ⟨rfl, .inl (List.mem_singleton.mpr rfl)⟩
  split
  -- the response came, but the join did not go out
  next hjoin => exact .inl ⟨rfl, .inr ⟨List.mem_singleton.mpr rfl, by simpa using hjoin⟩⟩
  next hjoin =>
    have hjoin : join = true := by simpa using hjoin
    rcases consumeFrames_cases ⟨c.client, true, true, [], c.frameBuffer ++ behind⟩ with
      ⟨hclosed, hmem⟩ | ⟨hopen, hnone⟩
    · exact .inl ⟨hclosed, .inl (List.mem_cons_of_mem _ hmem)⟩
    · refine .inr ⟨hopen, ?_⟩
      rintro (hmem | ⟨-, hfalse⟩)
      · rcases List.mem_cons.mp hmem with heq | hmem
        · exact absurd heq (by simp)
        · exact hnone false hmem
      · exact absurd (hjoin.symm.trans hfalse) (by simp)

/-! ### Failures -/

variable {s t : State}

/-- A connection is being made or open, and no error was reported on it. -/
def State.Live (s : State) : Prop := s.ws.client = true ∧ s.errorReported = false

/-- The delay after `k` failures in a row. -/
def backoff (k : ℕ) : ℕ := min 30000 (1000 * 2 ^ min (k % 2 ^ 32) 5)

/-- The failures are counted, and every delay that was scheduled is that of its
failure; the last one is that of the timer. -/
structure Counted (s : State) : Prop where
  attempt : s.reconnectAttempt.toNat = s.failures % 2 ^ 32
  delays : ∀ e ∈ s.delays, e.2 = backoff e.1
  timer : ∀ delay ∈ s.reconnectTimer, (s.delays.getLast?.map Prod.snd) = some delay

theorem delayMs_eq (h : s.reconnectAttempt.toNat = s.failures % 2 ^ 32) :
    State.delayMs s.reconnectAttempt = backoff s.failures := by
  rw [State.delayMs, backoff, h, Nat.shiftLeft_eq]

theorem attempt_succ (h : s.reconnectAttempt.toNat = s.failures % 2 ^ 32) :
    (s.reconnectAttempt + 1).toNat = (s.failures + 1) % 2 ^ 32 := by
  rw [UInt32.toNat_add, h]
  show (s.failures % 2 ^ 32 + 1) % 2 ^ 32 = _
  rw [Nat.mod_add_mod]

theorem Counted.scheduleReconnect (h : Counted s) : Counted s.scheduleReconnect := by
  rw [State.scheduleReconnect]
  dsimp only
  split
  · refine ⟨attempt_succ h.attempt, fun e he => ?_, fun delay hdelay => ?_⟩
    · rcases List.mem_append.mp he with he | he
      · exact h.delays e he
      · rw [List.mem_singleton.mp he]
        exact delayMs_eq h.attempt
    · obtain rfl := Option.some_inj.mp hdelay
      show ((s.delays ++ [_]).getLast?.map Prod.snd) = _
      rw [List.getLast?_concat]
      rfl
  · exact ⟨attempt_succ h.attempt, h.delays, h.timer⟩

theorem scheduleReconnect_frame (s : State) :
    s.scheduleReconnect.ws = s.ws ∧ s.scheduleReconnect.errorReported = s.errorReported ∧
      s.scheduleReconnect.reconnectTimer ≠ none := by
  rw [State.scheduleReconnect]
  dsimp only
  split
  next hnone => exact ⟨rfl, rfl, by simp⟩
  next hsome => exact ⟨rfl, rfl, by simpa using hsome⟩

/-- A completed handshake starts the count over. -/
theorem Counted.completed (h : Counted s) :
    Counted { s with reconnectAttempt := 0, failures := 0 } := ⟨rfl, h.delays, h.timer⟩

theorem Counted.onEvent (h : Counted s) (join : Bool) (e : WsClient.Event) :
    Counted (s.onEvent join e) := by
  cases e with
  | state connected =>
    rw [State.onEvent, State.onWsState]
    split
    · dsimp only
      split
      · exact h.completed.scheduleReconnect
      · exact h.completed
    · exact h.scheduleReconnect
  | message _ => exact h
  | pong _ => exact h

/-- What an event leaves alone, and when the timer is pending after it. -/
theorem onEvent_frame (join : Bool) (s : State) (e : WsClient.Event) :
    (s.onEvent join e).ws = s.ws ∧ (s.onEvent join e).errorReported = s.errorReported ∧
      (Fails join [e] → (s.onEvent join e).reconnectTimer ≠ none) ∧
      (¬ Fails join [e] → (s.onEvent join e).reconnectTimer = s.reconnectTimer) := by
  cases e with
  | state connected =>
    rw [State.onEvent, State.onWsState]
    cases connected with
    | true =>
      cases join with
      | true =>
        refine ⟨rfl, rfl, fun hfails => ?_, fun _ => rfl⟩
        exact absurd hfails (by simp [Fails])
      | false =>
        have hframe := scheduleReconnect_frame { s with reconnectAttempt := 0, failures := 0 }
        exact ⟨hframe.1, hframe.2.1, fun _ => hframe.2.2, fun hquiet =>
          absurd (.inr ⟨List.mem_singleton.mpr rfl, rfl⟩) hquiet⟩
    | false =>
      have hframe := scheduleReconnect_frame s
      exact ⟨hframe.1, hframe.2.1, fun _ => hframe.2.2, fun hquiet =>
        absurd (.inl (List.mem_singleton.mpr rfl)) hquiet⟩
  | message _ => exact ⟨rfl, rfl, fun hfails => absurd hfails (by simp [Fails]), fun _ => rfl⟩
  | pong _ => exact ⟨rfl, rfl, fun hfails => absurd hfails (by simp [Fails]), fun _ => rfl⟩

theorem fails_cons {join : Bool} {e : WsClient.Event} {events : List WsClient.Event} :
    Fails join (e :: events) ↔ Fails join [e] ∨ Fails join events := by
  simp only [Fails, List.mem_cons, List.not_mem_nil, or_false]
  tauto

/-- The timer is pending after events with a failure, and once it is pending. -/
theorem on_events_frame (join : Bool) (events : List WsClient.Event) (s : State) :
    (events.foldl (State.onEvent join) s).ws = s.ws ∧
      (events.foldl (State.onEvent join) s).errorReported = s.errorReported ∧
      (Fails join events ∨ s.reconnectTimer ≠ none →
        (events.foldl (State.onEvent join) s).reconnectTimer ≠ none) ∧
      (¬ Fails join events →
        (events.foldl (State.onEvent join) s).reconnectTimer = s.reconnectTimer) := by
  induction events generalizing s with
  | nil =>
    refine ⟨rfl, rfl, fun h => h.resolve_left ?_, fun _ => rfl⟩
    simp [Fails]
  | cons e events ih =>
    obtain ⟨hws, herror, hfails, hquiet⟩ := onEvent_frame join s e
    obtain ⟨hws', herror', hfails', hquiet'⟩ := ih (s.onEvent join e)
    refine ⟨hws'.trans hws, herror'.trans herror, fun h => ?_, fun h => ?_⟩
    · refine hfails' ?_
      by_cases hone : Fails join [e]
      · exact .inr (hfails hone)
      · rw [hquiet hone]
        exact h.imp_left fun hall => (fails_cons.mp hall).resolve_left hone
    · rw [fails_cons, not_or] at h
      exact (hquiet' h.2).trans (hquiet h.1)

theorem Counted.on_events (join : Bool) {events : List WsClient.Event} :
    ∀ {s : State}, Counted s → Counted (events.foldl (State.onEvent join) s) := by
  induction events with
  | nil => exact fun h => h
  | cons e events ih => exact fun h => ih (h.onEvent join e)

/-! ### Runs -/

/-- A connection is live and no timer is pending, or the other way round. -/
def Attended (s : State) : Prop :=
  (s.Live ∧ s.reconnectTimer = none) ∨ (¬ s.Live ∧ s.reconnectTimer ≠ none)

theorem attended_of_failure (h : ¬ s.Live) : Attended s.scheduleReconnect := by
  obtain ⟨hws, herror, htimer⟩ := scheduleReconnect_frame s
  refine .inr ⟨fun hlive => h ⟨hws ▸ hlive.1, herror ▸ hlive.2⟩, htimer⟩

/-- A connection is started while there is none and no timer is pending. -/
theorem attended_connect (hlive : ¬ s.Live) (htimer : s.reconnectTimer = none) (c : Connect) :
    Attended (s.connect c) := by
  cases c with
  | rejected => exact attended_of_failure hlive
  | failed => exact attended_of_failure fun h => absurd h.1 (by simp [WsClient.Client.closed])
  | connecting => exact .inl ⟨⟨rfl, rfl⟩, htimer⟩

theorem Counted.connect (h : Counted s) (c : Connect) : Counted (s.connect c) := by
  cases c with
  | rejected => exact h.scheduleReconnect
  | failed =>
    have hclosed : Counted { s with ws := .closed, errorReported := false } :=
      ⟨h.attempt, h.delays, h.timer⟩
    exact hclosed.scheduleReconnect
  | connecting => exact ⟨h.attempt, h.delays, h.timer⟩

theorem attended_step {i : Label} (h : Attended s) (hstep : step s i = some t) : Attended t := by
  cases i with
  | tcpConnect sent =>
    simp only [step] at hstep
    split_ifs at hstep
    · exact Option.some_inj.mp hstep ▸ h
    · obtain rfl := Option.some_inj.mp hstep
      exact attended_of_failure fun hlive => absurd hlive.1 (by simp [WsClient.Client.closed])
  | tcpRecv data join =>
    simp only [step] at hstep
    split_ifs at hstep
    obtain rfl := Option.some_inj.mp hstep
    obtain ⟨hws, herror, hfails, hquiet⟩ := on_events_frame join
      (WsClient.handleTcpData join data s.ws).2
      { s with ws := (WsClient.handleTcpData join data s.ws).1 }
    rcases handleTcpData_cases join data s.ws with ⟨hclosed, hfailed⟩ | ⟨hopen, hnone⟩
    · refine .inr ⟨fun hlive => ?_, hfails (.inl hfailed)⟩
      have hclient := hlive.1
      rw [hws, hclosed] at hclient
      exact absurd hclient (by simp)
    · -- neither the connection nor the timer is touched
      have hlive : State.Live ((WsClient.handleTcpData join data s.ws).2.foldl
          (State.onEvent join) { s with ws := (WsClient.handleTcpData join data s.ws).1 }) ↔
          s.Live := by
        rw [State.Live, hws, herror, hopen, State.Live]
      rw [Attended, hlive, hquiet hnone]
      exact h
  | tcpError =>
    simp only [step] at hstep
    split_ifs at hstep
    obtain rfl := Option.some_inj.mp hstep
    exact attended_of_failure fun hlive => absurd hlive.2 (by simp)
  | timer c =>
    simp only [step] at hstep
    split_ifs at hstep with hnone
    obtain rfl := Option.some_inj.mp hstep
    have hdown : ¬ s.Live := by
      rcases h with ⟨-, htimer⟩ | ⟨hdown, -⟩
      · exact absurd htimer (by simpa using hnone)
      · exact hdown
    exact attended_connect (s := { s with reconnectTimer := none }) hdown rfl c

theorem counted_step {i : Label} (h : Counted s) (hstep : step s i = some t) : Counted t := by
  cases i with
  | tcpConnect sent =>
    simp only [step] at hstep
    split_ifs at hstep
    · exact Option.some_inj.mp hstep ▸ h
    · obtain rfl := Option.some_inj.mp hstep
      have hclosed : Counted { s with ws := .closed } := ⟨h.attempt, h.delays, h.timer⟩
      exact hclosed.scheduleReconnect
  | tcpRecv data join =>
    simp only [step] at hstep
    split_ifs at hstep
    obtain rfl := Option.some_inj.mp hstep
    exact Counted.on_events join ⟨h.attempt, h.delays, h.timer⟩
  | tcpError =>
    simp only [step] at hstep
    split_ifs at hstep
    obtain rfl := Option.some_inj.mp hstep
    have herror : Counted { s with ws := .connecting, errorReported := true } :=
      ⟨h.attempt, h.delays, h.timer⟩
    exact herror.scheduleReconnect
  | timer c =>
    simp only [step] at hstep
    split_ifs at hstep
    obtain rfl := Option.some_inj.mp hstep
    have hfired : Counted { s with reconnectTimer := none } :=
      ⟨h.attempt, h.delays, fun _ hdelay => absurd hdelay (by simp)⟩
    exact hfired.connect c

theorem counted_start (c : Connect) : Counted (start c) := by
  have hinit : Counted init :=
    ⟨rfl, fun _ he => absurd he List.not_mem_nil, fun _ hdelay => absurd hdelay (by simp [init])⟩
  exact hinit.connect c

/-- **A connection is live or the timer is pending**, and not both, after every
event; the delay that was scheduled for a failure is that of the failures in a row
before it, counted modulo 2^32, and the last one is that of the timer. -/
theorem one_live_or_pending (c : Connect) {is : List Label} {s : State}
    (hrun : run step (start c) is = some s) : Attended s ∧ Counted s :=
  ⟨run_preserves (fun _ _ _ => attended_step)
      (attended_connect (fun hlive => absurd hlive.1 (by simp [init, WsClient.Client.closed])) rfl c)
      hrun,
    run_preserves (fun _ _ _ => counted_step) (counted_start c) hrun⟩

/-- The handshake is refused, the server is down, TCP reports an error, and the
join after the next handshake is not sent. -/
def unsteadyConnection : List Label :=
  [.tcpConnect true, .tcpRecv [13, 10, 13, 10] true, .timer .failed, .timer .connecting,
    .tcpError, .timer .connecting, .tcpRecv [32, 49, 48, 49, 32, 13, 10, 13, 10] false]

theorem unsteadyConnection_attended :
    ∃ s, run step (start .connecting) unsteadyConnection = some s ∧
      s.delays = [(0, 1000), (1, 2000), (2, 4000), (0, 1000)] ∧ Attended s ∧ Counted s := by
  have hrun : run step (start .connecting) unsteadyConnection = some _ := rfl
  exact ⟨_, hrun, rfl, one_live_or_pending .connecting hrun⟩

/-! ### The counter -/

/-- The timer finds the server down, again and again. -/
theorem run_failures (n : ℕ) :
    ∃ s, run step (start .failed) (List.replicate n (.timer .failed)) = some s ∧
      s.failures = n + 1 ∧ s.reconnectTimer ≠ none ∧ (n, backoff n) ∈ s.delays := by
  induction n with
  | zero => exact ⟨_, rfl, rfl, by decide, by decide⟩
  | succ n ih =>
    obtain ⟨s, hrun, hfailures, htimer, -⟩ := ih
    have hcounted : Counted s :=
      run_preserves (fun _ _ _ => counted_step) (counted_start .failed) hrun
    have hnone : ¬ s.reconnectTimer.isNone = true := by simpa using htimer
    refine ⟨State.connect { s with reconnectTimer := none } .failed, ?_, ?_, ?_, ?_⟩
    · rw [List.replicate_succ', run_concat hrun]
      exact if_neg hnone
    · show s.failures + 1 = n + 2
      rw [hfailures]
    · exact (scheduleReconnect_frame _).2.2
    · refine List.mem_append_right _ (List.mem_singleton.mpr ?_)
      rw [← hfailures, ← delayMs_eq hcounted.attempt]

/-- **The counter wraps**: after 2^32 failures in a row the client waits one
second, not thirty. -/
theorem wrapped_delay :
    ¬ ∀ (c : Connect) (is : List Label) (s : State), run step (start c) is = some s →
      Attended s ∧ ∀ e ∈ s.delays, e.2 = min 30000 (1000 * 2 ^ min e.1 5) := by
  intro h
  obtain ⟨s, hrun, -, -, hmem⟩ := run_failures 4294967296
  exact absurd ((h .failed _ s hrun).2 _ hmem) (by decide)

end SignalingClient

end IpcMini
