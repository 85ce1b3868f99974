/-
One peer connection between the media thread, the reaper and the KVS callbacks
(`protocol/webrtc/webrtc_peer_connection.cpp`).

`drain` holds the peer by a shared pointer, so it may still write to it while
`remove_viewer` hands it to `queue_reap`, whose `deactivate` clears the
readiness flags, and while `stop` on the cleanup thread clears the pointers,
closes and frees the KVS peer connection.  A send is three steps: the check of
the readiness flag and the pointer, the start of the KVS call, and its end.
Callbacks count themselves in `callbacks_inflight_`; sends do not.

* `step` — one step of one thread;
* `Quiesced` — after `deactivate` no send starts, and `closePeerConnection` and
  `freePeerConnection` are not called while a send runs;
* **`quiesced_of_orderly`** — this holds in every state of a run in which
  `deactivate` finds no send behind its check, the pointers are cleared while
  no send runs, and no callback sets a flag in between (`Orderly`);
* `send_after_deactivate`, `close_during_send` — the schedules that break it.
-/
import Mathlib.Tactic.Common
import IpcMini.MediaFrame
import IpcMini.Run

namespace IpcMini

open Interleaving

namespace WebRtcPeerConnection

/-- What `drain` writes to a peer. -/
inductive Send
  | video (frame : MediaFrame)
  | audio (frame : MediaFrame)
  | detections
  deriving DecidableEq, Repr

/-- The place of the media thread in its batch. -/
inductive Media
  | idle
  /-- behind the readiness check, before the KVS call -/
  | checked (send : Send)
  /-- inside `writeFrame` or `dataChannelSend` on this peer connection -/
  | sending (send : Send)
  deriving DecidableEq, Repr

/-- A send has passed its check and has not started. -/
def Media.behindCheck : Media → Bool
  | .checked _ => true
  | _ => false

/-- A send runs. -/
def Media.inCall : Media → Bool
  | .sending _ => true
  | _ => false

/-- The KVS callbacks that touch the flags. -/
inductive Callback
  /-- connection state CONNECTED -/
  | connected
  /-- connection state CLOSED -/
  | closed
  /-- any other connection state -/
  | other
  /-- the viewer's data channel arrived -/
  | dataChannel
  /-- `dataChannelOnOpen` -/
  | dataChannelOpen
  deriving DecidableEq, Repr

/-- The place of the thread that removes the viewer and of the cleanup thread
that then runs `stop`. -/
inductive Reaper
  /-- the peer belongs to a viewer -/
  | listed
  /-- `remove_viewer` has erased the viewer -/
  | removed
  /-- `deactivate` has returned and the reap task is queued -/
  | deactivated
  /-- `stop` has called `deactivate` once more and waits for callbacks -/
  | waiting
  /-- the first wait is over -/
  | waited
  /-- `stop` has cleared the flags and the pointers -/
  | cleared
  /-- inside `closePeerConnection` -/
  | closing
  /-- `closePeerConnection` has returned; `stop` waits for callbacks again -/
  | closed
  /-- the second wait is over -/
  | drained
  /-- `freePeerConnection` is called -/
  | freed
  deriving DecidableEq, Repr

/-- `deactivate` has returned. -/
def Reaper.pastDeactivate : Reaper → Bool
  | .listed | .removed => false
  | _ => true

/-- `stop` has cleared the pointers. -/
def Reaper.pastClear : Reaper → Bool
  | .listed | .removed | .deactivated | .waiting | .waited => false
  | _ => true

/-- `closePeerConnection` has not returned, so KVS may deliver callbacks. -/
def Reaper.delivers : Reaper → Bool
  | .closed | .drained | .freed => false
  | _ => true

/-- The members of `WebRtcPeerConnection` (a pointer is kept as whether it is
set) and the places of the threads. -/
structure State where
  mediaReady : Bool
  dcOpen : Bool
  peerConnection : Bool
  videoTransceiver : Bool
  audioTransceiver : Bool
  dataChannel : Bool
  callbacksInflight : ℕ
  /-- callbacks that are counted and have not yet touched the flags -/
  entered : List Callback
  /-- callbacks that are counted and have touched the flags -/
  leaving : ℕ
  /-- what the current batch still has to send -/
  batch : List Send
  media : Media
  reaper : Reaper
  deriving DecidableEq, Repr

/-- A peer after `start`, in the table of viewers. -/
def init : State where
  mediaReady := false
  dcOpen := false
  peerConnection := true
  videoTransceiver := true
  audioTransceiver := true
  dataChannel := false
  callbacksInflight := 0
  entered := []
  leaving := 0
  batch := []
  media := .idle
  reaper := .listed

/-- The thread that moves. -/
inductive Label
  /-- `drain` takes a batch for the peer -/
  | drain (batch : List Send)
  /-- the readiness check of the next send -/
  | check
  /-- the KVS call starts -/
  | start
  /-- the KVS call returns -/
  | finish
  | removeViewer
  /-- `deactivate`, called by `queue_reap` -/
  | deactivate
  /-- `deactivate`, called by `stop` -/
  | stopDeactivate
  /-- `wait_for_callbacks` before the close -/
  | waitBefore
  /-- the locked block of `stop` that clears the pointers -/
  | clear
  | close
  | closeReturn
  /-- `wait_for_callbacks` after the close -/
  | waitAfter
  | free
  /-- KVS calls back: the guard counts the callback -/
  | callback (c : Callback)
  /-- the `n`-th counted callback touches the flags -/
  | callbackEffect (n : ℕ)
  /-- a guard is destroyed -/
  | callbackLeave
  deriving DecidableEq, Repr

/-- The checks of `write_video_frame`, `write_audio_frame` and
`send_detections` before the KVS call. -/
def ready (s : State) : Send → Bool
  | .video _ => s.mediaReady && s.videoTransceiver
  | .audio frame =>
    decide (frame.type = .Audio) && s.mediaReady && s.audioTransceiver &&
      decide (frame.codec = .G711U) && decide (frame.size ≠ 0)
  | .detections => s.dcOpen && s.dataChannel

/-- The pointer that the KVS call is given: the transceivers are read again
after the check, the data channel was copied under the lock. -/
def target (s : State) : Send → Bool
  | .video _ => s.videoTransceiver
  | .audio _ => s.audioTransceiver
  | .detections => true

/-- The effect of a callback between its guard's construction and destruction. -/
def Callback.effect (s : State) : Callback → State
  | .connected => { s with mediaReady := true }
  | .closed => { s with mediaReady := false }
  | .other => s
  | .dataChannel => { s with dataChannel := true, dcOpen := true }
  | .dataChannelOpen => if s.peerConnection then { s with dcOpen := true } else s

/-- One step of one thread. -/
def step (s : State) : Label → Option State
  | .drain batch =>
    if s.reaper = .listed ∧ s.media = .idle ∧ s.batch = [] then some { s with batch := batch }
    else none
  | .check =>
    match s.media, s.batch with
    | .idle, send :: rest =>
      if ready s send then some { s with media := .checked send, batch := rest }
      else some { s with batch := rest }
    | _, _ => none
  | .start =>
    match s.media with
    | .checked send =>
      -- `writeFrame` on a null transceiver returns an error and sends nothing
      some { s with media := if target s send then .sending send else .idle }
    | _ => none
  | .finish =>
    match s.media with
    | .sending _ => some { s with media := .idle }
    | _ => none
  | .removeViewer =>
    if s.reaper = .listed then some { s with reaper := .removed } else none
  | .deactivate =>
    if s.reaper = .removed then
      some { s with mediaReady := false, dcOpen := false, reaper := .deactivated }
    else none
  | .stopDeactivate =>
    if s.reaper = .deactivated then
      some { s with mediaReady := false, dcOpen := false, reaper := .waiting }
    else none
  | .waitBefore =>
    if s.reaper = .waiting ∧ s.callbacksInflight = 0 then some { s with reaper := .waited }
    else none
  | .clear =>
    if s.reaper = .waited then
      some { s with
        mediaReady := false
        dcOpen := false
        peerConnection := false
        videoTransceiver := false
        audioTransceiver := false
        dataChannel := false
        reaper := .cleared }
    else none
  | .close => if s.reaper = .cleared then some { s with reaper := .closing } else none
  | .closeReturn => if s.reaper = .closing then some { s with reaper := .closed } else none
  | .waitAfter =>
    if s.reaper = .closed ∧ s.callbacksInflight = 0 then some { s with reaper := .drained }
    else none
  | .free => if s.reaper = .drained then some { s with reaper := .freed } else none
  | .callback c =>
    if s.reaper.delivers then
      some { s with
        callbacksInflight := s.callbacksInflight + 1
        entered := s.entered ++ [c] }
    else none
  | .callbackEffect n =>
    match s.entered[n]? with
    | some c =>
      some (c.effect { s with entered := s.entered.eraseIdx n, leaving := s.leaving + 1 })
    | none => none
  | .callbackLeave =>
    if s.leaving = 0 then none
    else some { s with leaving := s.leaving - 1, callbacksInflight := s.callbacksInflight - 1 }

/-- No send starts after `deactivate`, and the peer connection is neither
closed nor freed while a send runs. -/
structure Quiesced (s : State) : Prop where
  no_start : s.reaper.pastDeactivate = true →
    ∀ t, step s .start = some t → t.media.inCall = false
  no_close : s.media.inCall = true → step s .close = none ∧ step s .free = none

/-- A callback that makes sends possible again. -/
def Callback.reenables (s : State) : Callback → Bool
  | .connected | .dataChannelOpen => !s.reaper.pastClear
  | .dataChannel => true
  | _ => false

/-- The order of the steps under which sends and teardown keep apart:
`deactivate` finds no send between its check and its start, the pointers are
cleared while no send runs, and no callback makes sends possible again after
`deactivate`. -/
def Orderly (s : State) : Label → Prop
  | .deactivate => s.media.behindCheck = false
  | .clear => s.media.inCall = false
  | .callbackEffect n =>
    s.reaper.pastDeactivate = true → (s.entered[n]?.all fun c => !c.reenables s) = true
  | _ => True

instance : ∀ (s : State) (i : Label), Decidable (Orderly s i)
  | s, .deactivate => inferInstanceAs (Decidable (s.media.behindCheck = false))
  | s, .clear => inferInstanceAs (Decidable (s.media.inCall = false))
  | s, .callbackEffect n => inferInstanceAs (Decidable
      (s.reaper.pastDeactivate = true → (s.entered[n]?.all fun c => !c.reenables s) = true))
  | _, .drain _ | _, .check | _, .start | _, .finish | _, .removeViewer | _, .stopDeactivate
  | _, .waitBefore | _, .close | _, .closeReturn | _, .waitAfter | _, .free | _, .callback _
  | _, .callbackLeave => .isTrue trivial

/-- The invariant of orderly runs. -/
structure Inv (s : State) : Prop where
  not_checked : s.reaper.pastDeactivate = true → s.media.behindCheck = false
  flags : s.reaper.pastDeactivate = true → s.reaper.pastClear = false →
    s.mediaReady = false ∧ s.dcOpen = false
  pointers : s.reaper.pastClear = true → s.peerConnection = false ∧
    s.videoTransceiver = false ∧ s.audioTransceiver = false ∧ s.dataChannel = false
  not_sending : s.reaper.pastClear = true → s.media.inCall = false

theorem inv_init : Inv init := by
  constructor <;> simp [init, Reaper.pastDeactivate, Reaper.pastClear]

theorem Reaper.pastDeactivate_of_pastClear {r : Reaper} (h : r.pastClear = true) :
    r.pastDeactivate = true := by
  cases r <;> simp_all [Reaper.pastClear, Reaper.pastDeactivate]

/-- After `deactivate` no readiness check succeeds. -/
theorem Inv.not_ready {s : State} (hs : Inv s) (hd : s.reaper.pastDeactivate = true)
    (send : Send) : ready s send = false := by
  by_cases hc : s.reaper.pastClear = true
  · obtain ⟨-, hv, ha, hdc⟩ := hs.pointers hc
    cases send <;> simp [ready, hv, ha, hdc]
  · obtain ⟨hm, ho⟩ := hs.flags hd (by simpa using hc)
    cases send <;> simp [ready, hm, ho]

theorem Inv.quiesced {s : State} (hs : Inv s) : Quiesced s := by
  constructor
  · intro hd t hstep
    have hm := hs.not_checked hd
    simp only [step] at hstep
    split at hstep
    · rename_i send heq
      simp [heq, Media.behindCheck] at hm
    · exact absurd hstep (by simp)
  · intro hm
    have hc : s.reaper.pastClear = false := by
      by_contra h
      exact absurd (hs.not_sending (by simpa using h)) (by simp [hm])
    constructor <;> simp only [step, ite_eq_right_iff, reduceCtorEq, imp_false] <;>
      intro hr <;> simp [hr, Reaper.pastClear] at hc

/-- A step that leaves the flags, the pointers and the reaper's place alone and
does not bring the media thread behind a check or into a send. -/
theorem Inv.of_same {s t : State} (hs : Inv s) (hr : t.reaper = s.reaper)
    (hm : t.mediaReady = s.mediaReady) (hd : t.dcOpen = s.dcOpen)
    (hp : t.peerConnection = s.peerConnection)
    (hv : t.videoTransceiver = s.videoTransceiver)
    (ha : t.audioTransceiver = s.audioTransceiver) (hc : t.dataChannel = s.dataChannel)
    (hmedia : t.media = s.media ∨ t.media = .idle) : Inv t := by
  constructor
  · intro h
    rw [hr] at h
    rcases hmedia with hmedia | hmedia <;> rw [hmedia]
    · exact hs.not_checked h
    · rfl
  · rw [hr, hm, hd]
    exact hs.flags
  · rw [hr, hp, hv, ha, hc]
    exact hs.pointers
  · intro h
    rw [hr] at h
    rcases hmedia with hmedia | hmedia <;> rw [hmedia]
    · exact hs.not_sending h
    · rfl

/-- The reaper moves on without touching the flags or the pointers, and does
not pass `deactivate` or the clearing of the pointers. -/
theorem Inv.of_reaper {s : State} (hs : Inv s) {r : Reaper}
    (hd : r.pastDeactivate = s.reaper.pastDeactivate)
    (hc : r.pastClear = s.reaper.pastClear) : Inv { s with reaper := r } := by
  constructor
  · rw [show ({ s with reaper := r } : State).reaper = r from rfl, hd]
    exact hs.not_checked
  · rw [show ({ s with reaper := r } : State).reaper = r from rfl, hd, hc]
    exact hs.flags
  · rw [show ({ s with reaper := r } : State).reaper = r from rfl, hc]
    exact hs.pointers
  · rw [show ({ s with reaper := r } : State).reaper = r from rfl, hc]
    exact hs.not_sending

/-- Before `deactivate` has returned the invariant says nothing. -/
theorem Inv.of_before {s : State} (h : s.reaper.pastDeactivate = false) : Inv s := by
  have hc : s.reaper.pastClear = false := by
    by_contra hc
    rw [Reaper.pastDeactivate_of_pastClear (by simpa using hc)] at h
    exact absurd h (by simp)
  exact ⟨by simp [h], by simp [h], by simp [hc], by simp [hc]⟩

/-- A guarded step. -/
theorem Inv.of_guard {c : Prop} [Decidable c] {t u : State}
    (h : (if c then some u else none) = some t) (hu : c → Inv u) : Inv t := by
  by_cases hc : c
  · rw [if_pos hc] at h
    exact Option.some_inj.mp h ▸ hu hc
  · rw [if_neg hc] at h
    exact absurd h (by simp)

theorem inv_callbackEffect {s : State} {n : ℕ} {c : Callback} (hs : Inv s)
    (hn : s.entered[n]? = some c) (hi : Orderly s (.callbackEffect n)) :
    Inv (c.effect { s with entered := s.entered.eraseIdx n, leaving := s.leaving + 1 }) := by
  have hre : s.reaper.pastDeactivate = true → c.reenables s = false := fun hd => by
    have := hi hd
    simpa [hn] using this
  cases c with
  | connected =>
    refine ⟨hs.not_checked, fun hd hc => ?_, hs.pointers, hs.not_sending⟩
    have := hre hd
    simp only [Callback.effect] at hc
    simp [Callback.reenables, hc] at this
  | closed =>
    exact ⟨hs.not_checked, fun hd hc => ⟨rfl, (hs.flags hd hc).2⟩, hs.pointers, hs.not_sending⟩
  | other => exact hs.of_same rfl rfl rfl rfl rfl rfl rfl (.inl rfl)
  | dataChannel =>
    refine Inv.of_before ?_
    by_contra h
    exact absurd (hre (by simpa [Callback.effect] using h)) (by simp [Callback.reenables])
  | dataChannelOpen =>
    simp only [Callback.effect]
    split
    · rename_i hp
      have hnc : s.reaper.pastClear = false := by
        by_contra h
        exact absurd hp (by simp [(hs.pointers (by simpa using h)).1])
      refine ⟨hs.not_checked, fun hd _ => ?_, hs.pointers, hs.not_sending⟩
      have := hre hd
      simp [Callback.reenables, hnc] at this
    · exact hs.of_same rfl rfl rfl rfl rfl rfl rfl (.inl rfl)

theorem inv_step {s t : State} {i : Label} (hs : Inv s) (hi : Orderly s i)
    (h : step s i = some t) : Inv t := by
  cases i with
  | drain batch => exact .of_guard h fun _ => hs.of_same rfl rfl rfl rfl rfl rfl rfl (.inl rfl)
  | check =>
    simp only [step] at h
    split at h
    · rename_i send rest hm hb
      split at h
      · rename_i hready
        obtain rfl := Option.some_inj.mp h
        -- the check succeeds only before `deactivate`
        refine Inv.of_before ?_
        by_contra hd
        rw [hs.not_ready (by simpa using hd) send] at hready
        exact absurd hready (by simp)
      · obtain rfl := Option.some_inj.mp h
        exact hs.of_same rfl rfl rfl rfl rfl rfl rfl (.inl rfl)
    · exact absurd h (by simp)
  | start =>
    simp only [step] at h
    split at h
    · rename_i send hm
      obtain rfl := Option.some_inj.mp h
      refine Inv.of_before ?_
      by_contra hd
      have := hs.not_checked (by simpa using hd)
      simp [hm, Media.behindCheck] at this
    · exact absurd h (by simp)
  | finish =>
    simp only [step] at h
    split at h
    · obtain rfl := Option.some_inj.mp h
      exact hs.of_same rfl rfl rfl rfl rfl rfl rfl (.inr rfl)
    · exact absurd h (by simp)
  | removeViewer =>
    exact .of_guard h fun hr => hs.of_reaper (by simp [hr, Reaper.pastDeactivate])
      (by simp [hr, Reaper.pastClear])
  | deactivate =>
    exact .of_guard h fun _ => ⟨fun _ => hi, fun _ _ => ⟨rfl, rfl⟩, by simp [Reaper.pastClear],
      by simp [Reaper.pastClear]⟩
  | stopDeactivate =>
    exact .of_guard h fun hr => ⟨fun _ => hs.not_checked (by simp [hr, Reaper.pastDeactivate]),
      fun _ _ => ⟨rfl, rfl⟩, by simp [Reaper.pastClear], by simp [Reaper.pastClear]⟩
  | waitBefore =>
    exact .of_guard h fun hr => hs.of_reaper (by simp [hr, Reaper.pastDeactivate])
      (by simp [hr, Reaper.pastClear])
  | clear =>
    exact .of_guard h fun hr => ⟨fun _ => hs.not_checked (by simp [hr, Reaper.pastDeactivate]),
      by simp [Reaper.pastClear], fun _ => ⟨rfl, rfl, rfl, rfl⟩, fun _ => hi⟩
  | close | closeReturn | waitAfter | free =>
    exact .of_guard h fun hr => hs.of_reaper (by simp [hr, Reaper.pastDeactivate])
      (by simp [hr, Reaper.pastClear])
  | callback c => exact .of_guard h fun _ => hs.of_same rfl rfl rfl rfl rfl rfl rfl (.inl rfl)
  | callbackEffect n =>
    simp only [step] at h
    split at h
    · rename_i c hn
      obtain rfl := Option.some_inj.mp h
      exact inv_callbackEffect hs hn hi
    · exact absurd h (by simp)
  | callbackLeave =>
    simp only [step] at h
    split at h
    · exact absurd h (by simp)
    · obtain rfl := Option.some_inj.mp h
      exact hs.of_same rfl rfl rfl rfl rfl rfl rfl (.inl rfl)

/-- **Orderly runs keep sends and teardown apart**: when `deactivate` finds no
send behind its check, the pointers are cleared while no send runs and no
callback makes sends possible again after `deactivate`, then in every state
reached no send starts after `deactivate`, and the peer connection is neither
closed nor freed while a send runs. -/
theorem quiesced_of_orderly {is : List Label} {s : State} (hC : Along step Orderly init is)
    (h : run step init is = some s) : Quiesced s :=
  (run_invariant (fun _ _ _ => inv_step) inv_init hC h).quiesced

/-- A session that is set up, sends one frame and is torn down in order. -/
def orderlySession : List Label :=
  [.callback .connected, .callbackEffect 0, .callbackLeave,
    .drain [.video (MediaFrame.video 0 .Key 0 1)], .check, .start, .finish,
    .removeViewer, .deactivate, .stopDeactivate, .waitBefore, .clear,
    .callback .closed, .close, .callbackEffect 0, .callbackLeave, .closeReturn,
    .waitAfter, .free]

theorem orderlySession_quiesced :
    ∃ s, run step init orderlySession = some s ∧ s.reaper = .freed ∧ Quiesced s := by
  have horderly : Along step Orderly init orderlySession := by decide
  exact ⟨_, rfl, rfl, quiesced_of_orderly horderly rfl⟩

/-- The frame is checked, `remove_viewer` and `deactivate` run, and the send
starts all the same. -/
theorem send_after_deactivate :
    ¬ ∀ (is : List Label) (s : State), run step init is = some s → Quiesced s := by
  intro h
  have hq := h [.callback .connected, .callbackEffect 0, .callbackLeave,
    .drain [.video (MediaFrame.video 0 .Key 0 1)], .check, .removeViewer, .deactivate] _ rfl
  exact absurd (hq.no_start rfl _ rfl) (by decide)

/-- A send that started before `deactivate` still runs when `stop` closes the
peer connection: only callbacks are waited for. -/
theorem close_during_send :
    ∃ (is : List Label) (s : State), run step init is = some s ∧
      s.media.inCall = true ∧ step s .close ≠ none :=
  ⟨[.callback .connected, .callbackEffect 0, .callbackLeave,
    .drain [.video (MediaFrame.video 0 .Key 0 1)], .check, .start, .removeViewer, .deactivate,
    .stopDeactivate, .waitBefore, .clear], _, rfl, rfl, by decide⟩

end WebRtcPeerConnection

end IpcMini
