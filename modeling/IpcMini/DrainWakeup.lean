/-
The drains that the publishers schedule (`protocol/webrtc/webrtc_media.cpp`,
`protocol/webrtc/webrtc_session.cpp`).

A publisher reads `running`, takes the mutex, files its item under the viewers
that are connected, and schedules a drain if nobody has.  The `drain` of the
media thread and the removal of the last viewer take the flag back, while the
publisher that raised it may still be on its way to `post_media`.

* `Threads` — the uplink and the publishers in front of the mutex;
* `uplinkMailbox` — the viewers' queues with `drain_scheduled` as their flag;
* `attended_step` — each step of a thread keeps an eye on what is queued;
* **`queued_awaits_drain`** — no queued item is without a drain.
-/
import Mathlib.Tactic.Common
import IpcMini.VideoQueue
import IpcMini.Wakeup

namespace IpcMini

open Interleaving

namespace WebRtcUplink

/-! ### Publishers -/

/-- What is passed to `enqueue_video`, `enqueue_audio`, `enqueue_detection`. -/
inductive Item
  | video (frame : MediaFrame)
  | audio (frame : MediaFrame)
  | detection (result : DetectionResult)
  deriving DecidableEq, Repr

namespace State

/-- The three `enqueue_*` functions, up to `schedule_drain`. -/
def enqueue (limit : ℕ) (s : State) : Item → State
  | .video frame => s.enqueueVideo limit frame
  | .audio frame => s.enqueueAudio frame
  | .detection result => s.enqueueDetection result

/-- The locked block of a publisher that has found the plugin running before
it took the mutex. -/
def enqueueLocked (limit : ℕ) (s : State) (item : Item) : State :=
  { State.enqueue limit { s with running := true } item with running := s.running }

end State

/-- The uplink with the publishers that wait for its mutex. -/
structure Threads where
  uplink : State
  /-- the items of the publishers that have read `running` -/
  entered : List Item
  deriving DecidableEq, Repr

/-- The thread that moves. -/
inductive Move
  /-- a publisher finds the plugin running -/
  | enter (item : Item)
  /-- a publisher gets the mutex -/
  | lock (n : ℕ)
  /-- another step, or a publisher that nobody comes before -/
  | uplink (i : Label)
  deriving DecidableEq, Repr

namespace Threads

def start : Threads where
  uplink := init
  entered := []

def step (limit : ℕ) (s : Threads) : Move → Option Threads
  | .enter item =>
    if s.uplink.running then some { s with entered := s.entered ++ [item] } else none
  | .lock n =>
    match s.entered[n]? with
    | some item =>
      some { s with
        uplink := s.uplink.enqueueLocked limit item
        entered := s.entered.eraseIdx n }
    | none => none
  | .uplink i => (WebRtcUplink.step limit s.uplink i).map fun uplink => { s with uplink := uplink }

/-- `post_media` succeeds: the plugin runs and the pool takes the task. -/
def Posts (s : Threads) : Move → Prop
  | .uplink (.scheduleDrain posted) => posted = true ∧ s.uplink.running = true
  | _ => True

instance (s : Threads) : ∀ i : Move, Decidable (Posts s i)
  | .uplink (.scheduleDrain posted) =>
    inferInstanceAs (Decidable (posted = true ∧ s.uplink.running = true))
  | .enter _ | .lock _ | .uplink (.enqueueVideo _) | .uplink (.enqueueAudio _)
  | .uplink (.enqueueDetection _) | .uplink .drain | .uplink .write | .uplink (.emplace _)
  | .uplink (.onConnected ..) | .uplink (.removeViewer _) | .uplink .stop => .isTrue trivial

end Threads

/-! ### The mailbox of the uplink -/

variable {limit : ℕ} {s t : State}

/-- The viewer has a video frame, an audio frame or a detection queued. -/
def ViewerSession.Waiting (v : ViewerSession) : Prop :=
  v.videoQueue ≠ [] ∨ v.audioQueue ≠ [] ∨ v.latestDetection ≠ none

instance (v : ViewerSession) : Decidable v.Waiting :=
  inferInstanceAs (Decidable (v.videoQueue ≠ [] ∨ v.audioQueue ≠ [] ∨ v.latestDetection ≠ none))

/-- The queues of the viewers, guarded by `drain_scheduled`. -/
def uplinkMailbox : Mailbox State where
  work s := ∃ v ∈ s.viewers, v.Waiting
  flag s := s.drainScheduled
  owed s := s.posting
  posted s := s.tasks

/-- Nothing is queued that no drain will find. -/
abbrev State.Attended (s : State) : Prop := uplinkMailbox.Attended s

theorem attended_init : init.Attended :=
  Mailbox.attended_of_taken (by simp [uplinkMailbox, init]) rfl

theorem not_waiting_drained (v : ViewerSession) : ¬ v.drained.Waiting := by
  simp [ViewerSession.Waiting, ViewerSession.drained]

/-- An inter frame that is refused leaves a viewer with less, and every other
frame for a connected viewer is queued. -/
theorem waiting_enqueueVideo {e : Published} {v : ViewerSession}
    (h : (v.enqueueVideo limit e).Waiting) : v.Waiting ∨ v.takes limit e.frame = true := by
  rw [ViewerSession.enqueueVideo] at h
  split at h
  · exact .inl h
  · rename_i hconnected
    split at h
    · split at h
      · -- the video queue was cleared
        exact .inl (.inr (by simpa [ViewerSession.Waiting, ViewerSession.clear] using h))
      · rename_i hkey
        exact .inr (by simp_all [ViewerSession.takes])
    · rename_i hroom
      exact .inr (by simp_all [ViewerSession.takes])

theorem waiting_enqueueAudio {frame : MediaFrame} {v : ViewerSession}
    (h : (v.enqueueAudio frame).Waiting) : v.Waiting ∨ v.connected = true := by
  cases hconnected : v.connected with
  | true => exact .inr rfl
  | false => exact .inl (by simpa [ViewerSession.enqueueAudio, hconnected] using h)

theorem waiting_enqueueDetection {result : DetectionResult} {v : ViewerSession}
    (h : (v.enqueueDetection result).Waiting) : v.Waiting ∨ v.connected = true := by
  cases hconnected : v.connected with
  | true => exact .inr rfl
  | false => exact .inl (by simpa [ViewerSession.enqueueDetection, hconnected] using h)

/-! ### Steps -/

theorem schedule_viewers (s : State) (queued : Bool) : (s.schedule queued).viewers = s.viewers := by
  rw [State.schedule]
  split <;> rfl

theorem schedule_tasks (s : State) (queued : Bool) : (s.schedule queued).tasks = s.tasks := by
  rw [State.schedule]
  split <;> rfl

theorem scheduleDrain_scheduled (s : State) (queued : Bool) :
    (s.schedule queued).drainScheduled = (s.drainScheduled || queued) := by
  cases queued <;> cases hflag : s.drainScheduled <;> simp [State.schedule, hflag]

theorem schedule_posting (s : State) (queued : Bool) :
    (s.schedule queued).posting = s.posting + (queued && !s.drainScheduled).toNat := by
  cases queued <;> cases hflag : s.drainScheduled <;> simp [State.schedule, hflag]

/-- A locked block that files something under the viewers and ends in
`schedule`: an item that is queued is reported to it. -/
theorem attended_schedule (h : s.Attended) {f : ViewerSession → ViewerSession}
    {queued : ViewerSession → Bool} (hviewers : t.viewers = s.viewers.map f)
    (hf : ∀ v, (f v).Waiting → v.Waiting ∨ queued v = true)
    (hflag : t.drainScheduled = s.drainScheduled) (hposting : t.posting = s.posting)
    (htasks : t.tasks = s.tasks) : (t.schedule (s.viewers.any queued)).Attended := by
  have hwork : (∃ v ∈ t.viewers, v.Waiting) →
      (∃ v ∈ s.viewers, v.Waiting) ∨ s.viewers.any queued = true := by
    rintro ⟨v, hv, hwaiting⟩
    rw [hviewers] at hv
    obtain ⟨u, hu, rfl⟩ := List.mem_map.mp hv
    rcases hf u hwaiting with hold | hqueued
    · exact .inl ⟨u, hu, hold⟩
    · exact .inr (List.any_eq_true.mpr ⟨u, hu, hqueued⟩)
  generalize s.viewers.any queued = filed at hwork ⊢
  refine Mailbox.attended_of_filed h (t := t.schedule filed) filed ?_ ?_ ?_ ?_
  · simpa only [uplinkMailbox, schedule_viewers] using hwork
  · show (t.schedule filed).drainScheduled = (s.drainScheduled || filed)
    rw [scheduleDrain_scheduled, hflag]
  · show (t.schedule filed).posting = s.posting + (filed && !s.drainScheduled).toNat
    rw [schedule_posting, hposting, hflag]
  · show (t.schedule filed).tasks = s.tasks
    rw [schedule_tasks, htasks]

theorem attended_enqueue (limit : ℕ) (h : s.Attended) (item : Item) :
    (s.enqueue limit item).Attended := by
  -- a publisher that finds the plugin stopped queues nothing
  cases item with
  | video frame =>
    rw [State.enqueue, State.enqueueVideo]
    dsimp only
    split
    · exact ⟨h.flag_of_work, h.task_of_flag⟩
    · exact attended_schedule h rfl (fun v => waiting_enqueueVideo) rfl rfl rfl
  | audio frame =>
    rw [State.enqueue, State.enqueueAudio]
    split
    · exact h
    · exact attended_schedule h rfl (fun v => waiting_enqueueAudio) rfl rfl rfl
  | detection result =>
    rw [State.enqueue, State.enqueueDetection]
    split
    · exact h
    · exact attended_schedule h rfl (fun v => waiting_enqueueDetection) rfl rfl rfl

theorem attended_enqueueLocked (h : s.Attended) (item : Item) :
    (s.enqueueLocked limit item).Attended := by
  have hrunning : State.Attended { s with running := true } := ⟨h.flag_of_work, h.task_of_flag⟩
  have hitem := attended_enqueue limit hrunning item
  exact ⟨hitem.flag_of_work, hitem.task_of_flag⟩

theorem attended_emplace (h : s.Attended) (viewerId : String) :
    (s.emplace viewerId).Attended := by
  refine Mailbox.attended_of_less h ?_ rfl (Nat.le_refl _)
  rintro ⟨v, hv, hwaiting⟩
  rw [State.emplace] at hv
  dsimp only at hv
  split at hv
  · exact ⟨v, hv, hwaiting⟩
  · rcases List.mem_append.mp hv with hv | hv
    · exact ⟨v, hv, hwaiting⟩
    · -- a new session has nothing queued
      rw [List.mem_singleton.mp hv] at hwaiting
      simp [ViewerSession.Waiting] at hwaiting

theorem attended_onConnected (h : s.Attended) (viewerId : String) (peer : ℕ) :
    (s.onConnected viewerId peer).Attended := by
  refine Mailbox.attended_of_less h ?_ rfl (Nat.le_refl _)
  rintro ⟨v, hv, hwaiting⟩
  obtain ⟨u, hu, rfl⟩ := List.mem_map.mp hv
  refine ⟨u, hu, ?_⟩
  split at hwaiting <;> exact hwaiting

/-- The last viewer that goes takes the flag with it, and all that was queued. -/
theorem attended_removeViewer (h : s.Attended) (viewerId : String) :
    (s.removeViewer viewerId).Attended := by
  rw [State.removeViewer]
  split
  · dsimp only
    cases hempty : (s.viewers.filter fun v => v.viewerId ≠ viewerId).isEmpty with
    | true =>
      refine Mailbox.attended_of_taken ?_ rfl
      rintro ⟨v, hv, -⟩
      rw [List.isEmpty_iff.mp hempty] at hv
      exact absurd hv (by simp)
    | false =>
      refine Mailbox.attended_of_less h ?_ rfl (Nat.le_refl _)
      rintro ⟨v, hv, hwaiting⟩
      exact ⟨v, List.mem_of_mem_filter hv, hwaiting⟩
  · exact h

theorem attended_uplink_step {i : Label} {entered : List Item} (h : s.Attended)
    (hposts : Threads.Posts ⟨s, entered⟩ (.uplink i)) (hstep : step limit s i = some t) :
    t.Attended := by
  cases i with
  | enqueueVideo frame => exact Option.some_inj.mp hstep ▸ attended_enqueue limit h (.video frame)
  | enqueueAudio frame =>
    exact Option.some_inj.mp hstep ▸ attended_enqueue limit h (.audio frame)
  | enqueueDetection result =>
    exact Option.some_inj.mp hstep ▸ attended_enqueue limit h (.detection result)
  | scheduleDrain posted =>
    obtain ⟨rfl, hrunning⟩ := hposts
    have hposted : (true && s.running) = true := hrunning
    simp only [step, hposted, if_true] at hstep
    split_ifs at hstep with hposting
    obtain rfl := Option.some_inj.mp hstep
    -- the task that was owed is posted
    refine Mailbox.attended_of_less h id rfl ?_
    simp only [uplinkMailbox]
    omega
  | drain =>
    simp only [step] at hstep
    split_ifs at hstep
    obtain rfl := Option.some_inj.mp hstep
    -- whatever is queued by now goes with this drain
    refine Mailbox.attended_of_taken ?_ rfl
    rintro ⟨v, hv, hwaiting⟩
    obtain ⟨u, -, rfl⟩ := List.mem_map.mp hv
    exact not_waiting_drained u hwaiting
  | write =>
    simp only [step] at hstep
    split at hstep
    · obtain rfl := Option.some_inj.mp hstep
      exact ⟨h.flag_of_work, h.task_of_flag⟩
    · exact absurd hstep (by simp)
  | emplace viewerId => exact Option.some_inj.mp hstep ▸ attended_emplace h viewerId
  | onConnected viewerId peer =>
    exact Option.some_inj.mp hstep ▸ attended_onConnected h viewerId peer
  | removeViewer viewerId => exact Option.some_inj.mp hstep ▸ attended_removeViewer h viewerId
  | stop =>
    obtain rfl := Option.some_inj.mp hstep
    exact ⟨h.flag_of_work, h.task_of_flag⟩

theorem attended_step {s t : Threads} {i : Move} (h : s.uplink.Attended)
    (hposts : Threads.Posts s i) (hstep : Threads.step limit s i = some t) :
    t.uplink.Attended := by
  cases i with
  | enter item =>
    simp only [Threads.step] at hstep
    split_ifs at hstep
    exact Option.some_inj.mp hstep ▸ h
  | lock n =>
    simp only [Threads.step] at hstep
    split at hstep
    · rename_i item _
      exact Option.some_inj.mp hstep ▸ attended_enqueueLocked h item
    · exact absurd hstep (by simp)
  | uplink i =>
    obtain ⟨uplink, huplink, rfl⟩ := Option.map_eq_some_iff.mp hstep
    exact attended_uplink_step h hposts huplink

/-- **What is queued awaits a drain.**  In every run in which `post_media`
takes the tasks that it is given, a viewer has a video frame, an audio frame or
a detection queued only while a drain is posted and has not taken the mutex,
or a publisher has raised `drain_scheduled` and is about to post one. -/
theorem queued_awaits_drain (limit : ℕ) {is : List Move} {s : Threads}
    (hposts : Along (Threads.step limit) Threads.Posts .start is)
    (hrun : run (Threads.step limit) .start is = some s) {v : ViewerSession}
    (hv : v ∈ s.uplink.viewers)
    (hqueued : v.videoQueue ≠ [] ∨ v.audioQueue ≠ [] ∨ v.latestDetection ≠ none) :
    0 < s.uplink.tasks ∨ 0 < s.uplink.posting := by
  have hattended := run_invariant (P := fun s : Threads => s.uplink.Attended)
    (fun _ _ _ => attended_step) attended_init hposts hrun
  exact hattended.task_of_work ⟨v, hv, hqueued⟩

/-- Two drains under way: a viewer goes while the first publisher is about to
post, and the next one is connected and has a detection by the time it does. -/
def crossedDrains : List Move :=
  [.uplink (.emplace "a"), .uplink (.onConnected "a" 0), .enter (.video (.video 0 .Key 0 2)),
    .enter (.detection ⟨0⟩), .lock 0, .uplink (.removeViewer "a"), .uplink (.emplace "b"),
    .uplink (.onConnected "b" 1), .lock 0, .uplink (.scheduleDrain true)]

theorem crossedDrains_await :
    ∃ s, run (Threads.step 3) .start crossedDrains = some s ∧
      s.uplink.posting = 1 ∧ s.uplink.tasks = 1 ∧
      (0 < s.uplink.tasks ∨ 0 < s.uplink.posting) := by
  have hposts : Along (Threads.step 3) Threads.Posts .start crossedDrains := by decide
  exact ⟨_, rfl, rfl, rfl, queued_awaits_drain 3 hposts rfl List.mem_cons_self
    (.inr (.inr (by decide)))⟩

end WebRtcUplink

end IpcMini
