/-
The limits of the viewers' queues (`protocol/webrtc/webrtc_media.cpp`).

The byte counters of a session are kept beside its queues.  A frame that has no
room empties the queue first; a keyframe or an audio frame is queued after that
whatever its size.  The test for room subtracts the size of the frame from the
limit, in its last operand.

* `Balanced` — the counters, and the limits of both queues of a session;
* `enqueueChecked` — the publishers, with a subtraction that fails where it
  would wrap;
* `balanced_enqueueVideo`, `balanced_enqueueAudio` — one session;
* **`queues_balanced`** — every session is balanced, and no subtraction wraps.
-/
import Mathlib.Algebra.GroupWithZero.Nat
import Mathlib.Algebra.Order.Group.Nat
import IpcMini.DrainWakeup

namespace IpcMini

open Interleaving

namespace WebRtcUplink

variable {limit : ℕ} {s t : State} {v : ViewerSession}

/-! ### Checked subtractions -/

/-- `a - b` on `std::size_t`, where it does not wrap. -/
def subChecked (a b : ℕ) : Option ℕ := if b ≤ a then some (a - b) else none

/-- The test for room of both loops, operand by operand. -/
def fullChecked (limit frames size queued bytes : ℕ) : Option Bool :=
  if limit < size then some true
  else if frames ≤ queued then some true
  else (subChecked limit size).map fun room => decide (room < bytes)

namespace ViewerSession

def enqueueVideoChecked (limit : ℕ) (e : Published) (v : ViewerSession) :
    Option ViewerSession :=
  if !v.connected then some v
  else
    (fullChecked limit kVideoQueueFrames e.frame.size v.videoQueue.length v.videoBytes).map
      fun full =>
        if full then (if !e.frame.keyframe then v.clear else v.clear.push e) else v.push e

def enqueueAudioChecked (frame : MediaFrame) (v : ViewerSession) : Option ViewerSession :=
  if !v.connected then some v
  else
    (fullChecked kAudioQueueBytes kAudioQueueFrames frame.size v.audioQueue.length
      v.audioBytes).map fun full =>
        let v := if full then { v with audioQueue := [], audioBytes := 0 } else v
        { v with
          audioBytes := v.audioBytes + frame.size
          audioQueue := v.audioQueue ++ [frame] }

end ViewerSession

namespace State

/-- `enqueue`, with the checked loop over the viewers. -/
def enqueueChecked (limit : ℕ) (s : State) (item : Item) : Option State :=
  if !s.running then some (s.enqueue limit item)
  else
    match item with
    | .video frame =>
      (s.viewers.mapM (ViewerSession.enqueueVideoChecked limit ⟨s.published.length, frame⟩)).map
        fun viewers => { s.enqueue limit (.video frame) with viewers := viewers }
    | .audio frame =>
      if frame.codec ≠ .G711U then some (s.enqueue limit (.audio frame))
      else
        (s.viewers.mapM (ViewerSession.enqueueAudioChecked frame)).map
          fun viewers => { s.enqueue limit (.audio frame) with viewers := viewers }
    | .detection result => some (s.enqueue limit (.detection result))

end State

/-- The subtraction is reached only with a frame that is within the limit. -/
theorem fullChecked_eq (limit frames size queued bytes : ℕ) :
    fullChecked limit frames size queued bytes =
      some (decide (limit < size) || decide (frames ≤ queued) ||
        decide (limit - size < bytes)) := by
  rw [fullChecked]
  split
  next hsize => simp [hsize]
  next hsize =>
  split
  next hqueued => simp [hqueued]
  next hqueued =>
    have hle : size ≤ limit := not_lt.mp hsize
    simp [subChecked, hle, hsize, hqueued]

theorem enqueueVideoChecked_eq (limit : ℕ) (e : Published) (v : ViewerSession) :
    v.enqueueVideoChecked limit e = some (v.enqueueVideo limit e) := by
  rw [ViewerSession.enqueueVideoChecked, ViewerSession.enqueueVideo, fullChecked_eq]
  split
  · rfl
  · rfl

theorem enqueueAudioChecked_eq (frame : MediaFrame) (v : ViewerSession) :
    v.enqueueAudioChecked frame = some (v.enqueueAudio frame) := by
  rw [ViewerSession.enqueueAudioChecked, ViewerSession.enqueueAudio, fullChecked_eq]
  split
  · rfl
  · simp [or_assoc]

/-- **No subtraction wraps**, in whatever state a publisher finds the viewers. -/
theorem enqueueChecked_eq (limit : ℕ) (s : State) (item : Item) :
    s.enqueueChecked limit item = some (s.enqueue limit item) := by
  unfold State.enqueueChecked
  split
  · rfl
  next hrunning =>
  have hrunning : s.running = true := by simpa using hrunning
  cases item with
  | video frame =>
    -- what one viewer computes without a wrap, all of them do
    have hloop : s.viewers.mapM
        (ViewerSession.enqueueVideoChecked limit ⟨s.published.length, frame⟩) =
          some (s.viewers.map (ViewerSession.enqueueVideo limit ⟨s.published.length, frame⟩)) := by
      rw [funext (enqueueVideoChecked_eq limit ⟨s.published.length, frame⟩)]
      exact List.mapM_pure
    have hviewers : (s.enqueue limit (.video frame)).viewers =
        s.viewers.map (ViewerSession.enqueueVideo limit ⟨s.published.length, frame⟩) := by
      simp [State.enqueue, State.enqueueVideo, hrunning, schedule_viewers]
    simp only [hloop, Option.map_some, ← hviewers]
  | audio frame =>
    dsimp only
    split
    · rfl
    next hcodec =>
    have hloop : s.viewers.mapM (ViewerSession.enqueueAudioChecked frame) =
        some (s.viewers.map (ViewerSession.enqueueAudio frame)) := by
      rw [funext (enqueueAudioChecked_eq frame)]
      exact List.mapM_pure
    have hviewers : (s.enqueue limit (.audio frame)).viewers =
        s.viewers.map (ViewerSession.enqueueAudio frame) := by
      simp [State.enqueue, State.enqueueAudio, hrunning, hcodec, schedule_viewers]
    simp only [hloop, Option.map_some, ← hviewers]
  | detection result => rfl

/-! ### One session -/

/-- The byte counters are those of the queued frames, and both queues are within
their limits, but for a single frame that alone is larger. -/
structure Balanced (limit : ℕ) (v : ViewerSession) : Prop where
  videoBytes : v.videoBytes = (v.videoQueue.map fun e => e.frame.size).sum
  audioBytes : v.audioBytes = (v.audioQueue.map MediaFrame.size).sum
  video_frames : v.videoQueue.length ≤ kVideoQueueFrames
  audio_frames : v.audioQueue.length ≤ kAudioQueueFrames
  video_within : v.videoBytes ≤ limit ∨ v.videoQueue.length = 1
  audio_within : v.audioBytes ≤ kAudioQueueBytes ∨ v.audioQueue.length = 1

/-- A session with nothing queued. -/
theorem balanced_of_empty (hvideo : v.videoQueue = []) (haudio : v.audioQueue = [])
    (hvideo_bytes : v.videoBytes = 0) (haudio_bytes : v.audioBytes = 0) :
    Balanced limit v := by
  constructor <;> simp [hvideo, haudio, hvideo_bytes, haudio_bytes]

theorem Balanced.clear (h : Balanced limit v) : Balanced limit v.clear :=
  ⟨rfl, h.audioBytes, Nat.zero_le _, h.audio_frames, .inl (Nat.zero_le _), h.audio_within⟩

/-- A frame that has room in the video queue. -/
theorem Balanced.push (h : Balanced limit v) {e : Published}
    (hroom : v.refuses limit e.frame = false) : Balanced limit (v.push e) := by
  simp only [ViewerSession.refuses, Bool.or_eq_false_iff, decide_eq_false_iff_not, not_lt,
    not_le] at hroom
  obtain ⟨⟨hsize, hframes⟩, hbytes⟩ := hroom
  refine ⟨?_, h.audioBytes, ?_, h.audio_frames, .inl ?_, h.audio_within⟩
  · simp [ViewerSession.push, h.videoBytes]
  · simpa [ViewerSession.push, Nat.succ_le_iff] using hframes
  · show v.videoBytes + e.frame.size ≤ limit
    omega

/-- A keyframe that is queued in place of what waits. -/
theorem Balanced.replace (h : Balanced limit v) (e : Published) :
    Balanced limit (v.clear.push e) := by
  refine ⟨?_, h.audioBytes, ?_, h.audio_frames, .inr rfl, h.audio_within⟩
  · simp [ViewerSession.push, ViewerSession.clear]
  · simp [ViewerSession.push, ViewerSession.clear, kVideoQueueFrames]

theorem balanced_enqueueVideo (h : Balanced limit v) (e : Published) :
    Balanced limit (v.enqueueVideo limit e) := by
  rw [ViewerSession.enqueueVideo]
  split
  · exact h
  split
  · split
    · exact h.clear
    · exact h.replace e
  next hroom => exact h.push (by simpa using hroom)

theorem balanced_enqueueAudio (h : Balanced limit v) (frame : MediaFrame) :
    Balanced limit (v.enqueueAudio frame) := by
  rw [ViewerSession.enqueueAudio]
  split
  · exact h
  dsimp only
  split
  · -- the frame is alone in the queue
    exact ⟨h.videoBytes, by simp, h.video_frames, by simp [kAudioQueueFrames], h.video_within,
      .inr rfl⟩
  next hroom =>
    simp only [not_or, not_lt, not_le] at hroom
    obtain ⟨hsize, hframes, hbytes⟩ := hroom
    refine ⟨h.videoBytes, ?_, h.video_frames, ?_, h.video_within, .inl ?_⟩
    · simp [h.audioBytes]
    · simpa [Nat.succ_le_iff] using hframes
    · show v.audioBytes + frame.size ≤ kAudioQueueBytes
      omega

theorem balanced_enqueueDetection (h : Balanced limit v) (result : DetectionResult) :
    Balanced limit (v.enqueueDetection result) := by
  rw [ViewerSession.enqueueDetection]
  split
  · exact ⟨h.videoBytes, h.audioBytes, h.video_frames, h.audio_frames, h.video_within,
      h.audio_within⟩
  · exact h

/-! ### Runs -/

/-- All sessions are balanced. -/
def AllBalanced (limit : ℕ) (s : State) : Prop := ∀ v ∈ s.viewers, Balanced limit v

/-- Something is done to each session. -/
theorem AllBalanced.of_map (h : AllBalanced limit s) {f : ViewerSession → ViewerSession}
    (ht : t.viewers = s.viewers.map f) (hf : ∀ v, Balanced limit v → Balanced limit (f v)) :
    AllBalanced limit t := by
  intro v hv
  rw [ht] at hv
  obtain ⟨u, hu, rfl⟩ := List.mem_map.mp hv
  exact hf u (h u hu)

/-- Sessions go, and those that stay are left alone. -/
theorem AllBalanced.of_subset (h : AllBalanced limit s) (ht : t.viewers ⊆ s.viewers) :
    AllBalanced limit t := fun v hv => h v (ht hv)

theorem allBalanced_enqueue (h : AllBalanced limit s) (item : Item) :
    AllBalanced limit (s.enqueue limit item) := by
  cases item with
  | video frame =>
    rw [State.enqueue, State.enqueueVideo]
    dsimp only
    split
    · exact h
    · exact h.of_map (schedule_viewers _ _) fun v hv => balanced_enqueueVideo hv _
  | audio frame =>
    rw [State.enqueue, State.enqueueAudio]
    split
    · exact h
    · exact h.of_map (schedule_viewers _ _) fun v hv => balanced_enqueueAudio hv frame
  | detection result =>
    rw [State.enqueue, State.enqueueDetection]
    split
    · exact h
    · exact h.of_map (schedule_viewers _ _) fun v hv => balanced_enqueueDetection hv result

theorem allBalanced_emplace (h : AllBalanced limit s) (viewerId : String) :
    AllBalanced limit (s.emplace viewerId) := by
  intro v hv
  rw [State.emplace] at hv
  dsimp only at hv
  split at hv
  · exact h v hv
  · rcases List.mem_append.mp hv with hv | hv
    · exact h v hv
    · rw [List.mem_singleton.mp hv]
      exact balanced_of_empty rfl rfl rfl rfl

theorem allBalanced_uplink_step {i : Label} (h : AllBalanced limit s)
    (hstep : step limit s i = some t) : AllBalanced limit t := by
  cases i with
  | enqueueVideo frame => exact Option.some_inj.mp hstep ▸ allBalanced_enqueue h (.video frame)
  | enqueueAudio frame => exact Option.some_inj.mp hstep ▸ allBalanced_enqueue h (.audio frame)
  | enqueueDetection result =>
    exact Option.some_inj.mp hstep ▸ allBalanced_enqueue h (.detection result)
  | scheduleDrain posted =>
    simp only [step] at hstep
    split_ifs at hstep <;>
    · obtain rfl := Option.some_inj.mp hstep
      exact h
  | drain =>
    simp only [step] at hstep
    split_ifs at hstep
    obtain rfl := Option.some_inj.mp hstep
    -- a drain takes everything, and the counts are zero
    exact h.of_map rfl fun v _ => balanced_of_empty rfl rfl rfl rfl
  | write =>
    simp only [step] at hstep
    split at hstep
    · obtain rfl := Option.some_inj.mp hstep
      exact h
    · exact absurd hstep (by simp)
  | emplace viewerId => exact Option.some_inj.mp hstep ▸ allBalanced_emplace h viewerId
  | onConnected viewerId peer =>
    obtain rfl := Option.some_inj.mp hstep
    refine h.of_map rfl fun v hv => ?_
    split
    · exact ⟨hv.videoBytes, hv.audioBytes, hv.video_frames, hv.audio_frames, hv.video_within,
        hv.audio_within⟩
    · exact hv
  | removeViewer viewerId =>
    obtain rfl := Option.some_inj.mp hstep
    rw [State.removeViewer]
    split
    · exact h.of_subset (List.filter_subset_self _)
    · exact h
  | stop =>
    obtain rfl := Option.some_inj.mp hstep
    exact h

theorem allBalanced_step {s t : Threads} {i : Move} (h : AllBalanced limit s.uplink)
    (hstep : Threads.step limit s i = some t) : AllBalanced limit t.uplink := by
  cases i with
  | enter item =>
    simp only [Threads.step] at hstep
    split_ifs at hstep
    exact Option.some_inj.mp hstep ▸ h
  | lock n =>
    simp only [Threads.step] at hstep
    split at hstep
    · rename_i item _
      obtain rfl := Option.some_inj.mp hstep
      -- the publisher has read `running` before it took the mutex
      exact allBalanced_enqueue (s := { s.uplink with running := true }) h item
    · exact absurd hstep (by simp)
  | uplink i =>
    obtain ⟨uplink, huplink, rfl⟩ := Option.map_eq_some_iff.mp hstep
    exact allBalanced_uplink_step h huplink

/-- **The queues of every viewer are balanced.**  In every run, whatever the
limit of the video queues and the sizes of the frames, the byte counters of a
session are the sums over its queues, and the queues are within their limits or
hold a single frame.  The publisher that comes next evaluates no subtraction
that wraps. -/
theorem queues_balanced (limit : ℕ) {is : List Move} {s : Threads}
    (hrun : run (Threads.step limit) .start is = some s) :
    (∀ v ∈ s.uplink.viewers, Balanced limit v) ∧
    ∀ item, s.uplink.enqueueChecked limit item = some (s.uplink.enqueue limit item) := by
  have hstart : AllBalanced limit Threads.start.uplink := fun v hv => absurd hv (by simp [init,
    Threads.start])
  exact ⟨run_preserves (P := fun s : Threads => AllBalanced limit s.uplink)
    (fun s i t => allBalanced_step) hstart hrun, enqueueChecked_eq limit s.uplink⟩

/-- A keyframe of five bytes reaches the queue, the next one does not yet. -/
def oversizeKeyframe : List Move :=
  [.uplink (.emplace "a"), .uplink (.onConnected "a" 0), .enter (.video (.video 0 .Key 0 5)),
    .enter (.video (.video 1 .Key 40 2)), .lock 0]

/-- A keyframe larger than the limit waits alone, until the next frame takes its
place. -/
theorem oversizeKeyframe_balanced :
    ∃ s, run (Threads.step 3) .start oversizeKeyframe = some s ∧
      s.uplink.viewers.map (·.videoBytes) = [5] ∧ (∀ v ∈ s.uplink.viewers, Balanced 3 v) ∧
      ∀ item, s.uplink.enqueueChecked 3 item = some (s.uplink.enqueue 3 item) := by
  have hrun : run (Threads.step 3) .start oversizeKeyframe = some _ := rfl
  exact ⟨_, hrun, by decide, queues_balanced 3 hrun⟩

end WebRtcUplink

end IpcMini
