/-
The video queues of the viewers (`protocol/webrtc/webrtc_media.cpp`).

The device publishes frames, `enqueue_video` files each under every connected
viewer, `drain` on the media thread swaps the queues out and writes what it
took to the peers, and viewers come, are connected and go on the signaling
thread.  A full queue is cleared; of the frame at hand only its own kind is
looked at, so the inter frames behind it meet an empty queue.

* `step` — one step of one thread;
* `Decodable` — the frames handed to one peer start with a keyframe, and the
  frame before each inter frame was handed over as well;
* `InterFollows` — an inter frame that fits is published directly after a frame
  that was queued for the viewer and not cleared;
* **`decodable_of_interFollows`** — then every peer gets decodable frames;
* `inter_after_clear`, `inter_on_connect` — the two ways to get others.
-/
import Mathlib.Tactic.Common
import IpcMini.KeyRun
import IpcMini.MediaFrame
import IpcMini.Run

namespace IpcMini

open Interleaving History

namespace WebRtcUplink

/-! ### State -/

def kVideoQueueFrames : ℕ := 4

def kVideoQueueBytes : ℕ := 128 * 1024

def kAudioQueueFrames : ℕ := 16

def kAudioQueueBytes : ℕ := 16 * 1024

/-- `video_queue_limit` after `WebRtcPlugin::start`. -/
def videoQueueLimit (pendingFrameBytesPerSession : ℕ) : ℕ :=
  if 0 < pendingFrameBytesPerSession then
    min kVideoQueueBytes pendingFrameBytesPerSession
  else kVideoQueueBytes

/-- A video frame with its place in the published order. -/
structure Published where
  index : ℕ
  frame : MediaFrame
  deriving DecidableEq, Repr

/-- `DetectionResult`, as far as it is passed on here. -/
structure DetectionResult where
  ptsMs : ℤ
  deriving DecidableEq, Repr

/-- What `drain` writes to a peer. -/
inductive Write
  | video (e : Published)
  | audio (frame : MediaFrame)
  | detections (result : DetectionResult)
  deriving DecidableEq, Repr

/-- `ViewerSession`; `peer` is the serial number of its peer object. -/
structure ViewerSession where
  viewerId : String
  peer : ℕ
  connected : Bool
  videoQueue : List Published
  audioQueue : List MediaFrame
  videoBytes : ℕ
  audioBytes : ℕ
  latestDetection : Option DetectionResult
  deriving DecidableEq, Repr

structure State where
  running : Bool
  viewers : List ViewerSession
  keyframePending : Bool
  drainScheduled : Bool
  /-- the video frames published so far -/
  published : List MediaFrame
  /-- calls of `request_preview_keyframe` -/
  keyframeRequests : ℕ
  /-- threads in `schedule_drain`, before `post_media` -/
  posting : ℕ
  /-- `drain` tasks of the media thread -/
  tasks : ℕ
  /-- what the current `drain` still has to write, and to which peer -/
  writing : List (ℕ × Write)
  /-- what was written so far, and to which peer -/
  handed : List (ℕ × Write)
  nextPeer : ℕ
  deriving DecidableEq, Repr

def init : State where
  running := true
  viewers := []
  keyframePending := false
  drainScheduled := false
  published := []
  keyframeRequests := 0
  posting := 0
  tasks := 0
  writing := []
  handed := []
  nextPeer := 0

/-! ### Enqueueing -/

namespace ViewerSession

/-- The queue of the viewer has no room for the frame. -/
def refuses (limit : ℕ) (v : ViewerSession) (frame : MediaFrame) : Bool :=
  decide (limit < frame.size) || decide (kVideoQueueFrames ≤ v.videoQueue.length) ||
    decide (limit - frame.size < v.videoBytes)

def push (v : ViewerSession) (e : Published) : ViewerSession :=
  { v with videoBytes := v.videoBytes + e.frame.size, videoQueue := v.videoQueue ++ [e] }

def clear (v : ViewerSession) : ViewerSession :=
  { v with videoQueue := [], videoBytes := 0 }

/-- What the loop of `enqueue_video` does with one viewer. -/
def enqueueVideo (limit : ℕ) (e : Published) (v : ViewerSession) : ViewerSession :=
  if !v.connected then v
  else if v.refuses limit e.frame then
    if !e.frame.keyframe then v.clear else v.clear.push e
  else v.push e

/-- The frame goes into the queue of the viewer. -/
def takes (limit : ℕ) (frame : MediaFrame) (v : ViewerSession) : Bool :=
  v.connected && (!v.refuses limit frame || frame.keyframe)

/-- The loop of `enqueue_video` leaves the viewer waiting for a keyframe. -/
def congested (limit : ℕ) (frame : MediaFrame) (v : ViewerSession) : Bool :=
  v.connected && v.refuses limit frame && !frame.keyframe

/-- What the loop of `enqueue_audio` does with one viewer. -/
def enqueueAudio (frame : MediaFrame) (v : ViewerSession) : ViewerSession :=
  if !v.connected then v
  else
    let v := if kAudioQueueBytes < frame.size ∨ kAudioQueueFrames ≤ v.audioQueue.length ∨
        kAudioQueueBytes - frame.size < v.audioBytes then
      { v with audioQueue := [], audioBytes := 0 } else v
    { v with audioBytes := v.audioBytes + frame.size, audioQueue := v.audioQueue ++ [frame] }

def enqueueDetection (result : DetectionResult) (v : ViewerSession) : ViewerSession :=
  if v.connected then { v with latestDetection := some result } else v

/-- What `drain` takes from a viewer. -/
def batch (v : ViewerSession) : List (ℕ × Write) :=
  v.videoQueue.map (fun e => (v.peer, .video e)) ++
    v.audioQueue.map (fun frame => (v.peer, .audio frame)) ++
    v.latestDetection.toList.map fun result => (v.peer, .detections result)

/-- What `drain` leaves behind. -/
def drained (v : ViewerSession) : ViewerSession :=
  { v with
    videoQueue := []
    audioQueue := []
    videoBytes := 0
    audioBytes := 0
    latestDetection := none }

end ViewerSession

namespace State

/-- The end of the locked blocks: the caller has a drain to schedule. -/
def schedule (s : State) (queued : Bool) : State :=
  if queued && !s.drainScheduled then
    { s with drainScheduled := true, posting := s.posting + 1 }
  else s

/-- `enqueue_video`, up to `schedule_drain`. -/
def enqueueVideo (limit : ℕ) (s : State) (frame : MediaFrame) : State :=
  let e : Published := ⟨s.published.length, frame⟩
  let s := { s with published := s.published ++ [frame] }
  if !s.running then s
  else
    let keyframePending := if frame.keyframe then false else s.keyframePending
    let requestKeyframe := s.viewers.any (ViewerSession.congested limit frame) && !keyframePending
    let queued := s.viewers.any (ViewerSession.takes limit frame)
    { s with
      viewers := s.viewers.map (ViewerSession.enqueueVideo limit e)
      keyframePending := keyframePending || requestKeyframe
      keyframeRequests := s.keyframeRequests + requestKeyframe.toNat }.schedule queued

/-- `enqueue_audio`, up to `schedule_drain`. -/
def enqueueAudio (s : State) (frame : MediaFrame) : State :=
  if !s.running || decide (frame.codec ≠ .G711U) then s
  else
    { s with viewers := s.viewers.map (ViewerSession.enqueueAudio frame) }.schedule
      (s.viewers.any (·.connected))

/-- `enqueue_detection`, up to `schedule_drain`. -/
def enqueueDetection (s : State) (result : DetectionResult) : State :=
  if !s.running then s
  else
    { s with viewers := s.viewers.map (ViewerSession.enqueueDetection result) }.schedule
      (s.viewers.any (·.connected))

/-- `create_viewer` files a new session; one that is there stays. -/
def emplace (s : State) (viewerId : String) : State :=
  { s with
    nextPeer := s.nextPeer + 1
    viewers :=
      if s.viewers.any (fun v => v.viewerId = viewerId) then s.viewers
      else s.viewers ++ [⟨viewerId, s.nextPeer, false, [], [], 0, 0, none⟩] }

/-- `on_connected`. -/
def onConnected (s : State) (viewerId : String) (peer : ℕ) : State :=
  { s with viewers := s.viewers.map fun v =>
      if v.viewerId = viewerId ∧ v.peer = peer then { v with connected := true } else v }

/-- The locked block of `remove_viewer`. -/
def removeViewer (s : State) (viewerId : String) : State :=
  if s.viewers.any (fun v => v.viewerId = viewerId) then
    let viewers := s.viewers.filter fun v => v.viewerId ≠ viewerId
    { s with
      viewers := viewers
      drainScheduled := if viewers.isEmpty then false else s.drainScheduled }
  else s

end State

/-! ### Steps -/

/-- The thread that moves. -/
inductive Label
  | enqueueVideo (frame : MediaFrame)
  | enqueueAudio (frame : MediaFrame)
  | enqueueDetection (result : DetectionResult)
  /-- a thread in `schedule_drain` gets the answer of `post_media` -/
  | scheduleDrain (posted : Bool)
  /-- `drain` swaps the queues out -/
  | drain
  /-- `drain` writes the next frame of its batches -/
  | write
  | emplace (viewerId : String)
  | onConnected (viewerId : String) (peer : ℕ)
  | removeViewer (viewerId : String)
  /-- `stop` clears `running` -/
  | stop
  deriving DecidableEq, Repr

/-- One step of one thread; `limit` is `video_queue_limit`. -/
def step (limit : ℕ) (s : State) : Label → Option State
  | .enqueueVideo frame => some (s.enqueueVideo limit frame)
  | .enqueueAudio frame => some (s.enqueueAudio frame)
  | .enqueueDetection result => some (s.enqueueDetection result)
  | .scheduleDrain posted =>
    if s.posting = 0 then none
    else if posted && s.running then
      some { s with posting := s.posting - 1, tasks := s.tasks + 1 }
    else some { s with posting := s.posting - 1, drainScheduled := false }
  | .drain =>
    if s.tasks = 0 ∨ s.writing ≠ [] then none
    else
      some { s with
        tasks := s.tasks - 1
        writing := s.viewers.flatMap (·.batch)
        viewers := s.viewers.map (·.drained)
        drainScheduled := false }
  | .write =>
    match s.writing with
    | w :: rest => some { s with writing := rest, handed := s.handed ++ [w] }
    | [] => none
  | .emplace viewerId => some (s.emplace viewerId)
  | .onConnected viewerId peer => some (s.onConnected viewerId peer)
  | .removeViewer viewerId => some (s.removeViewer viewerId)
  | .stop => some { s with running := false }

/-! ### The frames of one peer -/

/-- The video frames for one peer among some writes. -/
def videos (peer : ℕ) (writes : List (ℕ × Write)) : List Published :=
  writes.filterMap fun w =>
    match w.2 with
    | .video e => if w.1 = peer then some e else none
    | _ => none

/-- The video frames that wait for one peer. -/
def queued (s : State) (peer : ℕ) : List Published :=
  s.viewers.flatMap fun v => if v.peer = peer then v.videoQueue else []

/-- The video frames handed to a peer, then those that `drain` has taken for
it, then those in its queue. -/
def stream (s : State) (peer : ℕ) : List Published :=
  videos peer (s.handed ++ s.writing) ++ queued s peer

/-- The frames handed to a peer start with a keyframe, and the frame published
just before an inter frame was handed over too. -/
structure Decodable (s : State) (peer : ℕ) : Prop where
  first : ∀ e ∈ (videos peer s.handed).head?, e.frame.keyframe = true
  follows : ∀ e ∈ videos peer s.handed, e.frame.keyframe = false →
    ∃ d ∈ videos peer s.handed, d.index + 1 = e.index
  published : ∀ e ∈ videos peer s.handed, s.published[e.index]? = some e.frame

/-- An inter frame that fits the queue of a connected viewer is published right
after the last frame that was queued for the viewer and not cleared. -/
def InterFollows (limit : ℕ) (s : State) : Label → Prop
  | .enqueueVideo frame => s.running = true → frame.keyframe = false → ∀ v ∈ s.viewers,
    v.connected = true → v.refuses limit frame = false →
      ∃ e ∈ (stream s v.peer).getLast?, e.index + 1 = s.published.length
  | _ => True

instance (limit : ℕ) : ∀ (s : State) (i : Label), Decidable (InterFollows limit s i) :=
  fun s i =>
  match i with
  | .enqueueVideo frame => inferInstanceAs (Decidable (s.running = true →
      frame.keyframe = false → ∀ v ∈ s.viewers, v.connected = true →
      v.refuses limit frame = false →
        ∃ e ∈ (stream s v.peer).getLast?, e.index + 1 = s.published.length))
  | .enqueueAudio _ | .enqueueDetection _ | .scheduleDrain _ | .drain | .write | .emplace _
  | .onConnected .. | .removeViewer _ | .stop => .isTrue trivial

/-! ### Streams -/

variable {limit : ℕ} {s t : State} {peer : ℕ}

@[simp] theorem videos_nil : videos peer [] = [] := rfl

@[simp] theorem videos_append (l l' : List (ℕ × Write)) :
    videos peer (l ++ l') = videos peer l ++ videos peer l' := List.filterMap_append

/-- `drain` takes the video queue of a viewer as it is. -/
@[simp] theorem videos_batch (v : ViewerSession) :
    videos peer v.batch = if v.peer = peer then v.videoQueue else [] := by
  have haudio : videos peer (v.audioQueue.map fun frame => (v.peer, .audio frame)) = [] := by
    simp [videos]
  have hdetection : videos peer
      (v.latestDetection.toList.map fun result => (v.peer, .detections result)) = [] := by
    simp [videos]
  rw [ViewerSession.batch, videos_append, videos_append, haudio, hdetection]
  by_cases hp : v.peer = peer <;> simp [videos, List.filterMap_map, hp]

theorem videos_flatMap_batch (viewers : List ViewerSession) :
    videos peer (viewers.flatMap (·.batch)) =
      viewers.flatMap fun v => if v.peer = peer then v.videoQueue else [] := by
  induction viewers with
  | nil => rfl
  | cons v viewers ih => rw [List.flatMap_cons, videos_append, videos_batch, ih, List.flatMap_cons]

/-- A viewer's queue is all that waits for its peer. -/
theorem flatMap_of_mem {viewers : List ViewerSession} {v : ViewerSession}
    (hn : (viewers.map (·.peer)).Nodup) (hv : v ∈ viewers) :
    (viewers.flatMap fun u => if u.peer = v.peer then u.videoQueue else []) = v.videoQueue := by
  induction viewers with
  | nil => exact absurd hv (by simp)
  | cons u viewers ih =>
    obtain ⟨hu, hn⟩ := List.nodup_cons.mp hn
    rw [List.flatMap_cons]
    rcases List.mem_cons.mp hv with rfl | hv
    · have hrest : (viewers.flatMap fun w => if w.peer = v.peer then w.videoQueue else []) = [] :=
        List.flatMap_eq_nil_iff.mpr fun w hw => if_neg fun heq =>
          hu (List.mem_map.mpr ⟨w, hw, heq⟩)
      rw [hrest, if_pos rfl, List.append_nil]
    · have hne : u.peer ≠ v.peer := fun heq => hu (List.mem_map.mpr ⟨v, hv, heq.symm⟩)
      rw [ih hn hv, if_neg hne, List.nil_append]

theorem queued_of_mem {v : ViewerSession} (hn : (s.viewers.map (·.peer)).Nodup)
    (hv : v ∈ s.viewers) : queued s v.peer = v.videoQueue := flatMap_of_mem hn hv

theorem queued_of_not_mem (h : peer ∉ s.viewers.map (·.peer)) : queued s peer = [] :=
  List.flatMap_eq_nil_iff.mpr fun v hv => if_neg fun heq => h (List.mem_map.mpr ⟨v, hv, heq⟩)

/-! ### The invariant -/

/-- Peers belong to one viewer each, and every stream is a chain of published
frames. -/
structure Inv (s : State) : Prop where
  peers : (s.viewers.map (·.peer)).Nodup
  viewers_lt : ∀ peer ∈ s.viewers.map (·.peer), peer < s.nextPeer
  chain : ∀ peer, KeyChain (fun e : Published => e.frame.keyframe)
    (fun d e => d.index + 1 = e.index) (stream s peer)
  published : ∀ peer, ∀ e ∈ stream s peer, s.published[e.index]? = some e.frame

theorem inv_init : Inv init := by
  constructor <;> simp [init, stream, queued]

theorem Inv.decodable (h : Inv s) (peer : ℕ) : Decodable s peer := by
  have hstream : stream s peer =
      videos peer s.handed ++ (videos peer s.writing ++ queued s peer) := by
    rw [stream, videos_append, List.append_assoc]
  have hchain := h.chain peer
  rw [hstream] at hchain
  exact ⟨hchain.of_append.1, fun e he hk => hchain.of_append.exists_prev he hk,
    fun e he => h.published peer e (by rw [hstream]; exact List.mem_append_left _ he)⟩

/-- A step that leaves the peers and the streams as they are. -/
theorem Inv.of_same (h : Inv s) (hpeers : t.viewers.map (·.peer) = s.viewers.map (·.peer))
    (hnext : t.nextPeer = s.nextPeer) (hw : t.handed ++ t.writing = s.handed ++ s.writing)
    (hq : ∀ peer, queued t peer = queued s peer) (hpub : t.published = s.published) : Inv t := by
  have hstream : ∀ peer, stream t peer = stream s peer := fun peer => by
    rw [stream, hw, hq, ← stream]
  constructor
  · rw [hpeers]
    exact h.peers
  · rw [hpeers, hnext]
    exact h.viewers_lt
  · intro peer
    rw [hstream]
    exact h.chain peer
  · intro peer
    rw [hstream, hpub]
    exact h.published peer

/-- The sessions change, but neither their peers nor their video queues. -/
theorem Inv.of_map (h : Inv s) {f : ViewerSession → ViewerSession}
    (hp : ∀ v, (f v).peer = v.peer) (hq : ∀ v, (f v).videoQueue = v.videoQueue) :
    Inv { s with viewers := s.viewers.map f } := by
  refine h.of_same ?_ rfl rfl (fun peer => ?_) rfl
  · simp [Function.comp_def, hp]
  · simp [queued, List.flatMap_map, hp, hq]

theorem Inv.schedule (h : Inv s) (queued : Bool) : Inv (s.schedule queued) := by
  rw [State.schedule]
  split
  · exact h.of_same rfl rfl rfl (fun _ => rfl) rfl
  · exact h

/-! ### Steps of the invariant -/

theorem enqueueVideo_peer (limit : ℕ) (e : Published) (v : ViewerSession) :
    (v.enqueueVideo limit e).peer = v.peer := by
  simp only [ViewerSession.enqueueVideo, ViewerSession.push, ViewerSession.clear]
  split_ifs <;> rfl

/-- A new video queue: untouched, cleared, cleared for a keyframe, or grown. -/
theorem enqueueVideo_cases (limit : ℕ) (e : Published) (v : ViewerSession) :
    (v.enqueueVideo limit e).videoQueue = v.videoQueue ∨
    (v.enqueueVideo limit e).videoQueue = [] ∨
    (e.frame.keyframe = true ∧ (v.enqueueVideo limit e).videoQueue = [e]) ∨
    (v.connected = true ∧ v.refuses limit e.frame = false ∧
      (v.enqueueVideo limit e).videoQueue = v.videoQueue ++ [e]) := by
  rw [ViewerSession.enqueueVideo]
  split
  · exact .inl rfl
  · rename_i hc
    split
    · split
      · exact .inr (.inl rfl)
      · rename_i hk
        exact .inr (.inr (.inl ⟨by simpa using hk, rfl⟩))
    · rename_i hr
      exact .inr (.inr (.inr ⟨by simpa using hc, by simpa using hr, rfl⟩))

/-- The stream of a viewer when `e` was filed under it: a chain again, of old
frames and `e`. -/
theorem stream_enqueueVideo {e : Published} {v : ViewerSession} {handed : List Published}
    (h : KeyChain (fun e : Published => e.frame.keyframe) (fun d e => d.index + 1 = e.index)
      (handed ++ v.videoQueue))
    (hi : e.frame.keyframe = false → v.connected = true → v.refuses limit e.frame = false →
      ∃ d ∈ (handed ++ v.videoQueue).getLast?, d.index + 1 = e.index) :
    KeyChain (fun e : Published => e.frame.keyframe) (fun d e => d.index + 1 = e.index)
      (handed ++ (v.enqueueVideo limit e).videoQueue) ∧
    ∀ d ∈ handed ++ (v.enqueueVideo limit e).videoQueue,
      d ∈ handed ++ v.videoQueue ∨ d = e := by
  obtain hq | hq | ⟨hk, hq⟩ | ⟨hc, hr, hq⟩ := enqueueVideo_cases limit e v <;> rw [hq]
  · exact ⟨h, fun d hd => .inl hd⟩
  · rw [List.append_nil]
    exact ⟨h.of_append, fun d hd => .inl (List.mem_append_left _ hd)⟩
  · refine ⟨h.of_append.concat (.inl hk), fun d hd => ?_⟩
    simp only [List.mem_append, List.mem_singleton] at hd ⊢
    tauto
  · rw [← List.append_assoc]
    refine ⟨h.concat ?_, fun d hd => ?_⟩
    · by_cases hk : e.frame.keyframe = true
      · exact .inl hk
      · exact .inr (hi (by simpa using hk) hc hr)
    · simpa [or_assoc] using hd

/-- Filing a frame under every viewer. -/
theorem Inv.file (h : Inv s) (limit : ℕ) {e : Published} (he : e.index = s.published.length)
    (hi : ∀ v ∈ s.viewers, e.frame.keyframe = false → v.connected = true →
      v.refuses limit e.frame = false →
      ∃ d ∈ (stream s v.peer).getLast?, d.index + 1 = e.index) :
    Inv { s with
      published := s.published ++ [e.frame]
      viewers := s.viewers.map (ViewerSession.enqueueVideo limit e) } := by
  set t : State := { s with
    published := s.published ++ [e.frame]
    viewers := s.viewers.map (ViewerSession.enqueueVideo limit e) } with ht
  have hpeers : t.viewers.map (·.peer) = s.viewers.map (·.peer) := by
    simp [ht, Function.comp_def, enqueueVideo_peer]
  have hnodup : (t.viewers.map (·.peer)).Nodup := hpeers ▸ h.peers
  have hstream : ∀ peer, KeyChain (fun e : Published => e.frame.keyframe)
      (fun d e => d.index + 1 = e.index) (stream t peer) ∧
      ∀ d ∈ stream t peer, d ∈ stream s peer ∨ d = e := by
    intro peer
    -- only the viewers have queues, and theirs take the frame
    by_cases hp : peer ∈ s.viewers.map (·.peer)
    · obtain ⟨v, hv, rfl⟩ := List.mem_map.mp hp
      have hold : stream s v.peer = videos v.peer (s.handed ++ s.writing) ++ v.videoQueue := by
        rw [stream, queued_of_mem h.peers hv]
      have hnew : stream t v.peer = videos v.peer (s.handed ++ s.writing) ++
          (v.enqueueVideo limit e).videoQueue := by
        rw [stream, ← enqueueVideo_peer limit e v,
          queued_of_mem hnodup (List.mem_map_of_mem hv)]
      have hchain := h.chain v.peer
      have hlast := hi v hv
      rw [hold] at hchain hlast
      rw [hold, hnew]
      exact stream_enqueueVideo hchain hlast
    · have hsame : stream t peer = stream s peer := by
        rw [stream, stream, queued_of_not_mem hp, queued_of_not_mem (hpeers ▸ hp)]
      rw [hsame]
      exact ⟨h.chain peer, fun d hd => .inl hd⟩
  refine ⟨hnodup, hpeers ▸ h.viewers_lt, fun peer => (hstream peer).1, ?_⟩
  intro peer d hd
  rcases (hstream peer).2 d hd with hold | rfl
  · have hsome := h.published peer d hold
    rw [List.getElem?_append_left (List.getElem?_eq_some_iff.mp hsome).1, hsome]
  · simp [ht, he]

theorem inv_enqueueVideo (h : Inv s) {frame : MediaFrame}
    (hi : InterFollows limit s (.enqueueVideo frame)) : Inv (s.enqueueVideo limit frame) := by
  rw [State.enqueueVideo]
  dsimp only
  split
  · refine ⟨h.peers, h.viewers_lt, h.chain, fun peer e he => ?_⟩
    have hsome := h.published peer e he
    rw [List.getElem?_append_left (List.getElem?_eq_some_iff.mp hsome).1, hsome]
  · rename_i hrun
    refine Inv.schedule ?_ _
    have hfile := h.file limit (e := ⟨s.published.length, frame⟩) rfl
      fun v hv hk hc hr => hi (by simpa using hrun) hk v hv hc hr
    exact hfile.of_same rfl rfl rfl (fun _ => rfl) rfl

/-- `drain` moves the queues into its batches. -/
theorem inv_drain (h : Inv s) (hw : s.writing = []) : Inv { s with
    tasks := s.tasks - 1
    writing := s.viewers.flatMap (·.batch)
    viewers := s.viewers.map (·.drained)
    drainScheduled := false } := by
  set t : State := { s with
    tasks := s.tasks - 1
    writing := s.viewers.flatMap (·.batch)
    viewers := s.viewers.map (·.drained)
    drainScheduled := false } with ht
  have hpeers : t.viewers.map (·.peer) = s.viewers.map (·.peer) := by
    simp [ht, Function.comp_def, ViewerSession.drained]
  have hstream : ∀ peer, stream t peer = stream s peer := by
    intro peer
    have hempty : queued t peer = [] := by
      simp [queued, ht, List.flatMap_map, ViewerSession.drained]
    rw [stream, hempty, stream, hw, List.append_nil, List.append_nil, videos_append,
      videos_flatMap_batch]
    rfl
  refine ⟨hpeers ▸ h.peers, hpeers ▸ h.viewers_lt, fun peer => ?_, fun peer => ?_⟩
  · rw [hstream]
    exact h.chain peer
  · rw [hstream]
    exact h.published peer

theorem inv_emplace (h : Inv s) (viewerId : String) : Inv (s.emplace viewerId) := by
  have hlt : ∀ peer ∈ s.viewers.map (·.peer), peer < s.nextPeer + 1 :=
    fun peer hp => Nat.lt_succ_of_lt (h.viewers_lt peer hp)
  rw [State.emplace]
  split
  · exact ⟨h.peers, hlt, h.chain, h.published⟩
  · -- the queue of the new session is empty
    have hstream : ∀ peer, stream { s with
        nextPeer := s.nextPeer + 1
        viewers := s.viewers ++ [⟨viewerId, s.nextPeer, false, [], [], 0, 0, none⟩] } peer =
        stream s peer := by
      intro peer
      simp [stream, queued]
    refine ⟨?_, fun peer hp => ?_, fun peer => ?_, fun peer => ?_⟩
    · rw [List.map_append, List.map_singleton, List.nodup_append]
      refine ⟨h.peers, by simp, fun a ha b hb => ?_⟩
      obtain rfl : b = s.nextPeer := by simpa using hb
      exact (h.viewers_lt a ha).ne
    · rw [List.map_append, List.mem_append] at hp
      rcases hp with hp | hp
      · exact hlt peer hp
      · obtain rfl : peer = s.nextPeer := by simpa using hp
        exact Nat.lt_succ_self _
    · rw [hstream]
      exact h.chain peer
    · rw [hstream]
      exact h.published peer

/-- A removed viewer loses what `drain` has not taken. -/
theorem inv_removeViewer (h : Inv s) (viewerId : String) : Inv (s.removeViewer viewerId) := by
  rw [State.removeViewer]
  split
  · set t : State := { s with
      viewers := s.viewers.filter fun v => v.viewerId ≠ viewerId
      drainScheduled :=
        if (s.viewers.filter fun v => v.viewerId ≠ viewerId).isEmpty then false
        else s.drainScheduled } with ht
    have hsub : (t.viewers.map (·.peer)).Sublist (s.viewers.map (·.peer)) :=
      List.filter_sublist.map _
    have hnodup := h.peers.sublist hsub
    have hstream : ∀ peer, ∃ more, stream s peer = stream t peer ++ more := by
      intro peer
      by_cases hp : peer ∈ t.viewers.map (·.peer)
      · obtain ⟨v, hv, rfl⟩ := List.mem_map.mp hp
        refine ⟨[], ?_⟩
        rw [stream, queued_of_mem h.peers (List.mem_of_mem_filter hv), List.append_nil, stream,
          queued_of_mem hnodup hv]
      · refine ⟨queued s peer, ?_⟩
        rw [stream, stream, queued_of_not_mem hp, List.append_nil]
    refine ⟨hnodup, fun peer hp => h.viewers_lt peer (hsub.subset hp), fun peer => ?_,
      fun peer e he => ?_⟩
    · obtain ⟨more, heq⟩ := hstream peer
      exact (heq ▸ h.chain peer).of_append
    · obtain ⟨more, heq⟩ := hstream peer
      exact h.published peer e (heq ▸ List.mem_append_left _ he)
  · exact h

theorem inv_step {i : Label} (h : Inv s) (hi : InterFollows limit s i)
    (hstep : step limit s i = some t) : Inv t := by
  cases i with
  | enqueueVideo frame => exact Option.some_inj.mp hstep ▸ inv_enqueueVideo h hi
  | enqueueAudio frame =>
    obtain rfl := Option.some_inj.mp hstep
    -- audio and detections leave the video of every viewer alone
    rw [State.enqueueAudio]
    split
    · exact h
    · refine (h.of_map (fun v => ?_) fun v => ?_).schedule _ <;>
      · rw [ViewerSession.enqueueAudio]
        dsimp only
        split_ifs <;> rfl
  | enqueueDetection result =>
    obtain rfl := Option.some_inj.mp hstep
    rw [State.enqueueDetection]
    split
    · exact h
    · refine (h.of_map (fun v => ?_) fun v => ?_).schedule _ <;>
      · rw [ViewerSession.enqueueDetection]
        split <;> rfl
  | scheduleDrain posted =>
    simp only [step] at hstep
    split_ifs at hstep <;> obtain rfl := Option.some_inj.mp hstep <;>
      exact h.of_same rfl rfl rfl (fun _ => rfl) rfl
  | drain =>
    simp only [step] at hstep
    split_ifs at hstep with hd
    exact Option.some_inj.mp hstep ▸ inv_drain h (by tauto)
  | write =>
    simp only [step] at hstep
    split at hstep
    · rename_i w rest hw
      obtain rfl := Option.some_inj.mp hstep
      exact h.of_same rfl rfl (by simp [hw]) (fun _ => rfl) rfl
    · exact absurd hstep (by simp)
  | emplace viewerId => exact Option.some_inj.mp hstep ▸ inv_emplace h viewerId
  | onConnected viewerId peer =>
    obtain rfl := Option.some_inj.mp hstep
    refine h.of_map (fun v => ?_) fun v => ?_ <;> split <;> rfl
  | removeViewer viewerId => exact Option.some_inj.mp hstep ▸ inv_removeViewer h viewerId
  | stop =>
    obtain rfl := Option.some_inj.mp hstep
    exact h.of_same rfl rfl rfl (fun _ => rfl) rfl

/-- **Peers get decodable frames while inter frames follow on.**  In every run
in which an inter frame that fits the queue of a connected viewer is published
right after the last frame queued for that viewer and not cleared, the frames
handed to each peer start with a keyframe, and the frame published just before
each inter frame among them was handed to that peer as well. -/
theorem decodable_of_interFollows (limit : ℕ) {is : List Label} {s : State}
    (hC : Along (step limit) (InterFollows limit) init is)
    (h : run (step limit) init is = some s) (peer : ℕ) : Decodable s peer :=
  (run_invariant (fun _ _ _ => inv_step) inv_init hC h).decodable peer

/-- A viewer that is connected before the first frame. -/
def connectedViewer : List Label := [.emplace "a", .onConnected "a" 0]

/-- One `drain` of what is queued. -/
def drainFrames (n : ℕ) : List Label :=
  [.scheduleDrain true, .drain] ++ List.replicate n .write

/-- A keyframe and an inter frame, each drained, and an inter frame that meets
a full queue and is followed by a keyframe. -/
def pacedUplink : List Label :=
  connectedViewer ++ [.enqueueVideo (.video 0 .Key 0 2)] ++ drainFrames 1 ++
    [.enqueueVideo (.video 1 .Inter 40 1)] ++ drainFrames 1 ++
    [.enqueueVideo (.video 2 .Inter 80 4), .enqueueVideo (.video 3 .Key 120 2)] ++
    drainFrames 1

theorem pacedUplink_decodable :
    ∃ s, run (step 3) init pacedUplink = some s ∧ s.handed.length = 3 ∧ Decodable s 0 := by
  have hfollows : Along (step 3) (InterFollows 3) init pacedUplink := by decide
  exact ⟨_, rfl, rfl, decodable_of_interFollows 3 hfollows rfl 0⟩

/-- The keyframe waits in the queue when an inter frame does not fit: the
queue is cleared, and the next inter frame is handed over as the first. -/
theorem inter_after_clear :
    ¬ ∀ (limit : ℕ) (is : List Label) (s : State), run (step limit) init is = some s →
      ∀ peer, Decodable s peer := by
  intro h
  have hd := h 3 (connectedViewer ++ [.enqueueVideo (.video 0 .Key 0 2),
    .enqueueVideo (.video 1 .Inter 40 2), .enqueueVideo (.video 2 .Inter 80 2)] ++
    drainFrames 1) _ rfl 0
  exact absurd (hd.first ⟨2, .video 2 .Inter 80 2⟩ rfl) (by decide)

/-- A viewer that is connected in the middle of a group gets the inter frames
that are left of it. -/
theorem inter_on_connect :
    ∃ (is : List Label) (s : State), run (step (videoQueueLimit 0)) init is = some s ∧
      ¬ Decodable s 0 := by
  refine ⟨[.emplace "a", .enqueueVideo (.video 0 .Key 0 2), .onConnected "a" 0,
    .enqueueVideo (.video 1 .Inter 40 2)] ++ drainFrames 1, _, rfl, fun hd => ?_⟩
  exact absurd (hd.first ⟨1, .video 1 .Inter 40 2⟩ rfl) (by decide)

end WebRtcUplink

end IpcMini
