/-
The frame queue of the segment recorder (`src/record/segment_recorder.cpp`).

`on_frame` appends to the queue on the thread of the publisher and drops the
frame when the queue is full; `writer_loop` pops the frames and hands them to
`process_frame`.  A drop leaves no trace for the writer, which goes on writing
inter frames although a frame before them is missing.

* `step` — one step of one of the two threads;
* `NoStrayInter` — no inter frame published after a drop is written before a
  keyframe published after the drop has been processed;
* `Paced` — the queue takes an inter frame after a drop only while the writer
  waits for a keyframe and has none in sight;
* **`noStrayInter_of_paced`** — then no such frame is written;
* `inter_after_drop` — the run that writes one.
-/
import Mathlib.Tactic.Common
import IpcMini.Recorder
import IpcMini.Run

namespace IpcMini

open Interleaving

/-! ### State -/

/-- A frame with its place in the published order. -/
structure Entry where
  index : ℕ
  frame : MediaFrame
  deriving DecidableEq, Repr

namespace Entry

def key (e : Entry) : Bool := decide (e.frame.type = .Video) && e.frame.keyframe

def inter (e : Entry) : Bool := decide (e.frame.type = .Video) && !e.frame.keyframe

theorem inter_iff {e : Entry} :
    e.inter = true ↔ e.frame.type = .Video ∧ e.frame.keyframe = false := by
  simp [inter]

end Entry

/-- Where `writer_loop` is. -/
inductive WriterLoop
  | waiting
  | processing (e : Entry)
  | ended
  deriving DecidableEq, Repr

structure RecorderQueue where
  recorder : Recorder
  queue : List Entry
  stopping : Bool
  dropLogged : Bool
  writer : WriterLoop
  /-- the number of frames published so far -/
  published : ℕ
  /-- the video frames that `on_frame` dropped -/
  dropped : List Entry
  /-- the frames that `process_frame` is done with -/
  processed : List Entry
  deriving DecidableEq, Repr

/-- The frames in the segments of a muxer, in the order they were written. -/
def Muxer.written (m : Muxer) : List MediaFrame :=
  (m.closed ++ m.segment.toList).flatMap Prod.snd

namespace RecorderQueue

/-- A recorder that was just started. -/
def start (recorder : Recorder) : RecorderQueue where
  recorder := recorder
  queue := []
  stopping := false
  dropLogged := false
  writer := .waiting
  published := 0
  dropped := []
  processed := []

def current (s : RecorderQueue) : List Entry :=
  match s.writer with
  | .processing e => [e]
  | _ => []

/-- The accepted frames that are not processed yet. -/
def ahead (s : RecorderQueue) : List Entry := s.current ++ s.queue

def accepted (s : RecorderQueue) : List Entry := s.processed ++ s.ahead

/-! ### Steps -/

/-- The queue has no room. -/
def full (s : RecorderQueue) : Bool :=
  decide (s.recorder.archive.config.maxPendingFrames ≤ s.queue.length)

/-- `on_frame` of a frame, when the recorder is not stopping. -/
def onFrame (s : RecorderQueue) (frame : MediaFrame) : RecorderQueue :=
  if !s.recorder.archive.config.audio && decide (frame.type = .Audio) then s
  else
    let e : Entry := ⟨s.published, frame⟩
    let s := { s with published := s.published + 1 }
    if s.full then
      { s with
        dropLogged := true
        dropped := if frame.type = .Video then s.dropped ++ [e] else s.dropped }
    else { s with queue := s.queue ++ [e] }

inductive Label
  /-- `early` says that `stopping_` was read before it was stored -/
  | onFrame (frame : Option MediaFrame) (early : Bool)
  /-- `stop` stores `stopping_` -/
  | stop
  | pop
  | process (env : Env)
  /-- the writer leaves its loop -/
  | leave (env : Env)
  deriving DecidableEq, Repr

def step (s : RecorderQueue) : Label → Option RecorderQueue
  | .onFrame none _ => some s
  | .onFrame (some frame) early =>
    if s.stopping && !early then some s else some (s.onFrame frame)
  | .stop => some { s with stopping := true }
  | .pop =>
    match s.writer, s.queue with
    | .waiting, e :: rest => some { s with writer := .processing e, queue := rest }
    | _, _ => none
  | .process env =>
    match s.writer with
    | .processing e =>
      some { s with
        recorder := s.recorder.processFrame env e.frame
        writer := .waiting
        processed := s.processed ++ [e] }
    | _ => none
  | .leave env =>
    if s.writer = .waiting ∧ s.queue = [] ∧ s.stopping = true then
      some { s with recorder := s.recorder.endWriter env, writer := .ended }
    else none

/-! ### Drops and inter frames -/

/-- Before the frame a video frame was dropped, and no keyframe after that one
has been processed. -/
def DropOpen (s : RecorderQueue) (e : Entry) : Prop :=
  ∃ d ∈ s.dropped, d.index < e.index ∧ ∀ k ∈ s.processed, k.key = true → k.index ≤ d.index

/-- An inter frame behind an open drop is processed without being written. -/
def NoStrayInter (s : RecorderQueue) : Label → Prop
  | .process env => ∀ e ∈ s.current, e.inter = true → s.DropOpen e →
      (s.recorder.processFrame env e.frame).muxer.written = s.recorder.muxer.written
  | _ => True

/-- A video frame was dropped, and no keyframe has been accepted since. -/
def Broken (s : RecorderQueue) : Prop :=
  ∃ d ∈ s.dropped, ∀ k ∈ s.accepted, k.key = true → k.index ≤ d.index

/-- The writer waits for a keyframe, and it neither holds one back nor has one
ahead. -/
def Quiet (s : RecorderQueue) : Prop :=
  s.recorder.awaitKeyframe = true ∧ s.recorder.pendingKeyframe = none ∧
    ∀ k ∈ s.ahead, k.key = false

/-- The queue takes an inter frame after a drop, and before the next keyframe it
takes, only while the writer is quiet. -/
def Paced (s : RecorderQueue) : Label → Prop
  | .onFrame (some frame) early =>
    (s.stopping && !early) = false → s.full = false → frame.type = .Video →
      frame.keyframe = false → s.Broken → s.Quiet
  | _ => True

instance (s : RecorderQueue) (e : Entry) : Decidable (s.DropOpen e) :=
  inferInstanceAs (Decidable (∃ d ∈ s.dropped, d.index < e.index ∧
    ∀ k ∈ s.processed, k.key = true → k.index ≤ d.index))

instance (s : RecorderQueue) : Decidable s.Broken :=
  inferInstanceAs (Decidable (∃ d ∈ s.dropped, ∀ k ∈ s.accepted, k.key = true → k.index ≤ d.index))

instance (s : RecorderQueue) : Decidable s.Quiet :=
  inferInstanceAs (Decidable (s.recorder.awaitKeyframe = true ∧
    s.recorder.pendingKeyframe = none ∧ ∀ k ∈ s.ahead, k.key = false))

instance (s : RecorderQueue) : ∀ l, Decidable (s.NoStrayInter l)
  | .process env =>
    inferInstanceAs (Decidable (∀ e ∈ s.current, e.inter = true → s.DropOpen e →
      (s.recorder.processFrame env e.frame).muxer.written = s.recorder.muxer.written))
  | .onFrame _ _ | .stop | .pop | .leave _ => .isTrue trivial

instance (s : RecorderQueue) : ∀ l, Decidable (s.Paced l)
  | .onFrame (some frame) early =>
    inferInstanceAs (Decidable ((s.stopping && !early) = false → s.full = false →
      frame.type = .Video → frame.keyframe = false → s.Broken → s.Quiet))
  | .onFrame none _ | .stop | .pop | .process _ | .leave _ => .isTrue trivial

/-! ### A quiet writer -/

/-- A recorder that waits for a keyframe, and holds none back, goes on doing so
until it is given one. -/
theorem processFrame_quiet {r : Recorder} {f : MediaFrame} (ha : r.awaitKeyframe = true)
    (hp : r.pendingKeyframe = none) (hf : f.type = .Video → f.keyframe = false) (env : Env) :
    (r.processFrame env f).awaitKeyframe = true ∧
      (r.processFrame env f).pendingKeyframe = none := by
  rw [Recorder.processFrame]
  cases htype : f.type with
  | Video =>
    dsimp only
    rw [if_pos ha, Recorder.processAwaited, if_pos (by simp [hf htype])]
    exact ⟨ha, hp⟩
  | Audio =>
    dsimp only
    rw [Recorder.processAudio]
    -- the audio configuration finds no keyframe to open a segment with
    have hlearn : ∀ config, (r.learnConfig env config).awaitKeyframe = true ∧
        (r.learnConfig env config).pendingKeyframe = none := by
      intro config
      rw [Recorder.learnConfig]
      dsimp only
      rw [hp]
      exact ⟨ha, rfl⟩
    have hwrite : ∀ t : Recorder, t.awaitKeyframe = true ∧ t.pendingKeyframe = none →
        (if !t.muxer.segmentOpen || t.audioFormat.isNone || t.lacksConfig then t
          else t.writeFrame env f).awaitKeyframe = true ∧
        (if !t.muxer.segmentOpen || t.audioFormat.isNone || t.lacksConfig then t
          else t.writeFrame env f).pendingKeyframe = none := by
      intro t ht
      split
      · exact ht
      · exact ht
    split
    · exact ⟨ha, hp⟩
    · cases r.learnedConfig env f with
      | none => exact hwrite r ⟨ha, hp⟩
      | some config => exact hwrite _ (hlearn config)

/-- A waiting recorder drops an inter frame. -/
theorem processFrame_inter {r : Recorder} {f : MediaFrame} (ha : r.awaitKeyframe = true)
    (hvideo : f.type = .Video) (hf : f.keyframe = false) (env : Env) :
    r.processFrame env f = r := by
  rw [Recorder.processFrame, hvideo]
  dsimp only
  rw [if_pos ha, Recorder.processAwaited, if_pos (by simp [hf])]

/-! ### The invariant -/

/-- A video frame was dropped before the frame, and no keyframe accepted between
the two. -/
def Exposed (s : RecorderQueue) (e : Entry) : Prop :=
  ∃ d ∈ s.dropped, d.index < e.index ∧
    ∀ k ∈ s.accepted, k.key = true → k.index < e.index → k.index ≤ d.index

/-- The frames are processed in the published order, and the writer will wait
for a keyframe when it comes to an exposed inter frame. -/
structure Inv (s : RecorderQueue) : Prop where
  sorted : s.accepted.Pairwise fun a b => a.index < b.index
  below : ∀ e ∈ s.accepted, e.index < s.published
  guarded : ∀ e ∈ s.ahead, e.inter = true → s.Exposed e →
    s.recorder.awaitKeyframe = true ∧ s.recorder.pendingKeyframe = none ∧
      ∀ k ∈ s.ahead, k.key = true → e.index < k.index

theorem inv_start (recorder : Recorder) : (start recorder).Inv :=
  ⟨.nil, fun _ he => absurd he (by simp [start, accepted, ahead, current]),
    fun _ he => absurd he (by simp [start, ahead, current])⟩

theorem mem_accepted_of_ahead {s : RecorderQueue} {e : Entry} (h : e ∈ s.ahead) :
    e ∈ s.accepted :=
  List.mem_append_right _ h

/-- Whatever leaves the queues, the drops and the flags alone keeps the invariant. -/
theorem Inv.congr {s t : RecorderQueue} (h : s.Inv) (hp : t.processed = s.processed)
    (ha : t.ahead = s.ahead) (hd : t.dropped = s.dropped) (hn : t.published = s.published)
    (hr : t.recorder = s.recorder) : t.Inv := by
  have hacc : t.accepted = s.accepted := by rw [accepted, accepted, hp, ha]
  refine ⟨hacc ▸ h.sorted, ?_, ?_⟩
  · rw [hacc, hn]
    exact h.below
  · rw [ha, hr]
    intro e he hi hexp
    refine h.guarded e he hi ?_
    rw [Exposed, hd, hacc] at hexp
    exact hexp

/-- A drop exposes no frame that was accepted before it. -/
theorem inv_drop {s : RecorderQueue} (h : s.Inv) (frame : MediaFrame) (logged : Bool) :
    Inv { s with
      published := s.published + 1
      dropLogged := logged
      dropped := if frame.type = .Video then s.dropped ++ [⟨s.published, frame⟩]
        else s.dropped } := by
  refine ⟨h.sorted, fun e he => Nat.lt_succ_of_lt (h.below e he), fun e he hi hexp => ?_⟩
  refine h.guarded e he hi ?_
  obtain ⟨d, hd, hlt, hk⟩ := hexp
  refine ⟨d, ?_, hlt, hk⟩
  dsimp only at hd
  split at hd
  · rcases List.mem_append.mp hd with hd | hd
    · exact hd
    · obtain rfl : d = ⟨s.published, frame⟩ := by simpa using hd
      have := h.below e (mem_accepted_of_ahead he)
      exact absurd hlt (by simp; omega)
  · exact hd

/-- An accepted frame is exposed only if the writer is quiet. -/
theorem inv_accept {s : RecorderQueue} (h : s.Inv) {frame : MediaFrame}
    (hquiet : frame.type = .Video → frame.keyframe = false → s.Broken → s.Quiet) :
    Inv { s with
      published := s.published + 1
      queue := s.queue ++ [⟨s.published, frame⟩] } := by
  generalize ht : ({ s with
      published := s.published + 1
      queue := s.queue ++ [⟨s.published, frame⟩] } : RecorderQueue) = t
  have hahead : t.ahead = s.ahead ++ [⟨s.published, frame⟩] := by
    rw [← ht]
    simp [ahead, current]
  have hacc : t.accepted = s.accepted ++ [⟨s.published, frame⟩] := by
    rw [accepted, accepted, hahead, ← ht, List.append_assoc]
  have hrec : t.recorder = s.recorder := by rw [← ht]
  have hdrop : t.dropped = s.dropped := by rw [← ht]
  refine ⟨?_, ?_, ?_⟩
  · rw [hacc, List.pairwise_append]
    refine ⟨h.sorted, List.pairwise_singleton _ _, fun a ha b hb => ?_⟩
    obtain rfl : b = ⟨s.published, frame⟩ := by simpa using hb
    exact h.below a ha
  · rw [hacc, ← ht]
    intro e he
    rcases List.mem_append.mp he with he | he
    · exact Nat.lt_succ_of_lt (h.below e he)
    · obtain rfl : e = ⟨s.published, frame⟩ := by simpa using he
      exact Nat.lt_succ_self _
  · rw [hahead, hrec]
    rintro e he hi ⟨d, hd, hlt, hk⟩
    rw [hdrop] at hd
    rw [hacc] at hk
    rcases List.mem_append.mp he with he | he
    · -- the frame at the end of the queue is behind this one
      obtain ⟨ha, hp, hkeys⟩ := h.guarded e he hi
        ⟨d, hd, hlt, fun k hkm => hk k (List.mem_append_left _ hkm)⟩
      refine ⟨ha, hp, fun k hkm hkey => ?_⟩
      rcases List.mem_append.mp hkm with hkm | hkm
      · exact hkeys k hkm hkey
      · obtain rfl : k = ⟨s.published, frame⟩ := by simpa using hkm
        exact h.below e (mem_accepted_of_ahead he)
    · obtain rfl : e = ⟨s.published, frame⟩ := by simpa using he
      rw [Entry.inter_iff] at hi
      obtain ⟨ha, hp, hkeys⟩ := hquiet hi.1 hi.2
        ⟨d, hd, fun k hkm hkey => hk k (List.mem_append_left _ hkm) hkey (h.below k hkm)⟩
      refine ⟨ha, hp, fun k hkm hkey => ?_⟩
      rcases List.mem_append.mp hkm with hkm | hkm
      · exact absurd hkey (by simp [hkeys k hkm])
      · obtain rfl : k = ⟨s.published, frame⟩ := by simpa using hkm
        exact absurd hkey (by simp [Entry.key, hi.2])

/-- The frame at hand is no keyframe if an exposed inter frame is behind it. -/
theorem inv_process {s : RecorderQueue} (h : s.Inv) {c : Entry} (hc : s.writer = .processing c)
    (env : Env) :
    Inv { s with
      recorder := s.recorder.processFrame env c.frame
      writer := .waiting
      processed := s.processed ++ [c] } := by
  have hahead : s.ahead = c :: s.queue := by simp [ahead, current, hc]
  generalize ht : ({ s with
      recorder := s.recorder.processFrame env c.frame
      writer := .waiting
      processed := s.processed ++ [c] } : RecorderQueue) = t
  have hacc : t.accepted = s.accepted := by
    rw [accepted, accepted, hahead, ← ht]
    simp [ahead, current]
  have hqueue : t.ahead = s.queue := by
    rw [← ht]
    simp [ahead, current]
  refine ⟨hacc ▸ h.sorted, ?_, ?_⟩
  · rw [hacc, ← ht]
    exact h.below
  · rw [hqueue]
    rintro e he hi ⟨d, hd, hlt, hk⟩
    rw [hacc] at hk
    rw [← ht] at hd
    obtain ⟨ha, hp, hkeys⟩ := h.guarded e (by simp [hahead, he]) hi ⟨d, hd, hlt, hk⟩
    have hce : c.index < e.index := by
      have hsorted := (List.pairwise_append.mp h.sorted).2.1
      rw [hahead] at hsorted
      exact (List.pairwise_cons.mp hsorted).1 e he
    -- every keyframe that is still ahead comes behind the entry
    have hinter : c.frame.type = .Video → c.frame.keyframe = false := by
      intro hvideo
      by_contra hkey
      have := hkeys c (by simp [hahead]) (by simpa [Entry.key, hvideo] using hkey)
      omega
    obtain ⟨ha', hp'⟩ := processFrame_quiet ha hp hinter env
    rw [← ht]
    exact ⟨ha', hp', fun k hkm => hkeys k (by simp [hahead, hkm])⟩

/-- The writer leaves its loop when nothing is left to process. -/
theorem inv_leave {s : RecorderQueue} (h : s.Inv) (hw : s.writer = .waiting)
    (hq : s.queue = []) (env : Env) :
    Inv { s with recorder := s.recorder.endWriter env, writer := .ended } := by
  have hahead : s.ahead = [] := by simp [ahead, current, hw, hq]
  refine ⟨?_, ?_, fun e he => absurd he (by simp [ahead, current, hq])⟩
  · have := h.sorted
    rw [accepted, hahead] at this
    simpa [accepted, ahead, current, hq] using this
  · have := h.below
    rw [accepted, hahead] at this
    simpa [accepted, ahead, current, hq] using this

theorem inv_step {s t : RecorderQueue} {l : Label} (h : s.Inv) (hl : s.Paced l)
    (hstep : s.step l = some t) : t.Inv := by
  cases l with
  | onFrame frame early =>
    cases frame with
    | none =>
      obtain rfl := Option.some_inj.mp hstep
      exact h
    | some frame =>
      rw [step] at hstep
      split at hstep
      case isTrue =>
        obtain rfl := Option.some_inj.mp hstep
        exact h
      case isFalse hgo =>
        obtain rfl := Option.some_inj.mp hstep
        rw [onFrame]
        split
        · exact h
        · dsimp only
          split
          · exact inv_drop h frame true
          · rename_i hroom
            exact inv_accept h (hl (by simpa using hgo) (by simpa [full] using hroom))
  | stop =>
    obtain rfl := Option.some_inj.mp hstep
    exact h.congr rfl rfl rfl rfl rfl
  | pop =>
    rw [step] at hstep
    split at hstep
    case h_1 e rest hw hq =>
      obtain rfl := Option.some_inj.mp hstep
      -- the entry moves from the queue to the writer
      refine h.congr rfl ?_ rfl rfl rfl
      simp [ahead, current, hw, hq]
    case h_2 => exact absurd hstep (by simp)
  | process env =>
    rw [step] at hstep
    split at hstep
    case h_1 c hc =>
      obtain rfl := Option.some_inj.mp hstep
      exact inv_process h hc env
    case h_2 => exact absurd hstep (by simp)
  | leave env =>
    rw [step] at hstep
    split at hstep
    case isTrue hidle =>
      exact Option.some_inj.mp hstep ▸ inv_leave h hidle.1 hidle.2.1 env
    case isFalse => exact absurd hstep (by simp)

/-- The frame at hand is the oldest one that is left. -/
theorem Inv.current_le {s : RecorderQueue} (h : s.Inv) {e k : Entry} (he : e ∈ s.current)
    (hk : k ∈ s.ahead) : e.index ≤ k.index := by
  have hsorted := (List.pairwise_append.mp h.sorted).2.1
  rw [current] at he
  split at he
  case h_1 c hc =>
    obtain rfl : e = c := by simpa using he
    rw [ahead, current, hc] at hsorted hk
    rcases List.mem_cons.mp hk with rfl | hk
    · exact Nat.le_refl _
    · exact Nat.le_of_lt ((List.pairwise_cons.mp hsorted).1 k hk)
  case h_2 => exact absurd he (by simp)

/-- The writer is quiet when it comes to an inter frame behind an open drop. -/
theorem noStrayInter_of_inv {s : RecorderQueue} (h : s.Inv) (l : Label) : s.NoStrayInter l := by
  cases l with
  | process env =>
    rintro e he hi ⟨d, hd, hlt, hkeys⟩
    -- the keyframes accepted before the frame have all been processed
    have hexp : s.Exposed e := by
      refine ⟨d, hd, hlt, fun k hkm hkey hke => ?_⟩
      rcases List.mem_append.mp hkm with hkm | hkm
      · exact hkeys k hkm hkey
      · have hle := h.current_le he hkm
        omega
    have hquiet := h.guarded e (List.mem_append_left _ he) hi hexp
    obtain ⟨hvideo, hkey⟩ := Entry.inter_iff.mp hi
    rw [processFrame_inter hquiet.1 hvideo hkey]
  | _ => trivial

/-- **In a paced run no inter frame is written behind an open drop.** -/
theorem noStrayInter_of_paced (recorder : Recorder) {ls : List Label}
    (h : Along step Paced (start recorder) ls) :
    Along step NoStrayInter (start recorder) ls :=
  along_imp (fun _ _ _ hs hl => inv_step hs hl) (fun _ l hs _ => noStrayInter_of_inv hs l)
    (inv_start recorder) h

/-- After a drop the queue takes a keyframe first, and then an inter frame. -/
theorem keyframe_after_drop :
    Along step NoStrayInter (start (.new ⟨{ maxPendingFrames := 1 }, [], .empty, "", [], []⟩))
      [.onFrame (some (.video 1 .Key 0 4)) false, .onFrame (some (.video 2 .Inter 40 4)) false,
        .pop, .process .sample, .onFrame (some (.video 3 .Key 80 4)) false, .pop,
        .process .sample, .onFrame (some (.video 4 .Inter 120 4)) false, .pop,
        .process .sample] :=
  noStrayInter_of_paced _ (by decide)

/-- The queue of one frame drops the second inter frame; the third one is
written right after the first. -/
theorem inter_after_drop :
    ¬ Along step NoStrayInter (start (.new ⟨{ maxPendingFrames := 1 }, [], .empty, "", [], []⟩))
      [.onFrame (some (.video 1 .Key 0 4)) false, .pop, .process .sample,
        .onFrame (some (.video 2 .Inter 40 4)) false,
        .onFrame (some (.video 3 .Inter 80 4)) false, .pop, .process .sample,
        .onFrame (some (.video 4 .Inter 120 4)) false, .pop, .process .sample] := by
  decide

end RecorderQueue

end IpcMini
