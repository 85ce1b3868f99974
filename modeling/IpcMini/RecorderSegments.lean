/-
The video frames in the segments of a recording.

With every operation succeeding, a segment should hold one keyframe and the
video frames that were delivered right after it.  The exception is a keyframe
that is held back for the audio configuration: the video frames behind it are
dropped, but the segment that the configuration opens begins with that
keyframe, not with the next one.

* `Delivery` — a recorder and the video frames it was given;
* `Whole` — a segment is a keyframe and what was delivered right after it;
* `Inv` — the invariant: how the segments and the flags of the writer match;
* `StartsOver` — the first video frame after a stale release opens a segment of
  its own;
* **`segments_whole_iff`** — every segment is whole exactly when this is so;
* `late_configuration` — a run that splits a segment.
-/
import IpcMini.KeyRun
import IpcMini.Recorder
import IpcMini.Run

namespace IpcMini

open Interleaving History

/-- The video frames among the frames of a segment. -/
def videos (frames : List MediaFrame) : List MediaFrame :=
  frames.filter fun f => f.type = .Video

@[simp] theorem videos_nil : videos [] = [] := rfl

theorem videos_concat_video {f : MediaFrame} (hf : f.type = .Video) (frames : List MediaFrame) :
    videos (frames ++ [f]) = videos frames ++ [f] := by
  simp [videos, hf]

theorem videos_concat_audio {f : MediaFrame} (hf : f.type = .Audio) (frames : List MediaFrame) :
    videos (frames ++ [f]) = videos frames := by
  simp [videos, hf]

/-- A segment has video frames, and these are a keyframe and the frames that
were delivered right after it. -/
def Whole (delivered : List MediaFrame) (segment : File × List MediaFrame) : Prop :=
  videos segment.2 ≠ [] ∧ KeyRun MediaFrame.keyframe delivered (videos segment.2)

theorem Whole.append {delivered : List MediaFrame} {segment : File × List MediaFrame}
    (h : Whole delivered segment) (more : List MediaFrame) :
    Whole (delivered ++ more) segment :=
  ⟨h.1, h.2.append more⟩

namespace Recorder

/-! ### The muxer while a segment is open -/

/-- A segment is open, and the frames in it. -/
structure Writing (m : Muxer) (path : File) (frames : List MediaFrame) : Prop where
  session : m.session.isSome = true
  segment : m.segment = some (path, frames)

theorem Writing.segmentOpen {m : Muxer} {path : File} {frames : List MediaFrame}
    (h : Writing m path frames) : m.segmentOpen = true := by
  simp [Muxer.segmentOpen, h.session, h.segment]

theorem Writing.writeFrame {m : Muxer} {path : File} {frames : List MediaFrame}
    (h : Writing m path frames) (f : MediaFrame) :
    m.writeFrame f true = (true, { m with segment := some (path, frames ++ [f]) }) := by
  simp [Muxer.writeFrame, h.session, h.segment]

theorem Writing.closeSegment {m : Muxer} {path : File} {frames : List MediaFrame}
    (h : Writing m path frames) :
    m.closeSegment = { m with segment := none, closed := m.closed ++ [(path, frames)] } := by
  simp [Muxer.closeSegment, h.segment]

/-! ### The invariant -/

/-- How the segments and the flags of the writer match the delivered frames;
`stale` says that the open segment began with a keyframe that was not the newest
video frame, and that no other has been delivered since. -/
structure Inv (s : Recorder) (delivered : List MediaFrame) (stale : Bool) : Prop where
  closed : ∀ segment ∈ s.muxer.closed, Whole delivered segment
  /-- while the recorder waits for a keyframe no segment is open -/
  awaiting : s.awaitKeyframe = true → s.muxer.segment = none
  /-- otherwise one is open, which reaches up to the newest video frame or is stale -/
  writing : s.awaitKeyframe = false →
    s.formatsReady = true ∧ s.audioConfigReady = true ∧
      ∃ path frames, Writing s.muxer path frames ∧ Whole delivered (path, frames) ∧
        (stale = false → OpenRun MediaFrame.keyframe delivered (videos frames)) ∧
        (stale = true → (videos frames).getLast? ≠ delivered.getLast?)
  stale : stale = true → s.awaitKeyframe = false
  session : s.sessionReady = true → s.muxer.session.isSome = true
  /-- a keyframe is only held back while the recorder waits for one -/
  pending : ∀ key ∈ s.pendingKeyframe, s.awaitKeyframe = true ∧ s.formatsReady = true ∧
    key.type = .Video ∧ key.keyframe = true ∧ key ∈ delivered

/-- A waiting recorder stays as it is while frames are delivered that it drops. -/
theorem Inv.append {s : Recorder} {delivered : List MediaFrame} {stale : Bool}
    (h : Inv s delivered stale) (hs : s.awaitKeyframe = true) (more : List MediaFrame) :
    Inv s (delivered ++ more) false where
  closed := fun segment hseg => (h.closed segment hseg).append more
  awaiting := h.awaiting
  writing := fun hf => absurd hs (by simp [hf])
  stale := by simp
  session := h.session
  pending := fun key hkey => by
    obtain ⟨ha, hfr, hvideo, hk, hmem⟩ := h.pending key hkey
    exact ⟨ha, hfr, hvideo, hk, List.mem_append_left _ hmem⟩

/-- A keyframe is written to the segment that was just opened. -/
theorem inv_of_opened {s t : Recorder} {env : Env} {delivered : List MediaFrame} {key : MediaFrame}
    (h : Opened s t) (he : env.Succeeds)
    (hclosed : ∀ segment ∈ s.muxer.closed, Whole delivered segment)
    (hvideo : key.type = .Video) (hkey : key.keyframe = true) (hmem : key ∈ delivered) :
    Inv (writeFrame { t with pendingKeyframe := none, awaitKeyframe := false } env key)
      delivered (decide (delivered.getLast? ≠ some key)) := by
  obtain ⟨path, hpath⟩ := h.segment
  have hw : Writing t.muxer path [] := ⟨h.session, hpath⟩
  have hone : videos [key] = [key] := by simp [videos, hvideo]
  rw [writeFrame, he.frameWritten]
  dsimp only
  rw [hw.writeFrame]
  refine ⟨?_, fun hf => absurd hf (by simp), fun _ => ⟨h.formatsReady, h.audioConfigReady,
    path, [key], ⟨h.session, rfl⟩, ?_, ?_, ?_⟩, fun _ => rfl, fun _ => h.session, by simp⟩
  · intro segment hseg
    exact hclosed segment (h.closed ▸ hseg)
  · rw [Whole, hone]
    exact ⟨by simp, (List.singleton_infix_iff _ _).mpr hmem, by simpa using hkey⟩
  · rw [hone]
    intro hlast
    obtain ⟨pre, rfl⟩ : ∃ pre, delivered = pre ++ [key] :=
      ⟨delivered.dropLast, (List.dropLast_append_getLast? key (by simpa using hlast)).symm⟩
    exact openRun_key hkey
  · rw [hone]
    intro hlast heq
    exact absurd heq.symm (by simpa using hlast)

/-- An audio frame in the open segment is none of its video frames. -/
theorem Inv.writeAudio {s : Recorder} {env : Env} {delivered : List MediaFrame} {stale : Bool}
    {f : MediaFrame} (h : Inv s delivered stale) (he : env.Succeeds) (hf : f.type = .Audio)
    (hs : s.awaitKeyframe = false) : Inv (s.writeFrame env f) delivered stale := by
  obtain ⟨hfr, har, path, frames, hw, hwhole, hrun⟩ := h.writing hs
  have hm : (s.writeFrame env f).muxer =
      { s.muxer with segment := some (path, frames ++ [f]) } := by
    simp only [Recorder.writeFrame, he.frameWritten, hw.writeFrame]
  refine ⟨?_, fun ha => absurd ha (by simp [writeFrame, hs]), fun _ => ⟨hfr, har, path,
    frames ++ [f], ?_, ?_⟩, h.stale, fun _ => ?_, h.pending⟩
  · rw [hm]
    exact h.closed
  · exact ⟨by rw [hm]; exact hw.session, by rw [hm]⟩
  · rw [Whole, videos_concat_audio hf]
    exact ⟨hwhole, hrun⟩
  · rw [hm]
    exact hw.session

/-- The next video frame continues a segment that is not stale. -/
theorem Inv.write_video {s : Recorder} {env : Env} {delivered : List MediaFrame} {f : MediaFrame}
    (h : Inv s delivered false) (he : env.Succeeds) (hf : f.type = .Video)
    (hs : s.awaitKeyframe = false) : Inv (s.writeFrame env f) (delivered ++ [f]) false := by
  obtain ⟨hfr, har, path, frames, hw, hwhole, hrun, -⟩ := h.writing hs
  have hm : (s.writeFrame env f).muxer =
      { s.muxer with segment := some (path, frames ++ [f]) } := by
    simp only [Recorder.writeFrame, he.frameWritten, hw.writeFrame]
  have hgrown := (hrun rfl).concat hwhole.1 f
  refine ⟨?_, fun ha => absurd ha (by simp [writeFrame, hs]), fun _ => ⟨hfr, har, path,
    frames ++ [f], ?_, ?_, ?_, by simp⟩, by simp, fun _ => ?_, fun key hkey => ?_⟩
  · rw [hm]
    exact fun segment hseg => (h.closed segment hseg).append [f]
  · exact ⟨by rw [hm]; exact hw.session, by rw [hm]⟩
  · rw [Whole, videos_concat_video hf]
    exact ⟨by simp, hgrown.keyRun⟩
  · rw [videos_concat_video hf]
    exact fun _ => hgrown
  · rw [hm]
    exact hw.session
  · exact absurd (h.pending key hkey).1 (by simp [hs])

/-! ### Video frames -/

theorem inv_processAwaited {s : Recorder} {env : Env} {delivered : List MediaFrame}
    {stale : Bool} {f : MediaFrame} (h : Inv s delivered stale) (he : env.Succeeds)
    (hf : f.type = .Video) (hs : s.awaitKeyframe = true) :
    Inv (s.processAwaited env f) (delivered ++ [f]) false := by
  have hgrown := h.append hs [f]
  by_cases hk : f.keyframe = true
  · obtain ⟨captured, t, ht, hm, ha, hp, hr, -, -, hmono, hcap⟩ := formatsKnown_spec s env f
    -- the formats aside, nothing has changed yet
    have hinv : Inv t (delivered ++ [f]) false := by
      refine ⟨hm ▸ hgrown.closed, fun _ => hm ▸ hgrown.awaiting hs,
        fun hw => absurd (ha.trans hs) (by simp [hw]), by simp, fun hready => ?_,
        fun key hkey => ?_⟩
      · rw [hm]
        exact h.session (hr ▸ hready)
      · obtain ⟨-, hfr, hrest⟩ := hgrown.pending key (hp ▸ hkey)
        exact ⟨ha.trans hs, hmono hfr, hrest⟩
    rw [processAwaited, if_neg (by simp [hk]), ht]
    dsimp only
    by_cases hc : captured = true
    · rw [if_neg (by simp [hc])]
      by_cases hready : t.audioConfigReady = true
      · rw [if_neg (by simp [hready])]
        have hclosed : Closed t :=
          ⟨hinv.awaiting (ha.trans hs), hinv.session, hcap hc, hready⟩
        obtain ⟨u, hu, hopened⟩ := openNextSegment_of_succeeds hclosed he f
        rw [hu]
        dsimp only
        rw [if_neg (by simp)]
        have := inv_of_opened hopened he hinv.closed hf hk (by simp)
        rw [show decide ((delivered ++ [f]).getLast? ≠ some f) = false by simp] at this
        exact ⟨this.closed, this.awaiting, this.writing, by simp, this.session, this.pending⟩
      · -- the keyframe is held back
        rw [if_pos (by simp [hready])]
        refine ⟨hinv.closed, hinv.awaiting, hinv.writing, by simp, hinv.session,
          fun key hkey => ?_⟩
        obtain rfl : f = key := by simpa using hkey
        exact ⟨ha.trans hs, hcap hc, hf, hk, by simp⟩
    · rw [if_pos (by simp [hc])]
      exact hinv
  · rw [processAwaited, if_pos (by simp [hk])]
    exact hgrown

theorem inv_rotate {s : Recorder} {env : Env} {delivered : List MediaFrame} {stale : Bool}
    {f : MediaFrame} (h : Inv s delivered stale) (he : env.Succeeds) (hf : f.type = .Video)
    (hk : f.keyframe = true) (hs : s.awaitKeyframe = false) :
    Inv (s.rotateToNewSegment env f) (delivered ++ [f]) false := by
  obtain ⟨hfr, har, path, frames, hw, hold, -⟩ := h.writing hs
  have hpending : s.pendingKeyframe = none := by
    rw [Option.eq_none_iff_forall_not_mem]
    intro key hkey
    exact absurd (h.pending key hkey).1 (by simp [hs])
  generalize hc : { s.closeCurrentSegment env false with awaitKeyframe := false } = c
  have hm : c.muxer =
      { s.muxer with segment := none, closed := s.muxer.closed ++ [(path, frames)] } := by
    rw [← hc]
    simp only [closeCurrentSegment, if_pos hw.segmentOpen, hw.closeSegment]
  -- the segment that is closed is whole
  have hwhole : ∀ segment ∈ c.muxer.closed, Whole (delivered ++ [f]) segment := by
    rw [hm]
    intro segment hseg
    rcases List.mem_append.mp hseg with hseg | hseg
    · exact (h.closed segment hseg).append [f]
    · obtain rfl : segment = (path, frames) := by simpa using hseg
      exact hold.append [f]
  have hclosed : Closed c := by
    refine ⟨by rw [hm], fun _ => by rw [hm]; exact hw.session, ?_, ?_⟩
    · rw [← hc]
      exact hfr
    · rw [← hc]
      exact har
  obtain ⟨t, ht, hopened⟩ := openNextSegment_of_succeeds hclosed he f
  have hawait : t.awaitKeyframe = false := by rw [hopened.awaitKeyframe, ← hc]
  have hnone : t.pendingKeyframe = none := by
    rw [hopened.pendingKeyframe, ← hc]
    exact hpending
  obtain ⟨path', hpath'⟩ := hopened.segment
  have hwrite := Writing.writeFrame ⟨hopened.session, hpath'⟩ f
  have hinv := inv_of_opened hopened he hwhole hf hk (by simp)
  rw [show decide ((delivered ++ [f]).getLast? ≠ some f) = false by simp] at hinv
  rw [rotateToNewSegment]
  dsimp only
  rw [hc, ht]
  dsimp only
  rw [if_neg (by simp), he.frameWritten, hwrite, if_pos rfl]
  rw [writeFrame, he.frameWritten] at hinv
  dsimp only at hinv
  rw [hwrite] at hinv
  refine ⟨hinv.closed, fun ha => absurd ha (by simp [hawait]), fun _ => hinv.writing rfl,
    by simp, hinv.session, fun key hkey => ?_⟩
  rw [Option.mem_def] at hkey
  exact absurd (hnone.symm.trans hkey) (by simp)

/-- A video frame that starts over: the open segment is not stale, or the
frame opens another one. -/
def startsOver (s : Recorder) (stale : Bool) (f : MediaFrame) : Bool :=
  !stale || f.keyframe && s.shouldRotate f

theorem inv_process_video {s : Recorder} {env : Env} {delivered : List MediaFrame} {stale : Bool}
    {f : MediaFrame} (h : Inv s delivered stale) (he : env.Succeeds) (hf : f.type = .Video)
    (hover : s.startsOver stale f = true) :
    Inv (s.processFrame env f) (delivered ++ [f]) false := by
  rw [processFrame, hf]
  dsimp only
  cases hs : s.awaitKeyframe with
  | true =>
    rw [if_pos rfl]
    exact inv_processAwaited h he hf hs
  | false =>
    rw [if_neg (by simp)]
    split
    case isTrue hrotate =>
      rw [Bool.and_eq_true] at hrotate
      exact inv_rotate h he hf hrotate.1 hs
    case isFalse hrotate =>
      obtain rfl : stale = false := by simpa [startsOver, hrotate] using hover
      obtain ⟨-, -, path, frames, hw, -⟩ := h.writing hs
      rw [if_neg (by simp [hw.segmentOpen])]
      have := h.write_video he hf hs
      exact ⟨this.closed, this.awaiting, this.writing, by simp, this.session, this.pending⟩

/-- In a history without repetition any other video frame splits the segment. -/
theorem not_whole_of_stale {s : Recorder} {env : Env} {delivered : List MediaFrame} {stale : Bool}
    {f : MediaFrame} (h : Inv s delivered stale) (he : env.Succeeds) (hf : f.type = .Video)
    (hover : ¬ s.startsOver stale f = true) (hn : (delivered ++ [f]).Nodup) :
    ∃ segment ∈ (s.processFrame env f).muxer.segment, ¬ Whole (delivered ++ [f]) segment := by
  obtain ⟨hstale, hrotate⟩ : stale = true ∧ ¬ (f.keyframe && s.shouldRotate f) = true := by
    simpa [startsOver] using hover
  have hs := h.stale hstale
  obtain ⟨-, -, path, frames, hw, hwhole, -, hlast⟩ := h.writing hs
  have hm : (s.processFrame env f).muxer.segment = some (path, frames ++ [f]) := by
    rw [processFrame, hf]
    dsimp only
    rw [if_neg (by simp [hs]), if_neg hrotate, if_neg (by simp [hw.segmentOpen])]
    simp only [writeFrame, he.frameWritten, hw.writeFrame]
  refine ⟨_, hm, fun hsplit => ?_⟩
  have hrun := hsplit.2
  rw [videos_concat_video hf] at hrun
  -- the frames of the segment would end with the newest frame that was delivered
  obtain ⟨pre, hpre⟩ := (OpenRun.of_concat hn hrun hwhole.1).1
  rw [← hpre, List.getLast?_append_of_ne_nil _ hwhole.1] at hlast
  exact hlast hstale rfl

/-! ### Audio frames -/

/-- A keyframe is held back, and it is not the newest video frame. -/
def pendingStale (s : Recorder) (delivered : List MediaFrame) : Bool :=
  s.pendingKeyframe.any fun key => delivered.getLast? ≠ some key

theorem inv_learnConfig {s : Recorder} {env : Env} {delivered : List MediaFrame} {stale : Bool}
    (h : Inv s delivered stale) (he : env.Succeeds) (config : List UInt8) :
    Inv (s.learnConfig env config) delivered (stale || s.pendingStale delivered) := by
  rw [learnConfig]
  dsimp only
  split
  case h_1 key hkey hopen =>
    obtain ⟨hs, hfr, hvideo, hk, hmem⟩ := h.pending key hkey
    have hnot : stale = false := by
      by_contra hst
      exact absurd (h.stale (by simpa using hst)) (by simp [hs])
    obtain ⟨t, ht, hopened⟩ := openNextSegment_of_succeeds
      (s := { s with
        audioFormat := s.audioFormat.map fun a : AudioFormat => { a with extradata := config }
        audioConfigReady := true
        pendingKeyframe := none })
      ⟨h.awaiting hs, h.session, hfr, rfl⟩ he key
    rw [ht, hnot, Bool.false_or, pendingStale, hkey]
    dsimp only [Option.any_some]
    rw [if_pos rfl]
    have hinv := inv_of_opened hopened he h.closed hvideo hk hmem
    refine ⟨hinv.closed, hinv.awaiting, hinv.writing, hinv.stale, hinv.session,
      fun key' hkey' => ?_⟩
    exact absurd (hopened.pendingKeyframe.symm.trans hkey') (by simp)
  case h_2 hno =>
    -- no keyframe is held back: the segment would not be open
    have hnone : s.pendingKeyframe = none := by
      rw [Option.eq_none_iff_forall_not_mem]
      intro key hkey
      have hseg := h.awaiting (h.pending key hkey).1
      exact hno key hkey (by simp [Muxer.segmentOpen, hseg])
    rw [pendingStale, hnone, Option.any_none, Bool.or_false]
    exact ⟨h.closed, h.awaiting, fun hs => ⟨(h.writing hs).1, rfl, (h.writing hs).2.2⟩, h.stale,
      h.session, by simp⟩

/-- The audio frame completes the configuration that a keyframe is held back
for, and this is not the newest video frame. -/
def releasesStale (s : Recorder) (delivered : List MediaFrame) (env : Env) (f : MediaFrame) :
    Bool :=
  s.archive.config.audio && (s.learnedConfig env f).isSome && s.pendingStale delivered

theorem inv_processAudio {s : Recorder} {env : Env} {delivered : List MediaFrame} {stale : Bool}
    {f : MediaFrame} (h : Inv s delivered stale) (he : env.Succeeds) (hf : f.type = .Audio) :
    Inv (s.processFrame env f) delivered (stale || s.releasesStale delivered env f) := by
  rw [processFrame, hf]
  dsimp only
  rw [processAudio, releasesStale]
  -- what is left to do after the configuration is the write, if a segment is open
  have hwrite : ∀ (t : Recorder) (b : Bool), Inv t delivered b →
      Inv (if !t.muxer.segmentOpen || t.audioFormat.isNone || t.lacksConfig then t
        else t.writeFrame env f) delivered b := by
    intro t b hinv
    split
    case isTrue => exact hinv
    case isFalse hopen =>
      cases hs : t.awaitKeyframe with
      | true => simp [Muxer.segmentOpen, hinv.awaiting hs] at hopen
      | false => exact hinv.writeAudio he hf hs
  by_cases ha : s.archive.config.audio = true
  · rw [if_neg (by simp [ha])]
    cases hc : s.learnedConfig env f with
    | none =>
      rw [Option.isSome_none, Bool.and_false, Bool.false_and, Bool.or_false]
      exact hwrite s stale h
    | some config =>
      rw [ha, Option.isSome_some, Bool.true_and, Bool.true_and]
      exact hwrite _ _ (inv_learnConfig h he config)
  · rw [if_pos (by simp [ha])]
    simpa [ha] using h

/-! ### Runs -/

theorem inv_new (archive : Archive) : Inv (new archive) [] false :=
  ⟨by simp [new, Muxer.new], fun _ => rfl, by simp [new], by simp, by simp [new], by simp [new]⟩

end Recorder

/-- A recorder and what it was given: `stale` says that a keyframe that was not
the newest video frame was released, and no video frame has come since. -/
structure Delivery where
  recorder : Recorder
  delivered : List MediaFrame
  stale : Bool

/-- A call of `process_frame` in which every operation succeeds. -/
structure Call where
  frame : MediaFrame
  env : Env
  succeeds : env.Succeeds

namespace Delivery

def start (archive : Archive) : Delivery := ⟨.new archive, [], false⟩

def step (s : Delivery) (c : Call) : Option Delivery :=
  let recorder := s.recorder.processFrame c.env c.frame
  match c.frame.type with
  | .Video => some ⟨recorder, s.delivered ++ [c.frame], false⟩
  | .Audio =>
    some ⟨recorder, s.delivered,
      s.stale || s.recorder.releasesStale s.delivered c.env c.frame⟩

/-- Every segment, closed or open, is whole. -/
def SegmentsWhole (s : Delivery) : Prop :=
  (∀ segment ∈ s.recorder.muxer.closed, Whole s.delivered segment) ∧
    ∀ segment ∈ s.recorder.muxer.segment, Whole s.delivered segment

/-- The first video frame after a stale release opens a segment of its own. -/
def StartsOver (s : Delivery) (c : Call) : Prop :=
  c.frame.type = .Video → s.recorder.startsOver s.stale c.frame = true

theorem inv_step {s t : Delivery} {c : Call} (h : s.recorder.Inv s.delivered s.stale)
    (hc : s.StartsOver c) (hstep : s.step c = some t) : t.recorder.Inv t.delivered t.stale := by
  rw [step] at hstep
  cases hf : c.frame.type with
  | Video =>
    rw [hf] at hstep
    obtain rfl := Option.some_inj.mp hstep
    exact Recorder.inv_process_video h c.succeeds hf (hc hf)
  | Audio =>
    rw [hf] at hstep
    obtain rfl := Option.some_inj.mp hstep
    exact Recorder.inv_processAudio h c.succeeds hf

theorem segmentsWhole_of_inv {s : Delivery} (h : s.recorder.Inv s.delivered s.stale) :
    s.SegmentsWhole := by
  refine ⟨h.closed, fun segment hseg => ?_⟩
  cases hs : s.recorder.awaitKeyframe with
  | true => exact absurd hseg (by simp [h.awaiting hs])
  | false =>
    obtain ⟨-, -, path, frames, hw, hwhole, -⟩ := h.writing hs
    obtain rfl : (path, frames) = segment := by simpa [hw.segment] using hseg
    exact hwhole

/-- What was delivered are the video frames of the calls. -/
theorem delivered_of_run {archive : Archive} {calls : List Call} {s : Delivery}
    (hrun : run step (start archive) calls = some s) :
    s.delivered = videos (calls.map Call.frame) := by
  induction calls using List.reverseRecOn generalizing s with
  | nil =>
    obtain rfl : start archive = s := by simpa using hrun
    rfl
  | append_singleton calls c ih =>
    rw [run_append] at hrun
    obtain ⟨t, ht, hstep⟩ := Option.bind_eq_some_iff.mp hrun
    obtain ⟨u, hu, hnil⟩ := Option.bind_eq_some_iff.mp hstep
    obtain rfl : u = s := by simpa using hnil
    rw [step] at hu
    rw [List.map_append, List.map_singleton]
    cases hf : c.frame.type with
    | Video =>
      rw [hf] at hu
      obtain rfl := Option.some_inj.mp hu
      rw [videos_concat_video hf, ← ih ht]
    | Audio =>
      rw [hf] at hu
      obtain rfl := Option.some_inj.mp hu
      rw [videos_concat_audio hf, ← ih ht]

/-- Every segment is whole in every state that the calls reach. -/
def AlwaysWhole (archive : Archive) (calls : List Call) : Prop :=
  ∀ given s, given <+: calls → run step (start archive) given = some s → s.SegmentsWhole

/-- **The segments are whole exactly when every stale release is made good.**
When the first video frame after each stale release opens a segment of its own,
every segment is whole in every state; when the delivered frames are distinct
objects, only then. -/
theorem segments_whole_iff (archive : Archive) (calls : List Call) :
    (Along step StartsOver (start archive) calls → AlwaysWhole archive calls) ∧
    ((videos (calls.map Call.frame)).Nodup → AlwaysWhole archive calls →
      Along step StartsOver (start archive) calls) := by
  constructor
  · rintro h given s ⟨more, rfl⟩ hrun
    exact segmentsWhole_of_inv (run_invariant (fun _ _ _ h => inv_step h)
      (Recorder.inv_new archive) (along_append.mp h).1 hrun)
  · intro hn h
    induction calls using List.reverseRecOn with
    | nil => exact along_nil _
    | append_singleton calls c ih =>
      have hsplit : videos ((calls ++ [c]).map Call.frame) =
          videos (calls.map Call.frame) ++ videos [c.frame] := by simp [videos]
      have hal := ih (by rw [hsplit] at hn; exact (List.nodup_append.mp hn).1)
        fun given s hgiven => h given s (hgiven.trans (List.prefix_append _ _))
      refine along_append.mpr ⟨hal, fun s hs => ⟨fun hf => ?_, fun _ _ => along_nil _⟩⟩
      have hinv := run_invariant (fun _ _ _ h => inv_step h) (Recorder.inv_new archive) hal hs
      by_contra hover
      have hd := delivered_of_run hs
      obtain ⟨segment, hseg, hnot⟩ := Recorder.not_whole_of_stale hinv c.succeeds hf hover
        (by rw [hd]; simpa [videos, hf] using hn)
      have hwhole := h (calls ++ [c]) ⟨s.recorder.processFrame c.env c.frame,
        s.delivered ++ [c.frame], false⟩ List.prefix_rfl (by rw [run_concat hs, step, hf])
      exact hnot (hwhole.2 segment hseg)

/-! ### A late configuration -/

/-- A call with an AAC track whose configuration is not known yet. -/
def aacCall (frame : MediaFrame) : Call where
  frame := frame
  env := { Env.sample with
    audioTrack := some ⟨.AAC, 16000, 1, 16, []⟩
    specificConfig := some [20, 8] }
  succeeds := ⟨rfl, rfl, rfl, rfl, rfl, rfl, rfl⟩

/-- An ADTS frame. -/
def adts : MediaFrame where
  addr := 3
  type := .Audio
  codec := .AAC
  streamId := 0
  kind := .Audio
  codecConfig := false
  ptsMs := 60
  dtsMs := 60
  payload := [255, 241, 96, 64, 0, 255, 252]

/-- The first audio frame comes after an inter frame: the keyframe before it
opens the segment, and the inter frame is missing in it. -/
theorem late_configuration :
    ¬ AlwaysWhole ⟨{}, [], .empty, "", [], []⟩
      [aacCall (.video 1 .Key 0 4), aacCall (.video 2 .Inter 40 4), aacCall adts,
        aacCall (.video 4 .Inter 80 4)] := by
  intro h
  obtain ⟨-, hopen⟩ := h _ _ List.prefix_rfl rfl
  have := (hopen _ rfl).2.1
  exact absurd this (by decide)

end Delivery

end IpcMini
