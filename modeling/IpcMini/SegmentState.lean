/-
The recorder between two calls (`src/record/segment_recorder.cpp`).

The recorder and its muxer keep one state in six fields.  Between two calls
either no segment is open, and the recorder waits for a keyframe, or a segment
is open and playlist, session, media file and day agree, whatever failed in the
calls before.

* `Shut`, `Recording` — the fields without and with an open segment;
* `openNextSegment_spec` — from `Shut` an open ends in one of the two;
* `Turn` — what one call of `process_frame` can do;
* **`turn_processFrame`** — there is no fifth case;
* **`segment_state_agrees`** — the fields agree after any calls.
-/
import IpcMini.RecorderCalls
import IpcMini.SegmentSources

namespace IpcMini

open Archive

namespace Recorder

variable {s t : Recorder} {env : Env} {path : File}

/-! ### The two states -/

/-- The formats of the session's tracks are known. -/
def FormatsKnown (s : Recorder) : Prop :=
  s.formatsReady = true ∧ s.audioConfigReady = true

/-- A ready session has its playlist and its init file in the directory of the
current day. -/
def SessionAgrees (s : Recorder) : Prop :=
  s.sessionReady = true → s.archive.playlist.path = some (.index s.archive.currentDay) ∧
    s.muxer.session = some (.init s.archive.currentDay) ∧ s.FormatsKnown

/-- No segment is open. -/
structure Shut (s : Recorder) : Prop where
  segment : s.muxer.segment = none
  media : s.currentMediaPath = none
  session : s.SessionAgrees

/-- The segment at `path` is open, in the directory of the current day. -/
structure Recording (s : Recorder) (path : File) : Prop where
  media : s.currentMediaPath = some path
  day : path.day = s.archive.currentDay
  ready : s.sessionReady = true
  playlist : s.archive.playlist.path = some (.index s.archive.currentDay)
  session : s.muxer.session = some (.init s.archive.currentDay)
  formats : s.FormatsKnown
  segment : ∃ frames, s.muxer.segment = some (path, frames)

/-- No segment is open and the recorder waits for a keyframe. -/
def Idle (s : Recorder) : Prop := s.Shut ∧ s.awaitKeyframe = true

/-- A segment is open and the recorder takes every frame. -/
def Busy (s : Recorder) : Prop := (∃ path, s.Recording path) ∧ s.awaitKeyframe = false

theorem Shut.segmentOpen (h : s.Shut) : s.muxer.segmentOpen = false := by
  simp [Muxer.segmentOpen, h.segment]

theorem Recording.segmentOpen (h : s.Recording path) : s.muxer.segmentOpen = true := by
  obtain ⟨frames, hseg⟩ := h.segment
  simp [Muxer.segmentOpen, h.session, hseg]

/-- What touches neither the archive nor the session. -/
theorem Shut.congr (h : s.Shut) (ha : t.archive = s.archive) (hm : t.muxer = s.muxer)
    (hs : t.sessionReady = s.sessionReady)
    (hp : t.currentMediaPath = s.currentMediaPath)
    (hf : s.FormatsKnown → t.FormatsKnown) : t.Shut := by
  refine ⟨hm ▸ h.segment, hp.trans h.media, ?_⟩
  rw [SessionAgrees, hs, ha, hm]
  intro hready
  obtain ⟨hpath, hsession, hknown⟩ := h.session hready
  exact ⟨hpath, hsession, hf hknown⟩

theorem Recording.congr (h : s.Recording path) (ha : t.archive = s.archive)
    (hm : t.muxer.session = s.muxer.session) (hs : t.sessionReady = s.sessionReady)
    (hp : t.currentMediaPath = s.currentMediaPath) (hf : s.FormatsKnown → t.FormatsKnown)
    (hseg : ∃ frames, t.muxer.segment = some (path, frames)) : t.Recording path := by
  refine ⟨hp.trans h.media, ?_, hs.trans h.ready, ?_, ?_, hf h.formats, hseg⟩
  · rw [ha]
    exact h.day
  · rw [ha]
    exact h.playlist
  · rw [ha, hm]
    exact h.session

/-- Writing a frame leaves the segment open and the closed ones alone. -/
theorem Recording.write (h : s.Recording path) (frame : MediaFrame) (written : Bool) :
    (s.muxer.writeFrame frame written).2.session = s.muxer.session ∧
      (s.muxer.writeFrame frame written).2.closed = s.muxer.closed ∧
      ∃ frames, (s.muxer.writeFrame frame written).2.segment = some (path, frames) := by
  obtain ⟨frames, hseg⟩ := h.segment
  rw [Muxer.writeFrame, hseg]
  dsimp only
  split
  · exact ⟨rfl, rfl, _, rfl⟩
  · exact ⟨rfl, rfl, frames, hseg⟩

theorem Recording.writeFrame (h : s.Recording path) (env : Env) (frame : MediaFrame) :
    (s.writeFrame env frame).Recording path := by
  obtain ⟨hsession, -, hseg⟩ := h.write frame env.frameWritten
  exact h.congr rfl hsession rfl rfl id hseg

/-! ### Closing -/

/-- Closing the segment: the muxer has one closed segment more, and the day and
the playlist's path are left alone. -/
theorem Recording.close (h : s.Recording path) (env : Env) (endPlaylist : Bool) :
    (s.closeCurrentSegment env endPlaylist).Shut ∧
      ∃ segment, s.muxer.segment = some segment ∧
        (s.closeCurrentSegment env endPlaylist).muxer.closed =
          s.muxer.closed ++ [segment] := by
  obtain ⟨frames, hseg⟩ := h.segment
  have hopen := h.segmentOpen
  have hday : ∀ index ∈ s.archive.playlist.path, index.day = path.day := by
    intro index hi
    obtain rfl : File.index s.archive.currentDay = index := by simpa [h.playlist] using hi
    exact h.day.symm
  have hclose : Stays (fun _ => True) s.archive
      (s.archive.closeSegment path s.segmentDuration env.bytes) :=
    stays_closeSegment trivial hday _ _
  have hend := hclose.trans (stays_endPlaylist (A := fun _ => True) _)
  have hmuxer : (s.closeCurrentSegment env endPlaylist).muxer =
      { s.muxer with segment := none, closed := s.muxer.closed ++ [(path, frames)] } := by
    rw [closeCurrentSegment]
    dsimp only
    rw [if_pos hopen, Muxer.closeSegment, hseg]
  have harchive : (s.closeCurrentSegment env endPlaylist).archive.playlist.path =
        s.archive.playlist.path ∧
      (s.closeCurrentSegment env endPlaylist).archive.currentDay = s.archive.currentDay := by
    rw [closeCurrentSegment, hopen, h.media]
    dsimp only
    split
    · exact ⟨hend.path, hend.currentDay⟩
    · exact ⟨hclose.path, hclose.currentDay⟩
  refine ⟨⟨by rw [hmuxer], rfl, fun _ => ?_⟩, (path, frames), hseg, by rw [hmuxer]⟩
  rw [harchive.1, harchive.2, hmuxer]
  exact ⟨h.playlist, h.session, h.formats⟩

/-- Without an open segment there is nothing to close. -/
theorem Shut.close (h : s.Shut) (env : Env) (endPlaylist : Bool) :
    (s.closeCurrentSegment env endPlaylist).Shut ∧
      Same s (s.closeCurrentSegment env endPlaylist) := by
  have hmuxer := closeCurrentSegment_muxer h.segment env endPlaylist
  have hend := stays_endPlaylist (A := fun _ => True) s.archive
  have harchive : (s.closeCurrentSegment env endPlaylist).archive.playlist.path =
        s.archive.playlist.path ∧
      (s.closeCurrentSegment env endPlaylist).archive.currentDay = s.archive.currentDay := by
    rw [closeCurrentSegment, h.segmentOpen]
    dsimp only
    split
    · exact ⟨hend.path, hend.currentDay⟩
    · exact ⟨rfl, rfl⟩
  refine ⟨⟨by rw [hmuxer]; exact h.segment, rfl, fun hs => ?_⟩, by rw [hmuxer], rfl, rfl⟩
  rw [harchive.1, harchive.2, hmuxer]
  exact h.session hs

/-! ### Sessions -/

theorem startSession_of_none {m : Muxer} (h : m.segment = none) (init : File) (started : Bool) :
    m.startSession init started =
      (started, { m with session := if started then some init else none }) := by
  rw [Muxer.startSession, endSession_of_none h]
  cases started <;> rfl

/-- The playlist of a day is begun and lists the day. -/
theorem listed_day (a : Archive) (day : String) (rewritten : Bool) :
    ((a.beginPlaylist day rewritten).listDay day).playlist.path = some (.index day) ∧
      ((a.beginPlaylist day rewritten).listDay day).currentDay = day :=
  ⟨(works_listDay (A := fun _ => True) (works_beginPlaylist (A := fun _ => True) a day
    rewritten).2).2, currentDay_listDay _ _⟩

theorem Shut.endDay (h : s.Shut) (env : Env) :
    (s.endDay env).Shut ∧ Same s (s.endDay env) := by
  obtain ⟨hshut, hsame⟩ := h.close env true
  have hend := endSession_of_none hshut.segment
  rw [Recorder.endDay]
  dsimp only
  rw [hend]
  exact ⟨⟨hshut.segment, rfl, fun hs => absurd hs (by simp)⟩, hsame.closed, rfl, rfl⟩

theorem Shut.beginSession (h : s.Shut) (hs : s.sessionReady = false) (hf : s.FormatsKnown)
    (env : Env) (day : String) :
    (s.beginSession env day).2.Shut ∧ Same s (s.beginSession env day).2 ∧
      ((s.beginSession env day).1 = true → (s.beginSession env day).2.sessionReady = true) := by
  rw [Recorder.beginSession, startSession_of_none h.segment]
  dsimp only
  split
  · refine ⟨⟨h.segment, h.media, fun hr => absurd hr (by simp [hs])⟩, ⟨rfl, rfl, rfl⟩, ?_⟩
    simp
  next hstarted =>
    split
    · -- the muxer's session is ended again
      rw [endSession_of_none (by exact h.segment)]
      refine ⟨⟨h.segment, h.media, fun hr => absurd hr (by simp [hs])⟩, ⟨rfl, rfl, rfl⟩, ?_⟩
      simp
    · obtain ⟨hpath, hday⟩ := listed_day s.archive day env.playlistBegun
      refine ⟨⟨h.segment, h.media, fun _ => ?_⟩, ⟨rfl, rfl, rfl⟩, fun _ => rfl⟩
      rw [hpath, hday, if_pos (by simpa using hstarted)]
      exact ⟨rfl, rfl, hf⟩

theorem Shut.ensureSession (h : s.Shut) (env : Env) (keyframe : MediaFrame) :
    (s.ensureSession env keyframe).2.Shut ∧ Same s (s.ensureSession env keyframe).2 ∧
      ((s.ensureSession env keyframe).1 = true →
        (s.ensureSession env keyframe).2.sessionReady = true) := by
  rw [Recorder.ensureSession]
  split
  next hs => exact ⟨h, ⟨rfl, rfl, rfl⟩, fun _ => hs⟩
  next hs =>
    obtain ⟨captured, t, ht, hm, hawait, hpending, hr, ha, hp, -, hcaptured⟩ :=
      formatsKnown_spec s env keyframe
    have hnot : t.sessionReady = false := by simpa [hr] using hs
    have hshut : t.Shut := ⟨hm ▸ h.segment, hp.trans h.media, fun ht => absurd ht (by simp [hnot])⟩
    have hsame : Same s t := ⟨by rw [hm], hawait, hpending⟩
    rw [ht]
    dsimp only
    split
    · exact ⟨hshut, hsame, by simp⟩
    next hknown =>
      have hknown' : captured = true ∧ t.audioConfigReady = true := by simpa using hknown
      cases env.sessionPaths with
      | none => exact ⟨hshut, hsame, by simp⟩
      | some time =>
        obtain ⟨hb, hbsame, hready⟩ :=
          hshut.beginSession hnot ⟨hcaptured hknown'.1, hknown'.2⟩ env time.day
        exact ⟨hb, hsame.trans hbsame, hready⟩

theorem Shut.restartSession (h : s.Shut) (hs : s.sessionReady = true) (env : Env)
    (day : String) :
    (s.restartSession env day).2.Shut ∧ Same s (s.restartSession env day).2 := by
  obtain ⟨hshut, hsame⟩ := h.close env true
  rw [Recorder.restartSession, startSession_of_none hshut.segment]
  dsimp only
  split
  · exact ⟨⟨hshut.segment, rfl, fun hr => absurd hr (by simp)⟩, hsame.closed, rfl, rfl⟩
  next hstarted =>
    obtain ⟨hpath, hday⟩ := listed_day (s.closeCurrentSegment env true).archive day
      env.playlistRebegun
    refine ⟨⟨hshut.segment, rfl, fun _ => ?_⟩, hsame.closed, rfl, rfl⟩
    rw [hpath, hday, if_pos (by simpa using hstarted)]
    exact ⟨rfl, rfl, (h.session hs).2.2⟩

/-! ### Opening -/

/-- The open either fails and leaves no segment open, or the keyframe opens a
segment of the current day. -/
structure OpenResult (s : Recorder) (keyframe : MediaFrame) (r : Bool × Recorder) : Prop where
  same : Same s r.2
  failed : r.1 = false → r.2.Shut
  opened : r.1 = true → r.2.policyStartPtsMs = keyframe.ptsMs ∧ ∃ path, r.2.Recording path

theorem OpenResult.of_same {keyframe : MediaFrame} {r : Bool × Recorder} (h : Same s t)
    (hr : t.OpenResult keyframe r) : s.OpenResult keyframe r :=
  ⟨h.trans hr.same, hr.failed, hr.opened⟩

theorem Shut.openMedia (h : s.Shut) (hs : s.sessionReady = true) {time : LocalTime}
    (hday : s.archive.currentDay = time.day) (env : Env) (keyframe : MediaFrame) :
    s.OpenResult keyframe (s.openMedia env keyframe time) := by
  obtain ⟨hpath, hsession, hknown⟩ := h.session hs
  have hclose : s.muxer.closeSegment = s.muxer := by rw [Muxer.closeSegment, h.segment]
  rw [Recorder.openMedia, Muxer.openSegment, if_neg (by rw [hsession]; simp), hclose]
  cases env.segmentOpened with
  | false => exact ⟨⟨rfl, rfl, rfl⟩, fun _ => ⟨h.segment, h.media, h.session⟩, by simp⟩
  | true =>
    refine ⟨⟨rfl, rfl, rfl⟩, by simp, fun _ => ⟨rfl, nextMediaPath time env.suffix, ?_⟩⟩
    exact ⟨rfl, hday.symm, hs, hpath, hsession, hknown, [], rfl⟩

theorem openNextSegment_spec (h : s.Shut) (env : Env) (keyframe : MediaFrame) :
    s.OpenResult keyframe (s.openNextSegment env keyframe) := by
  rw [openNextSegment]
  cases env.dayPaths with
  | none => exact ⟨⟨rfl, rfl, rfl⟩, fun _ => h, by simp⟩
  | some time =>
    dsimp only
    -- the session of another day is ended first
    obtain ⟨c, hc, hcshut, hcsame⟩ : ∃ c, (if s.sessionReady &&
        decide (time.day ≠ s.archive.currentDay) then s.endDay env else s) = c ∧
        c.Shut ∧ Same s c := by
      split
      · exact ⟨_, rfl, h.endDay env⟩
      · exact ⟨s, rfl, h, rfl, rfl, rfl⟩
    rw [hc]
    obtain ⟨hshut, hsame, hready⟩ := hcshut.ensureSession env keyframe
    generalize c.ensureSession env keyframe = r at hshut hsame hready ⊢
    obtain ⟨ensured, t⟩ := r
    dsimp only at hshut hsame hready ⊢
    cases ensured with
    | false => exact ⟨hcsame.trans hsame, fun _ => hshut, by simp⟩
    | true =>
      rw [if_neg (by simp)]
      refine .of_same (hcsame.trans hsame) ?_
      by_cases hday : time.day ≠ t.archive.currentDay
      · -- midnight has passed since the session was ensured
        rw [if_pos hday]
        obtain ⟨hu, husame⟩ := hshut.restartSession (hready rfl) env time.day
        have hready' : (t.restartSession env time.day).1 = true → _ := sessionReady_of_restarted
        generalize t.restartSession env time.day = r at hu husame hready' ⊢
        obtain ⟨ok, u⟩ := r
        dsimp only at hu husame hready' ⊢
        cases ok with
        | false => exact ⟨husame, fun _ => hu, by simp⟩
        | true =>
          rw [if_neg (by simp)]
          obtain ⟨hs, hd⟩ := hready' rfl
          exact .of_same husame (hu.openMedia hs hd env keyframe)
      · rw [if_neg hday]
        dsimp only
        rw [if_neg (by simp)]
        exact hshut.openMedia (hready rfl) (not_not.mp hday).symm env keyframe

/-! ### Calls -/

/-- The keyframe that a call opens a segment with: its own frame, or the one that
was held back. -/
def opener (s : Recorder) (frame : MediaFrame) : Option MediaFrame :=
  match frame.type with
  | .Video => some frame
  | .Audio => s.pendingKeyframe

/-- A keyframe held back after the call was held back before, or is the call's
own frame. -/
def Holds (frame : MediaFrame) (s t : Recorder) : Prop :=
  ∀ key ∈ t.pendingKeyframe, key ∈ s.pendingKeyframe ∨ frame.type = .Video ∧ key = frame

/-- What a call with `frame` makes of the recorder. -/
inductive Turn (env : Env) (frame : MediaFrame) (s t : Recorder) : Prop
  /-- no segment is open before and after -/
  | waits (hs : s.Idle) (ht : t.Idle) (closed : t.muxer.closed = s.muxer.closed)
  /-- a segment is opened -/
  | opens (hs : s.Idle) (ht : t.Busy) (closed : t.muxer.closed = s.muxer.closed)
      (key : ∃ key ∈ s.opener frame, t.policyStartPtsMs = key.ptsMs)
  /-- the open segment goes on -/
  | goesOn (hs : s.Busy) (ht : t.Busy) (closed : t.muxer.closed = s.muxer.closed)
      (policy : t.policyStartPtsMs = s.policyStartPtsMs)
      (early : frame.type = .Video → frame.keyframe = true → s.shouldRotate frame = false)
  /-- the open segment is closed, and another one is opened if that succeeds -/
  | rotates (hs : s.Busy) (video : frame.type = .Video) (key : frame.keyframe = true)
      (due : s.shouldRotate frame = true)
      (closed : ∃ segment, s.muxer.segment = some segment ∧
        t.muxer.closed = s.muxer.closed ++ [segment])
      (ht : t.Idle ∧ ¬ env.Succeeds ∨ t.Busy ∧ t.policyStartPtsMs = frame.ptsMs)

theorem turn_learnConfig {frame : MediaFrame} (hf : frame.type = .Audio)
    (h : s.Idle) (env : Env) (config : List UInt8) :
    Turn env frame s (s.learnConfig env config) ∧ Holds frame s (s.learnConfig env config) := by
  obtain ⟨hshut, hawait⟩ := h
  rw [learnConfig]
  dsimp only
  split
  case h_1 key hkey hopen =>
    obtain ⟨hsame, hfailed, hopened⟩ := openNextSegment_spec (s := { s with
      audioFormat := s.audioFormat.map fun a : AudioFormat => { a with extradata := config }
      audioConfigReady := true
      pendingKeyframe := none }) (hshut.congr rfl rfl rfl rfl fun hk => ⟨hk.1, rfl⟩) env key
    generalize openNextSegment _ env key = r at hsame hfailed hopened ⊢
    obtain ⟨opened, t⟩ := r
    dsimp only at hsame hfailed hopened ⊢
    have hclosed : t.muxer.closed = s.muxer.closed := hsame.closed
    -- the keyframe that waited is used up, whether a segment opens or not
    have hpending : t.pendingKeyframe = none := hsame.pendingKeyframe
    cases opened with
    | false =>
      rw [if_neg (by simp)]
      exact ⟨.waits ⟨hshut, hawait⟩ ⟨hfailed rfl, hsame.awaitKeyframe.trans hawait⟩ hclosed,
        fun key hk => absurd hk (by simp [hpending])⟩
    | true =>
      obtain ⟨hpolicy, path, hrec⟩ := hopened rfl
      have hrec' : Recording { t with awaitKeyframe := false } path :=
        hrec.congr rfl rfl rfl rfl id hrec.segment
      have hwritten := (hrec'.write key env.frameWritten).2.1
      rw [if_pos rfl]
      refine ⟨.opens ⟨hshut, hawait⟩ ⟨⟨path, hrec'.writeFrame env key⟩, rfl⟩
        (hwritten.trans hclosed) ⟨key, ?_, hpolicy⟩, fun key hk => absurd hk ?_⟩
      · rw [opener, hf]
        exact hkey
      · show ¬ key ∈ t.pendingKeyframe
        simp [hpending]
  case h_2 =>
    exact ⟨.waits ⟨hshut, hawait⟩ ⟨hshut.congr rfl rfl rfl rfl fun hk => ⟨hk.1, rfl⟩, hawait⟩ rfl,
      fun _ => .inl⟩

/-- With a segment open the configuration changes the format only. -/
theorem busy_learnConfig (h : s.Busy) (env : Env) (config : List UInt8) :
    (s.learnConfig env config).Busy ∧
      (s.learnConfig env config).muxer = s.muxer ∧
      (s.learnConfig env config).policyStartPtsMs = s.policyStartPtsMs ∧
      (s.learnConfig env config).pendingKeyframe = s.pendingKeyframe := by
  obtain ⟨⟨path, hrec⟩, hawait⟩ := h
  have hopen := hrec.segmentOpen
  rw [learnConfig]
  dsimp only
  split
  case h_1 key hkey hno => exact absurd hno (by simp [hopen])
  case h_2 =>
    exact ⟨⟨⟨path, hrec.congr rfl rfl rfl rfl (fun hk => ⟨hk.1, rfl⟩) hrec.segment⟩, hawait⟩,
      rfl, rfl, rfl⟩

theorem Busy.writeFrame (h : s.Busy) (env : Env) (frame : MediaFrame) :
    (s.writeFrame env frame).Busy ∧ (s.writeFrame env frame).muxer.closed = s.muxer.closed := by
  obtain ⟨⟨path, hrec⟩, hawait⟩ := h
  exact ⟨⟨⟨path, hrec.writeFrame env frame⟩, hawait⟩, (hrec.write frame env.frameWritten).2.1⟩

/-- The write at the end of an audio call. -/
def writeAudio (s : Recorder) (env : Env) (frame : MediaFrame) : Recorder :=
  if !s.muxer.segmentOpen || s.audioFormat.isNone || s.lacksConfig then s
  else s.writeFrame env frame

theorem Idle.writeAudio (h : s.Idle) (env : Env) (frame : MediaFrame) :
    s.writeAudio env frame = s := by
  rw [Recorder.writeAudio, if_pos (by simp [h.1.segmentOpen])]

theorem Busy.writeAudio (h : s.Busy) (env : Env) (frame : MediaFrame) :
    (s.writeAudio env frame).Busy ∧ (s.writeAudio env frame).muxer.closed = s.muxer.closed ∧
      (s.writeAudio env frame).policyStartPtsMs = s.policyStartPtsMs := by
  rw [Recorder.writeAudio]
  split
  · exact ⟨h, rfl, rfl⟩
  · obtain ⟨hb, hc⟩ := h.writeFrame env frame
    exact ⟨hb, hc, rfl⟩

theorem pending_writeAudio (s : Recorder) (env : Env) (frame : MediaFrame) :
    (s.writeAudio env frame).pendingKeyframe = s.pendingKeyframe := by
  rw [writeAudio]
  split <;> rfl

theorem Turn.writeAudio {frame : MediaFrame} (h : Turn env frame s t)
    (hf : frame.type = .Audio) : Turn env frame s (t.writeAudio env frame) := by
  cases h with
  | waits hs ht closed =>
    rw [ht.writeAudio]
    exact .waits hs ht closed
  | opens hs ht closed key =>
    obtain ⟨hb, hc, hp⟩ := ht.writeAudio env frame
    refine .opens hs hb (hc.trans closed) ?_
    rw [hp]
    exact key
  | goesOn hs ht closed policy early =>
    obtain ⟨hb, hc, hp⟩ := ht.writeAudio env frame
    exact .goesOn hs hb (hc.trans closed) (hp.trans policy) early
  | rotates hs video => exact absurd (hf.symm.trans video) (by simp)

theorem turn_processAudio {frame : MediaFrame} (hf : frame.type = .Audio)
    (h : s.Idle ∨ s.Busy) (env : Env) :
    Turn env frame s (s.processAudio env frame) ∧ Holds frame s (s.processAudio env frame) := by
  have hearly : ∀ p : Prop, frame.type = .Video → p :=
    fun _ hv => absurd (hf.symm.trans hv) (by simp)
  have hsame : Turn env frame s s := by
    rcases h with hs | hs
    · exact .waits hs hs rfl
    · exact .goesOn hs hs rfl rfl (hearly _)
  -- the write comes last, whatever was learned
  have hlast : ∀ t : Recorder, Turn env frame s t ∧ Holds frame s t →
      Turn env frame s (t.writeAudio env frame) ∧ Holds frame s (t.writeAudio env frame) := by
    rintro t ⟨hturn, hholds⟩
    refine ⟨hturn.writeAudio hf, ?_⟩
    rw [Holds, pending_writeAudio]
    exact hholds
  rw [processAudio]
  split
  · exact ⟨hsame, fun _ => .inl⟩
  · cases s.learnedConfig env frame with
    | none => exact hlast s ⟨hsame, fun _ => .inl⟩
    | some config =>
      refine hlast (s.learnConfig env config) ?_
      rcases h with hs | hs
      · exact turn_learnConfig hf hs env config
      · obtain ⟨hb, hm, hp, hpending⟩ := busy_learnConfig hs env config
        refine ⟨.goesOn hs hb (by rw [hm]) hp (hearly _), ?_⟩
        rw [Holds, hpending]
        exact fun _ => .inl

theorem formatsKnown_of_known (h : s.FormatsKnown) (env : Env) (keyframe : MediaFrame) :
    s.formatsKnown env keyframe = (true, s) := by
  rw [formatsKnown, if_pos h.1]

theorem turn_processAwaited {frame : MediaFrame} (hf : frame.type = .Video) (h : s.Idle)
    (env : Env) :
    Turn env frame s (s.processAwaited env frame) ∧
      Holds frame s (s.processAwaited env frame) := by
  obtain ⟨captured, t, ht, hm, hta, hpending, hr, ha, hp, -, -⟩ := formatsKnown_spec s env frame
  have hknown : s.FormatsKnown → t.FormatsKnown := by
    intro hk
    rw [formatsKnown_of_known hk] at ht
    obtain ⟨-, rfl⟩ := Prod.mk.inj ht
    exact hk
  have hidle : t.Idle := ⟨h.1.congr ha hm hr hp hknown, hta.trans h.2⟩
  have hclosed : t.muxer.closed = s.muxer.closed := by rw [hm]
  have hholds : ∀ u : Recorder, u.pendingKeyframe = t.pendingKeyframe → Holds frame s u := by
    intro u hu key hkey
    rw [hu, hpending] at hkey
    exact .inl hkey
  rw [processAwaited, ht]
  dsimp only
  split
  · exact ⟨.waits h h rfl, fun _ => .inl⟩
  split
  · exact ⟨.waits h hidle hclosed, hholds t rfl⟩
  split
  · -- the keyframe is held back
    refine ⟨.waits h ⟨hidle.1.congr rfl rfl rfl rfl id, hidle.2⟩ hclosed, fun key hkey => ?_⟩
    obtain rfl : frame = key := by simpa using hkey
    exact .inr ⟨hf, rfl⟩
  obtain ⟨hsame, hfailed, hopened⟩ := openNextSegment_spec hidle.1 env frame
  generalize t.openNextSegment env frame = r at hsame hfailed hopened ⊢
  obtain ⟨opened, u⟩ := r
  dsimp only at hsame hfailed hopened ⊢
  cases opened with
  | false =>
    rw [if_pos (by simp)]
    exact ⟨.waits h ⟨hfailed rfl, hsame.awaitKeyframe.trans hidle.2⟩
      (hsame.closed.trans hclosed), hholds u hsame.pendingKeyframe⟩
  | true =>
    obtain ⟨hpolicy, path, hrec⟩ := hopened rfl
    have hrec' : Recording { u with pendingKeyframe := none, awaitKeyframe := false } path :=
      hrec.congr rfl rfl rfl rfl id hrec.segment
    have hwritten := (hrec'.write frame env.frameWritten).2.1
    have hwrite := hrec'.writeFrame env frame
    rw [if_neg (by simp)]
    refine ⟨.opens h ⟨⟨path, hwrite.congr rfl rfl rfl rfl id hwrite.segment⟩, rfl⟩
      (hwritten.trans (hsame.closed.trans hclosed)) ⟨frame, ?_, hpolicy⟩, fun key hkey => ?_⟩
    · rw [opener, hf]
      exact Option.mem_some_self frame
    · exact absurd hkey (by simp [writeFrame])

/-- With the formats known an open fails only where an operation does. -/
theorem opened_of_succeeds (h : s.Shut) (hs : s.sessionReady = true) (he : env.Succeeds)
    (keyframe : MediaFrame) : (s.openNextSegment env keyframe).1 = true := by
  obtain ⟨-, hsession, hknown⟩ := h.session hs
  have hclosed : Closed s := ⟨h.segment, fun _ => by rw [hsession]; rfl, hknown.1, hknown.2⟩
  obtain ⟨t, ht, -⟩ := openNextSegment_of_succeeds hclosed he keyframe
  rw [ht]

theorem turn_rotate {frame : MediaFrame} (h : s.Busy) (hf : frame.type = .Video)
    (hkey : frame.keyframe = true) (hdue : s.shouldRotate frame = true) (env : Env) :
    Turn env frame s (s.rotateToNewSegment env frame) ∧
      Holds frame s (s.rotateToNewSegment env frame) := by
  obtain ⟨⟨path, hrec⟩, hawait⟩ := h
  obtain ⟨hshut, segment, hseg, hclosed⟩ := hrec.close env false
  rw [rotateToNewSegment]
  dsimp only
  have hshut' : Shut { s.closeCurrentSegment env false with awaitKeyframe := false } :=
    hshut.congr rfl rfl rfl rfl id
  obtain ⟨hsame, hfailed, hopened⟩ := openNextSegment_spec hshut' env frame
  -- an environment that fails nowhere opens the segment
  have hsucceeds : env.Succeeds → _ := fun he => opened_of_succeeds hshut' hrec.ready he frame
  generalize openNextSegment _ env frame = r at hsame hfailed hopened hsucceeds ⊢
  obtain ⟨opened, t⟩ := r
  dsimp only at hsame hfailed hopened hsucceeds ⊢
  have htclosed : t.muxer.closed = s.muxer.closed ++ [segment] := hsame.closed.trans hclosed
  have hpending : t.pendingKeyframe = s.pendingKeyframe := hsame.pendingKeyframe
  have hholds : ∀ u : Recorder, u.pendingKeyframe = t.pendingKeyframe → Holds frame s u := by
    intro u hu key hkey
    rw [hu, hpending] at hkey
    exact .inl hkey
  cases opened with
  | false =>
    rw [if_pos (by simp)]
    exact ⟨.rotates ⟨⟨path, hrec⟩, hawait⟩ hf hkey hdue ⟨segment, hseg, htclosed⟩
      (.inl ⟨⟨(hfailed rfl).congr rfl rfl rfl rfl id, rfl⟩,
        fun he => absurd (hsucceeds he) (by simp)⟩), hholds _ rfl⟩
  | true =>
    obtain ⟨hpolicy, next, hnext⟩ := hopened rfl
    obtain ⟨hsession, hwritten, hframes⟩ := hnext.write frame env.frameWritten
    rw [if_neg (by simp)]
    generalize t.muxer.writeFrame frame env.frameWritten = r at hsession hwritten hframes ⊢
    obtain ⟨ok, muxer⟩ := r
    dsimp only at hsession hwritten hframes ⊢
    have hcongr : Recording { t with muxer := muxer } next :=
      hnext.congr rfl hsession rfl rfl id hframes
    refine ⟨.rotates ⟨⟨path, hrec⟩, hawait⟩ hf hkey hdue ⟨segment, hseg, ?_⟩
      (.inr ⟨⟨⟨next, ?_⟩, ?_⟩, ?_⟩), hholds _ ?_⟩
    · split <;> exact hwritten.trans htclosed
    · split
      · exact hcongr.congr rfl rfl rfl rfl id hframes
      · exact hcongr
    · split <;> exact hsame.awaitKeyframe
    · split <;> exact hpolicy
    · split <;> rfl

/-- **What a call of `process_frame` can do** to a recorder that is idle or busy. -/
theorem turn_processFrame (h : s.Idle ∨ s.Busy) (env : Env) (frame : MediaFrame) :
    Turn env frame s (s.processFrame env frame) ∧ Holds frame s (s.processFrame env frame) := by
  rw [processFrame]
  cases hf : frame.type with
  | Audio => exact turn_processAudio hf h env
  | Video =>
    rcases h with hs | hs
    · dsimp only
      rw [if_pos hs.2]
      exact turn_processAwaited hf hs env
    · dsimp only
      rw [if_neg (by simp [hs.2])]
      split
      next hrotate =>
        obtain ⟨hkey, hdue⟩ := Bool.and_eq_true_iff.mp hrotate
        exact turn_rotate hs hf hkey hdue env
      next hrotate =>
        have hearly : frame.keyframe = true → s.shouldRotate frame = false := by
          intro hkey
          simpa [hkey] using hrotate
        obtain ⟨⟨path, hrec⟩, hawait⟩ := hs
        rw [if_neg (by simp [hrec.segmentOpen])]
        have hwrite := hrec.writeFrame env frame
        exact ⟨.goesOn ⟨⟨path, hrec⟩, hawait⟩
          ⟨⟨path, hwrite.congr rfl rfl rfl rfl id hwrite.segment⟩, hawait⟩
          (hrec.write frame env.frameWritten).2.1 rfl fun _ => hearly, fun _ => .inl⟩

theorem Turn.idle_or_busy {frame : MediaFrame} (h : Turn env frame s t) : t.Idle ∨ t.Busy := by
  cases h with
  | waits _ ht => exact .inl ht
  | opens _ ht => exact .inr ht
  | goesOn _ ht => exact .inr ht
  | rotates _ _ _ _ _ ht => exact ht.imp And.left And.left

theorem idle_new (archive : Archive) : (new archive).Idle :=
  ⟨⟨rfl, rfl, fun h => absurd h (by simp [new])⟩, rfl⟩

/-- `process_frame` of the frames one after the other, with what the outside
answers in each call. -/
def processFrames (s : Recorder) (calls : List (Env × MediaFrame)) : Recorder :=
  calls.foldl (fun s call => s.processFrame call.1 call.2) s

theorem idle_or_busy_processFrames (h : s.Idle ∨ s.Busy) (calls : List (Env × MediaFrame)) :
    (s.processFrames calls).Idle ∨ (s.processFrames calls).Busy := by
  induction calls generalizing s with
  | nil => exact h
  | cons call calls ih => exact ih (turn_processFrame h call.1 call.2).1.idle_or_busy

/-- **The fields agree after any calls.**  A segment is open exactly when there
is a media path and exactly when the recorder does not wait for a keyframe; and
then media path, current day and playlist are of one day, the session is ready,
and the muxer's session, which writes the segment at the media path, wrote the
init file of that day. -/
theorem segment_state_agrees (archive : Archive) (calls : List (Env × MediaFrame)) :
    let s := (new archive).processFrames calls
    (s.muxer.segmentOpen = true ↔ s.currentMediaPath ≠ none) ∧
    (s.muxer.segmentOpen = true ↔ s.awaitKeyframe = false) ∧
    (s.muxer.segmentOpen = true → ∃ path, s.currentMediaPath = some path ∧
      path.day = s.archive.currentDay ∧
      s.archive.playlist.path.map File.day = some s.archive.currentDay ∧
      s.sessionReady = true ∧ s.muxer.session = some (.init path.day) ∧
      ∃ frames, s.muxer.segment = some (path, frames)) := by
  intro s
  rcases idle_or_busy_processFrames (.inl (idle_new archive)) calls with h | h
  · obtain ⟨hshut, hawait⟩ : s.Idle := h
    simp [hshut.segmentOpen, hshut.media, hawait]
  · obtain ⟨⟨path, hrec⟩, hawait⟩ : s.Busy := h
    refine ⟨by simp [hrec.segmentOpen, hrec.media], by simp [hrec.segmentOpen, hawait],
      fun _ => ⟨path, hrec.media, hrec.day, ?_, hrec.ready, ?_, hrec.segment⟩⟩
    · rw [hrec.playlist]
      rfl
    · rw [hrec.day]
      exact hrec.session

end Recorder

end IpcMini
