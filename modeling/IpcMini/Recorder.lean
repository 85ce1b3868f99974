/-
The writer of the segment recorder (`src/record/segment_recorder.cpp`).

`process_frame` takes the frames of one stream in order and decides what goes
to the muxer: nothing before a keyframe, and with AAC nothing before an ADTS
header has told the audio configuration, which holds a keyframe back
(`pendingKeyframe`).  A keyframe that is old enough starts a new segment.

* `Muxer` — the contract of `ICmafMuxer`, with the frames of each segment;
* `Env` — the answers of clock, disk, codec library and muxer in one call;
* `captureFormatsFromKeyframe`, `closeCurrentSegment`, `ensureSession`,
  `openNextSegment`, `rotateToNewSegment`, `processFrame`;
* **`openNextSegment_of_succeeds`** — with every operation succeeding a
  segment is opened and no other is touched.
-/
import Mathlib.Tactic.Common
import IpcMini.Archive
import IpcMini.MediaFrame

namespace IpcMini

/-! ### The muxer -/

/-- A muxer between two calls: the session's init file, the open segment and
the closed ones, with the frames written to them. -/
structure Muxer where
  session : Option File
  segment : Option (File × List MediaFrame)
  closed : List (File × List MediaFrame)
  deriving DecidableEq, Repr

namespace Muxer

def new : Muxer := ⟨none, none, []⟩

def segmentOpen (m : Muxer) : Bool := m.session.isSome && m.segment.isSome

def closeSegment (m : Muxer) : Muxer :=
  match m.segment with
  | some seg => { m with segment := none, closed := m.closed ++ [seg] }
  | none => m

def endSession (m : Muxer) : Muxer := { m.closeSegment with session := none }

def startSession (m : Muxer) (init : File) (started : Bool) : Bool × Muxer :=
  if started then (true, { m.endSession with session := some init }) else (false, m.endSession)

def openSegment (m : Muxer) (path : File) (opened : Bool) : Bool × Muxer :=
  if m.session = none then (false, m)
  else if opened then (true, { m.closeSegment with segment := some (path, []) })
  else (false, m.closeSegment)

def writeFrame (m : Muxer) (frame : MediaFrame) (written : Bool) : Bool × Muxer :=
  match m.segment with
  | some (path, frames) =>
    if m.session.isSome && written then
      (true, { m with segment := some (path, frames ++ [frame]) })
    else (false, m)
  | none => (false, m)

end Muxer

/-! ### The recorder -/

/-- `media::VideoFormat`. -/
structure VideoFormat where
  codec : Codec
  width : ℤ
  height : ℤ
  frameRate : ℤ
  extradata : List UInt8
  deriving DecidableEq, Repr

/-- `media::AudioFormat`. -/
structure AudioFormat where
  codec : Codec
  sampleRate : ℤ
  channels : ℤ
  bitsPerSample : ℤ
  extradata : List UInt8
  deriving DecidableEq, Repr

/-- The members of `SegmentRecorder` that its writer thread uses; the empty
`current_media_path_` and `pending_keyframe_` are `none`. -/
structure Recorder where
  archive : Archive
  muxer : Muxer
  videoFormat : VideoFormat
  audioFormat : Option AudioFormat
  formatsReady : Bool
  awaitKeyframe : Bool
  audioConfigReady : Bool
  sessionReady : Bool
  pendingKeyframe : Option MediaFrame
  currentMediaPath : Option File
  segmentStartPtsMs : ℤ
  segmentLastPtsMs : ℤ
  /-- `segment_start_pts_ms_` of the `DurationSegmentPolicy` -/
  policyStartPtsMs : ℤ
  deriving DecidableEq, Repr

/-- What the outside answers in one call of `process_frame`. -/
structure Env where
  /-- the video track: width, height and frame rate -/
  videoTrack : Option (ℤ × ℤ × ℤ)
  audioTrack : Option AudioFormat
  /-- the decoder configuration record of the keyframe at hand -/
  decoderConfig : Option (List UInt8)
  /-- the audio specific configuration, if the audio frame has an ADTS header -/
  specificConfig : Option (List UInt8)
  /-- the local time of `make_day_paths` in `open_next_segment`, if it succeeds -/
  dayPaths : Option LocalTime
  /-- and in `ensure_session` -/
  sessionPaths : Option LocalTime
  /-- `start_session` and `HlsPlaylist::begin` in `ensure_session` -/
  sessionStarted : Bool
  playlistBegun : Bool
  /-- `start_session` and `HlsPlaylist::begin` in `open_next_segment` -/
  sessionRestarted : Bool
  playlistRebegun : Bool
  /-- `next_media_path`: the number it appends to the stamp -/
  suffix : Option ℕ
  segmentOpened : Bool
  frameWritten : Bool
  /-- `stat` of the media file that is closed -/
  bytes : ℕ
  deriving DecidableEq, Repr

namespace Recorder

/-- `capture_formats_from_keyframe`. -/
def captureFormatsFromKeyframe (s : Recorder) (env : Env) (keyframe : MediaFrame) :
    Bool × Recorder :=
  if !keyframe.keyframe || decide (keyframe.type ≠ .Video) then (false, s)
  else
    match env.videoTrack with
    | none => (false, s)
    | some (width, height, frameRate) =>
      let s := { s with videoFormat := ⟨keyframe.codec, width, height, frameRate, []⟩ }
      if keyframe.codec ≠ .H264 ∧ keyframe.codec ≠ .H265 then (false, s)
      else
        match env.decoderConfig with
        | none => (false, s)
        | some extradata =>
          let s := { s with videoFormat := { s.videoFormat with extradata := extradata } }
          let audioFormat :=
            if s.archive.config.audio then
              env.audioTrack.filter fun a =>
                a.codec = .AAC || a.codec = .G711U || a.codec = .G711A
            else none
          (true, { s with
            audioFormat := audioFormat
            audioConfigReady := !audioFormat.any fun a => a.codec = .AAC && a.extradata.isEmpty
            formatsReady := true })

/-- The duration that `close_current_segment` computes. -/
def segmentDuration (s : Recorder) : ℚ :=
  let duration : ℚ :=
    if 0 ≤ s.segmentStartPtsMs ∧ s.segmentStartPtsMs ≤ s.segmentLastPtsMs then
      ((s.segmentLastPtsMs - s.segmentStartPtsMs : ℤ) : ℚ) / 1000
    else 0
  if duration < 1 / 1000 then (s.archive.config.segmentSec : ℚ) else duration

/-- `close_current_segment`. -/
def closeCurrentSegment (s : Recorder) (env : Env) (endPlaylist : Bool) : Recorder :=
  let archive :=
    match s.muxer.segmentOpen, s.currentMediaPath with
    | true, some path => s.archive.closeSegment path s.segmentDuration env.bytes
    | _, _ => s.archive
  { s with
    archive := if endPlaylist then archive.endPlaylist else archive
    muxer := if s.muxer.segmentOpen then s.muxer.closeSegment else s.muxer
    currentMediaPath := none
    segmentStartPtsMs := -1
    segmentLastPtsMs := -1 }

/-- The formats are known, or captured from the keyframe. -/
def formatsKnown (s : Recorder) (env : Env) (keyframe : MediaFrame) : Bool × Recorder :=
  if s.formatsReady then (true, s) else s.captureFormatsFromKeyframe env keyframe

/-- The end of `ensure_session`: the session of a day starts. -/
def beginSession (s : Recorder) (env : Env) (day : String) : Bool × Recorder :=
  let (started, muxer) := s.muxer.startSession (.init day) env.sessionStarted
  if !started then (false, { s with muxer := muxer })
  else
    let archive := s.archive.beginPlaylist day env.playlistBegun
    if !env.playlistBegun then
      (false, { s with archive := archive, muxer := muxer.endSession })
    else (true, { s with archive := archive.listDay day, muxer := muxer, sessionReady := true })

/-- `ensure_session`. -/
def ensureSession (s : Recorder) (env : Env) (keyframe : MediaFrame) : Bool × Recorder :=
  if s.sessionReady then (true, s)
  else
    let (captured, s) := s.formatsKnown env keyframe
    if !captured || !s.audioConfigReady then (false, s)
    else
      match env.sessionPaths with
      | none => (false, s)
      | some time => s.beginSession env time.day

/-- The end of `open_next_segment`. -/
def openMedia (s : Recorder) (env : Env) (keyframe : MediaFrame) (time : LocalTime) :
    Bool × Recorder :=
  let path := nextMediaPath time env.suffix
  let (opened, muxer) := s.muxer.openSegment path env.segmentOpened
  let s := { s with muxer := muxer }
  if !opened then (false, s)
  else
    (true, { s with
      archive := { s.archive with mediaFiles := s.archive.mediaFiles ++ [path] }
      currentMediaPath := some path
      segmentStartPtsMs := keyframe.ptsMs
      segmentLastPtsMs := keyframe.ptsMs
      policyStartPtsMs := keyframe.ptsMs })

/-- `open_next_segment` on another day than the current one: the session ends. -/
def endDay (s : Recorder) (env : Env) : Recorder :=
  let s := s.closeCurrentSegment env true
  { s with
    muxer := s.muxer.endSession
    sessionReady := false
    archive := { s.archive with currentDay := "" } }

/-- `open_next_segment` when midnight has passed between its two
`make_day_paths`. -/
def restartSession (s : Recorder) (env : Env) (day : String) : Bool × Recorder :=
  let s := s.closeCurrentSegment env true
  let (started, muxer) := s.muxer.startSession (.init day) env.sessionRestarted
  if !started then (false, { s with muxer := muxer, sessionReady := false })
  else
    (true, { s with
      muxer := muxer
      archive := (s.archive.beginPlaylist day env.playlistRebegun).listDay day
      sessionReady := true })

/-- `open_next_segment`. -/
def openNextSegment (s : Recorder) (env : Env) (keyframe : MediaFrame) : Bool × Recorder :=
  match env.dayPaths with
  | none => (false, s)
  | some time =>
    let day := time.day
    let s := if s.sessionReady && decide (day ≠ s.archive.currentDay) then s.endDay env else s
    let (ensured, s) := s.ensureSession env keyframe
    if !ensured then (false, s)
    else
      let (ready, s) :=
        if day ≠ s.archive.currentDay then s.restartSession env day else (true, s)
      if !ready then (false, s) else s.openMedia env keyframe time

/-- `muxer_->write_frame`. -/
def writeFrame (s : Recorder) (env : Env) (frame : MediaFrame) : Recorder :=
  { s with muxer := (s.muxer.writeFrame frame env.frameWritten).2 }

/-- `rotate_to_new_segment`. -/
def rotateToNewSegment (s : Recorder) (env : Env) (keyframe : MediaFrame) : Recorder :=
  let s := { s.closeCurrentSegment env false with awaitKeyframe := false }
  let (opened, s) := s.openNextSegment env keyframe
  if !opened then { s with awaitKeyframe := true }
  else
    let (ok, muxer) := s.muxer.writeFrame keyframe env.frameWritten
    let s := { s with muxer := muxer }
    if ok then { s with segmentLastPtsMs := keyframe.ptsMs } else s

/-- `DurationSegmentPolicy::should_rotate`. -/
def shouldRotate (s : Recorder) (keyframe : MediaFrame) : Bool :=
  let segmentMs : ℤ :=
    if 0 < s.archive.config.segmentSec then s.archive.config.segmentSec * 1000 else 300000
  if s.policyStartPtsMs < 0 then false
  else decide (segmentMs ≤ keyframe.ptsMs - s.policyStartPtsMs)

/-- The audio format is AAC and its configuration is not known yet. -/
def lacksConfig (s : Recorder) : Bool :=
  s.audioFormat.any fun a => a.codec = .AAC && a.extradata.isEmpty

/-- The configuration that an audio frame completes the format with. -/
def learnedConfig (s : Recorder) (env : Env) (frame : MediaFrame) : Option (List UInt8) :=
  if s.lacksConfig && decide (7 ≤ frame.size) then
    env.specificConfig.filter fun config => !config.isEmpty
  else none

/-- `process_frame` up to the write, when an ADTS header has told the audio
configuration. -/
def learnConfig (s : Recorder) (env : Env) (config : List UInt8) : Recorder :=
  let s := { s with
    audioFormat := s.audioFormat.map fun a : AudioFormat => { a with extradata := config }
    audioConfigReady := true }
  match s.pendingKeyframe, s.muxer.segmentOpen with
  | some key, false =>
    let (opened, s) := openNextSegment { s with pendingKeyframe := none } env key
    if opened then writeFrame { s with awaitKeyframe := false } env key else s
  | _, _ => s

/-- `process_frame` of an audio frame. -/
def processAudio (s : Recorder) (env : Env) (frame : MediaFrame) : Recorder :=
  if !s.archive.config.audio then s
  else
    let s :=
      match s.learnedConfig env frame with
      | some config => s.learnConfig env config
      | none => s
    if !s.muxer.segmentOpen || s.audioFormat.isNone || s.lacksConfig then s
    else s.writeFrame env frame

/-- `process_frame` of a video frame while the recorder waits for a keyframe. -/
def processAwaited (s : Recorder) (env : Env) (frame : MediaFrame) : Recorder :=
  if !frame.keyframe then s
  else
    let (captured, s) := s.formatsKnown env frame
    if !captured then s
    else if !s.audioConfigReady then { s with pendingKeyframe := some frame }
    else
      let (opened, s) := s.openNextSegment env frame
      if !opened then s
      else
        let s := writeFrame { s with pendingKeyframe := none, awaitKeyframe := false } env frame
        { s with segmentLastPtsMs := frame.ptsMs }

/-- `process_frame`. -/
def processFrame (s : Recorder) (env : Env) (frame : MediaFrame) : Recorder :=
  match frame.type with
  | .Audio => s.processAudio env frame
  | .Video =>
    if s.awaitKeyframe then s.processAwaited env frame
    else if frame.keyframe && s.shouldRotate frame then s.rotateToNewSegment env frame
    else if !s.muxer.segmentOpen then { s with awaitKeyframe := true }
    else { s.writeFrame env frame with segmentLastPtsMs := frame.ptsMs }

/-- The end of `writer_loop`. -/
def endWriter (s : Recorder) (env : Env) : Recorder :=
  let s := s.closeCurrentSegment env true
  { s with muxer := s.muxer.endSession, sessionReady := false }

/-- The recorder of `start`, with the segments that a scan of the disk found. -/
def new (archive : Archive) : Recorder where
  archive := archive
  muxer := .new
  videoFormat := ⟨.Unknown, 0, 0, 0, []⟩
  audioFormat := none
  formatsReady := false
  awaitKeyframe := true
  audioConfigReady := true
  sessionReady := false
  pendingKeyframe := none
  currentMediaPath := none
  segmentStartPtsMs := -1
  segmentLastPtsMs := -1
  policyStartPtsMs := -1

end Recorder

/-- Every operation of the muxer and on the disk succeeds. -/
structure Env.Succeeds (env : Env) : Prop where
  dayPaths : env.dayPaths.isSome = true
  sessionPaths : env.sessionPaths.isSome = true
  sessionStarted : env.sessionStarted = true
  playlistBegun : env.playlistBegun = true
  sessionRestarted : env.sessionRestarted = true
  segmentOpened : env.segmentOpened = true
  frameWritten : env.frameWritten = true

/-- The answers in a run that records an H.264 track and no audio. -/
def Env.sample : Env where
  videoTrack := some (1920, 1080, 25)
  audioTrack := none
  decoderConfig := some [1, 77, 0, 40]
  specificConfig := none
  dayPaths := some ⟨2024, 1, 1, 12, 0, 0⟩
  sessionPaths := some ⟨2024, 1, 1, 12, 0, 0⟩
  sessionStarted := true
  playlistBegun := true
  sessionRestarted := true
  playlistRebegun := true
  suffix := none
  segmentOpened := true
  frameWritten := true
  bytes := 0

namespace Recorder

/-! ### Formats -/

/-- Capturing the formats touches nothing but the formats. -/
theorem formatsKnown_spec (s : Recorder) (env : Env) (keyframe : MediaFrame) :
    ∃ captured t, s.formatsKnown env keyframe = (captured, t) ∧ t.muxer = s.muxer ∧
      t.awaitKeyframe = s.awaitKeyframe ∧ t.pendingKeyframe = s.pendingKeyframe ∧
      t.sessionReady = s.sessionReady ∧ t.archive = s.archive ∧
      t.currentMediaPath = s.currentMediaPath ∧
      (s.formatsReady = true → t.formatsReady = true) ∧
      (captured = true → t.formatsReady = true) := by
  by_cases hs : s.formatsReady = true
  · exact ⟨true, s, by rw [formatsKnown, if_pos hs], rfl, rfl, rfl, rfl, rfl, rfl, id,
      fun _ => hs⟩
  · refine ⟨_, _, Prod.mk.eta.symm, ?_⟩
    rw [formatsKnown, if_neg hs, captureFormatsFromKeyframe]
    split
    · exact ⟨rfl, rfl, rfl, rfl, rfl, rfl, fun h => absurd h hs, by simp⟩
    · cases env.videoTrack with
      | none => exact ⟨rfl, rfl, rfl, rfl, rfl, rfl, fun h => absurd h hs, by simp⟩
      | some track =>
        dsimp only
        split
        · exact ⟨rfl, rfl, rfl, rfl, rfl, rfl, fun h => absurd h hs, by simp⟩
        · cases env.decoderConfig with
          | none => exact ⟨rfl, rfl, rfl, rfl, rfl, rfl, fun h => absurd h hs, by simp⟩
          | some extradata => exact ⟨rfl, rfl, rfl, rfl, rfl, rfl, fun _ => rfl, fun _ => rfl⟩

/-! ### Opening a segment -/

/-- No segment is open and the formats are known: a segment may be opened. -/
structure Closed (s : Recorder) : Prop where
  segment : s.muxer.segment = none
  session : s.sessionReady = true → s.muxer.session.isSome = true
  formatsReady : s.formatsReady = true
  audioConfigReady : s.audioConfigReady = true

/-- What an open leaves alone. -/
structure Same (s t : Recorder) : Prop where
  closed : t.muxer.closed = s.muxer.closed
  awaitKeyframe : t.awaitKeyframe = s.awaitKeyframe
  pendingKeyframe : t.pendingKeyframe = s.pendingKeyframe

theorem Same.trans {s t u : Recorder} (h : Same s t) (h' : Same t u) : Same s u :=
  ⟨h'.closed.trans h.closed, h'.awaitKeyframe.trans h.awaitKeyframe,
    h'.pendingKeyframe.trans h.pendingKeyframe⟩

/-- A segment was opened and nothing is written to it yet. -/
structure Opened (s t : Recorder) : Prop extends Same s t where
  session : t.muxer.session.isSome = true
  segment : ∃ path, t.muxer.segment = some (path, [])
  formatsReady : t.formatsReady = true
  audioConfigReady : t.audioConfigReady = true
  sessionReady : t.sessionReady = true

theorem endSession_of_none {m : Muxer} (h : m.segment = none) :
    m.endSession = { m with session := none } := by
  simp [Muxer.endSession, Muxer.closeSegment, h]

/-- Without an open segment `close_current_segment` leaves the muxer alone. -/
theorem closeCurrentSegment_muxer {s : Recorder} (h : s.muxer.segment = none) (env : Env)
    (endPlaylist : Bool) : (s.closeCurrentSegment env endPlaylist).muxer = s.muxer := by
  have hclosed : s.muxer.segmentOpen = false := by simp [Muxer.segmentOpen, h]
  simp only [closeCurrentSegment]
  rw [if_neg (by simp [hclosed])]

theorem closed_closeCurrentSegment {s : Recorder} (h : Closed s) (env : Env)
    (endPlaylist : Bool) : Closed (s.closeCurrentSegment env endPlaylist) ∧
      Same s (s.closeCurrentSegment env endPlaylist) := by
  have hm := closeCurrentSegment_muxer h.segment env endPlaylist
  refine ⟨⟨?_, ?_, h.formatsReady, h.audioConfigReady⟩, ?_, rfl, rfl⟩
  · rw [hm]
    exact h.segment
  · rw [hm]
    exact h.session
  · rw [hm]

theorem beginSession_of_succeeds {s : Recorder} {env : Env} (h : Closed s)
    (he : env.Succeeds) (day : String) :
    ∃ t, s.beginSession env day = (true, t) ∧ Closed t ∧ Same s t ∧ t.sessionReady = true := by
  have hend := endSession_of_none h.segment
  rw [beginSession, Muxer.startSession, if_pos he.sessionStarted, hend]
  dsimp only
  rw [if_neg (by simp), if_neg (by simp [he.playlistBegun])]
  exact ⟨_, rfl, ⟨h.segment, fun _ => rfl, h.formatsReady, h.audioConfigReady⟩,
    ⟨rfl, rfl, rfl⟩, rfl⟩

/-- With the formats known a session can always be had. -/
theorem ensureSession_of_succeeds {s : Recorder} {env : Env} (h : Closed s)
    (he : env.Succeeds) (keyframe : MediaFrame) :
    ∃ t, s.ensureSession env keyframe = (true, t) ∧ Closed t ∧ Same s t ∧
      t.sessionReady = true := by
  by_cases hs : s.sessionReady = true
  · exact ⟨s, by rw [ensureSession, if_pos hs], h, ⟨rfl, rfl, rfl⟩, hs⟩
  · obtain ⟨time, hpaths⟩ := Option.isSome_iff_exists.mp he.sessionPaths
    obtain ⟨t, ht, hrest⟩ := beginSession_of_succeeds h he time.day
    refine ⟨t, ?_, hrest⟩
    rw [ensureSession, if_neg hs, formatsKnown, if_pos h.formatsReady]
    dsimp only
    rw [if_neg (by simp [h.audioConfigReady]), hpaths]
    exact ht

theorem closed_endDay {s : Recorder} (h : Closed s) (env : Env) :
    Closed (s.endDay env) ∧ Same s (s.endDay env) := by
  obtain ⟨hc, hsame⟩ := closed_closeCurrentSegment h env true
  have hend := endSession_of_none hc.segment
  rw [endDay]
  dsimp only
  rw [hend]
  exact ⟨⟨hc.segment, fun hs => absurd hs (by simp), hc.formatsReady, hc.audioConfigReady⟩,
    ⟨hsame.closed, rfl, rfl⟩⟩

theorem restartSession_of_succeeds {s : Recorder} {env : Env} (h : Closed s)
    (he : env.Succeeds) (day : String) :
    ∃ t, s.restartSession env day = (true, t) ∧ Closed t ∧ Same s t ∧
      t.sessionReady = true := by
  obtain ⟨hc, hsame⟩ := closed_closeCurrentSegment h env true
  have hend := endSession_of_none hc.segment
  rw [restartSession]
  dsimp only
  rw [Muxer.startSession, if_pos he.sessionRestarted, hend]
  exact ⟨_, rfl, ⟨hc.segment, fun _ => rfl, hc.formatsReady, hc.audioConfigReady⟩,
    ⟨hsame.closed, rfl, rfl⟩, rfl⟩

theorem openMedia_of_succeeds {s : Recorder} {env : Env} (h : Closed s) (he : env.Succeeds)
    (hs : s.sessionReady = true) (keyframe : MediaFrame) (time : LocalTime) :
    ∃ t, s.openMedia env keyframe time = (true, t) ∧ Opened s t := by
  have hsession := h.session hs
  have hne : s.muxer.session ≠ none := Option.isSome_iff_ne_none.mp hsession
  have hclose : s.muxer.closeSegment = s.muxer := by rw [Muxer.closeSegment, h.segment]
  rw [openMedia, Muxer.openSegment, if_neg hne, if_pos he.segmentOpened, hclose]
  exact ⟨_, rfl, ⟨rfl, rfl, rfl⟩, hsession, ⟨_, rfl⟩, h.formatsReady, h.audioConfigReady, hs⟩

/-- **With every operation succeeding `open_next_segment` opens a segment** and
leaves the closed ones and the keyframe flags alone. -/
theorem openNextSegment_of_succeeds {s : Recorder} {env : Env} (h : Closed s)
    (he : env.Succeeds) (keyframe : MediaFrame) :
    ∃ t, s.openNextSegment env keyframe = (true, t) ∧ Opened s t := by
  obtain ⟨time, hpaths⟩ := Option.isSome_iff_exists.mp he.dayPaths
  -- the session of another day is ended first
  obtain ⟨s₁, hs₁, hc₁, hsame₁⟩ : ∃ s₁, (if s.sessionReady &&
      decide (time.day ≠ s.archive.currentDay) then s.endDay env else s) = s₁ ∧
      Closed s₁ ∧ Same s s₁ := by
    split
    · exact ⟨_, rfl, closed_endDay h env⟩
    · exact ⟨s, rfl, h, rfl, rfl, rfl⟩
  obtain ⟨s₂, hs₂, hc₂, hsame₂, hready₂⟩ := ensureSession_of_succeeds hc₁ he keyframe
  -- midnight may pass between the two calls of `make_day_paths`
  obtain ⟨s₃, hs₃, hc₃, hsame₃, hready₃⟩ : ∃ s₃, (if time.day ≠ s₂.archive.currentDay then
      s₂.restartSession env time.day else (true, s₂)) = (true, s₃) ∧ Closed s₃ ∧ Same s₂ s₃ ∧
      s₃.sessionReady = true := by
    split
    · exact restartSession_of_succeeds hc₂ he time.day
    · exact ⟨s₂, rfl, hc₂, ⟨rfl, rfl, rfl⟩, hready₂⟩
  obtain ⟨t, ht, hopened⟩ := openMedia_of_succeeds hc₃ he hready₃ keyframe time
  refine ⟨t, ?_, { hopened with
    toSame := hsame₁.trans (hsame₂.trans (hsame₃.trans hopened.toSame)) }⟩
  rw [openNextSegment, hpaths]
  dsimp only
  rw [hs₁, hs₂]
  dsimp only
  rw [if_neg (by simp), hs₃]
  exact ht

end Recorder

end IpcMini
