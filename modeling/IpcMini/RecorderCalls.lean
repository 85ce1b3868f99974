/-
What the calls of `process_frame` preserve (`src/record/segment_recorder.cpp`).

A call closes the open segment, ends a day, begins or restarts a session and
opens a segment, in an order that depends on the frame and on what the recorder
knows.  A property of the recorder that these five operations preserve, and that
does not look at formats and time stamps, is preserved by every call.

* `beginSession_cases`, `restartSession_cases`, `openMedia_cases` — what the
  operations can do;
* `Preserved` — the five operations preserve the property;
* `sessionReady_of_ensured`, `sessionReady_of_restarted` — what holds when a
  session is there;
* **`Preserved.processFrame`** — so does every call.
-/
import IpcMini.Recorder

namespace IpcMini

/-! ### Open segments -/

namespace Muxer

theorem segmentOpen_closeSegment (m : Muxer) : m.closeSegment.segmentOpen = false := by
  rw [closeSegment, segmentOpen]
  cases hm : m.segment with
  | none => simp [hm]
  | some seg => simp

theorem segmentOpen_endSession (m : Muxer) : m.endSession.segmentOpen = false := by
  simp [endSession, segmentOpen]

theorem segmentOpen_startSession (m : Muxer) (init : File) (started : Bool) :
    (m.startSession init started).2.segmentOpen = false := by
  have hclosed := segmentOpen_closeSegment m
  rw [startSession]
  split
  · have hnone : m.closeSegment.segment = none := by
      rw [closeSegment]
      cases hm : m.segment <;> simp [hm]
    simp [endSession, segmentOpen, hnone]
  · exact segmentOpen_endSession m

/-- An open that fails leaves no segment open. -/
theorem segmentOpen_openSegment {m : Muxer} {path : File} {opened : Bool}
    (h : (m.openSegment path opened).1 = false) :
    (m.openSegment path opened).2.segmentOpen = false := by
  rw [openSegment] at h ⊢
  split
  next hnone => simp [segmentOpen, hnone]
  next hsome =>
    rw [if_neg hsome] at h
    split
    next hopened =>
      rw [if_pos hopened] at h
      cases h
    · exact segmentOpen_closeSegment m

end Muxer

namespace Recorder

variable {s t : Recorder} {env : Env}

/-! ### Sessions -/

theorem currentDay_upload (a : Archive) (file : File) :
    (a.uploadRelative file).currentDay = a.currentDay := by
  rw [Archive.uploadRelative]
  split <;> rfl

theorem currentDay_listDay (a : Archive) (day : String) : (a.listDay day).currentDay = day := by
  rw [Archive.listDay]
  dsimp only
  split
  · rw [currentDay_upload, currentDay_upload]
  · rw [currentDay_upload]

/-- A session does not start, or its playlist cannot be begun, or its day is listed. -/
theorem beginSession_cases (s : Recorder) (env : Env) (day : String) :
    (∃ muxer : Muxer, muxer.segmentOpen = false ∧
      s.beginSession env day = (false, { s with muxer := muxer })) ∨
    (env.playlistBegun = false ∧ ∃ muxer : Muxer, muxer.segmentOpen = false ∧
      s.beginSession env day =
        (false, { s with archive := s.archive.beginPlaylist day false, muxer := muxer })) ∨
    (env.playlistBegun = true ∧ ∃ muxer : Muxer, muxer.segmentOpen = false ∧
      s.beginSession env day =
        (true, { s with
          archive := (s.archive.beginPlaylist day true).listDay day
          muxer := muxer
          sessionReady := true })) := by
  have hclosed := Muxer.segmentOpen_startSession s.muxer (.init day) env.sessionStarted
  rw [beginSession]
  generalize s.muxer.startSession (.init day) env.sessionStarted = r at hclosed ⊢
  obtain ⟨started, muxer⟩ := r
  dsimp only at hclosed ⊢
  split
  · exact .inl ⟨muxer, hclosed, rfl⟩
  · cases env.playlistBegun with
    | false => exact .inr (.inl ⟨rfl, _, Muxer.segmentOpen_endSession muxer, rfl⟩)
    | true => exact .inr (.inr ⟨rfl, muxer, hclosed, rfl⟩)

/-- The segment is closed; then the session does not start, or the new day is listed,
whether or not its playlist could be begun. -/
theorem restartSession_cases (s : Recorder) (env : Env) (day : String) :
    (∃ muxer : Muxer, muxer.segmentOpen = false ∧ s.restartSession env day =
      (false, { s.closeCurrentSegment env true with
        muxer := muxer
        sessionReady := false })) ∨
    ∃ muxer : Muxer, muxer.segmentOpen = false ∧ s.restartSession env day =
      (true, { s.closeCurrentSegment env true with
        muxer := muxer
        archive := ((s.closeCurrentSegment env true).archive.beginPlaylist day
          env.playlistRebegun).listDay day
        sessionReady := true }) := by
  rw [restartSession]
  dsimp only
  generalize s.closeCurrentSegment env true = c
  have hclosed := Muxer.segmentOpen_startSession c.muxer (.init day) env.sessionRestarted
  generalize c.muxer.startSession (.init day) env.sessionRestarted = r at hclosed ⊢
  obtain ⟨started, muxer⟩ := r
  dsimp only at hclosed ⊢
  split
  · exact .inl ⟨muxer, hclosed, rfl⟩
  · exact .inr ⟨muxer, hclosed, rfl⟩

/-- Either no file is opened, and no segment is open, or the archive has a file
more, into which the segment goes. -/
theorem openMedia_cases (s : Recorder) (env : Env) (keyframe : MediaFrame) (time : LocalTime) :
    (∃ muxer : Muxer, muxer.segmentOpen = false ∧
      (s.openMedia env keyframe time).2 = { s with muxer := muxer }) ∨
    ∃ muxer : Muxer, (s.openMedia env keyframe time).2 =
      { s with
        muxer := muxer
        archive := { s.archive with
          mediaFiles := s.archive.mediaFiles ++ [nextMediaPath time env.suffix] }
        currentMediaPath := some (nextMediaPath time env.suffix)
        segmentStartPtsMs := keyframe.ptsMs
        segmentLastPtsMs := keyframe.ptsMs
        policyStartPtsMs := keyframe.ptsMs } := by
  rw [openMedia]
  dsimp only
  have hclosed : (s.muxer.openSegment (nextMediaPath time env.suffix)
      env.segmentOpened).1 = false → _ := Muxer.segmentOpen_openSegment
  generalize s.muxer.openSegment (nextMediaPath time env.suffix) env.segmentOpened = r
    at hclosed ⊢
  obtain ⟨opened, muxer⟩ := r
  dsimp only at hclosed ⊢
  split
  next hno => exact .inl ⟨muxer, hclosed (by simpa using hno), rfl⟩
  · exact .inr ⟨muxer, rfl⟩

/-- A session that was ensured is ready. -/
theorem sessionReady_of_ensured {keyframe : MediaFrame}
    (h : (s.ensureSession env keyframe).1 = true) :
    (s.ensureSession env keyframe).2.sessionReady = true := by
  rw [ensureSession] at h ⊢
  split
  · assumption
  next hs =>
    rw [if_neg hs] at h
    generalize s.formatsKnown env keyframe = r at h ⊢
    obtain ⟨captured, t⟩ := r
    dsimp only at h ⊢
    split at h
    · cases h
    next hc =>
      rw [if_neg hc]
      cases hp : env.sessionPaths with
      | none =>
        rw [hp] at h
        cases h
      | some time =>
        rw [hp] at h
        dsimp only at h ⊢
        rcases t.beginSession_cases env time.day with ⟨muxer, -, hb⟩ | ⟨-, muxer, -, hb⟩ |
          ⟨-, muxer, -, hb⟩
        · simp [hb] at h
        · simp [hb] at h
        · rw [hb]

/-- A session that was restarted is ready, on the day it was restarted for. -/
theorem sessionReady_of_restarted {day : String} (h : (s.restartSession env day).1 = true) :
    (s.restartSession env day).2.sessionReady = true ∧
      (s.restartSession env day).2.archive.currentDay = day := by
  rcases s.restartSession_cases env day with ⟨muxer, -, hr⟩ | ⟨muxer, -, hr⟩
  · simp [hr] at h
  · rw [hr]
    exact ⟨rfl, currentDay_listDay _ _⟩

/-! ### Preservation -/

/-- The operations of a call preserve `P`; where a segment is opened, the
archive that comes out meets `Q`. -/
structure Preserved (env : Env) (Q : Archive → Prop) (P : Recorder → Prop) : Prop where
  congr : ∀ {s t : Recorder}, P s → t.archive = s.archive → t.sessionReady = s.sessionReady →
    t.currentMediaPath = s.currentMediaPath → t.muxer.segmentOpen = s.muxer.segmentOpen →
    P t
  close : ∀ {s : Recorder} (endPlaylist : Bool), P s → P (s.closeCurrentSegment env endPlaylist)
  endDay : ∀ {s : Recorder}, P s → P (s.endDay env)
  beginSession : ∀ {s : Recorder} (day : String), P s → s.sessionReady = false →
    P (s.beginSession env day).2
  restartSession : ∀ {s : Recorder} (day : String), P s → P (s.restartSession env day).2
  openMedia : ∀ {s : Recorder} (keyframe : MediaFrame) (time : LocalTime), P s →
    s.sessionReady = true → s.archive.currentDay = time.day →
    Q (s.openMedia env keyframe time).2.archive → P (s.openMedia env keyframe time).2

theorem segmentOpen_write (m : Muxer) (frame : MediaFrame) (written : Bool) :
    (m.writeFrame frame written).2.segmentOpen = m.segmentOpen := by
  rw [Muxer.writeFrame]
  cases hm : m.segment with
  | none => rfl
  | some seg =>
    dsimp only
    split
    · simp [Muxer.segmentOpen, hm]
    · rfl

namespace Preserved

variable {Q : Archive → Prop} {P : Recorder → Prop}

theorem ensureSession (hp : Preserved env Q P) (h : P s) (keyframe : MediaFrame) :
    P (s.ensureSession env keyframe).2 := by
  rw [Recorder.ensureSession]
  split
  · exact h
  next hs =>
    obtain ⟨captured, t, ht, hm, -, -, hr, ha, hpath, -, -⟩ := formatsKnown_spec s env keyframe
    have hpt : P t := hp.congr h ha hr hpath (by rw [hm])
    rw [ht]
    dsimp only
    split
    · exact hpt
    · cases env.sessionPaths with
      | none => exact hpt
      | some time => exact hp.beginSession time.day hpt (by rw [hr]; simpa using hs)

theorem openNextSegment (hp : Preserved env Q P) (h : P s) (keyframe : MediaFrame)
    (hq : Q (s.openNextSegment env keyframe).2.archive) :
    P (s.openNextSegment env keyframe).2 := by
  rw [Recorder.openNextSegment] at hq ⊢
  cases hpaths : env.dayPaths with
  | none => exact h
  | some time =>
    rw [hpaths] at hq
    dsimp only at hq ⊢
    generalize hc : (if s.sessionReady && decide (time.day ≠ s.archive.currentDay) then
      s.endDay env else s) = c at hq ⊢
    have hpc : P c := by
      rw [← hc]
      split
      · exact hp.endDay h
      · exact h
    have hpt := hp.ensureSession hpc keyframe
    have hready : (c.ensureSession env keyframe).1 = true →
        (c.ensureSession env keyframe).2.sessionReady = true := sessionReady_of_ensured
    generalize c.ensureSession env keyframe = r at hpt hready hq ⊢
    obtain ⟨ensured, t⟩ := r
    dsimp only at hpt hready hq ⊢
    by_cases hens : ensured = true
    · rw [if_neg (by simp [hens])] at hq ⊢
      by_cases hday : time.day ≠ t.archive.currentDay
      · simp only [if_pos hday] at hq ⊢
        -- midnight has passed since the session was ensured
        have hpu := hp.restartSession time.day hpt
        have hready' : (t.restartSession env time.day).1 = true →
            (t.restartSession env time.day).2.sessionReady = true ∧
            (t.restartSession env time.day).2.archive.currentDay = time.day :=
          sessionReady_of_restarted
        generalize t.restartSession env time.day = r at hpu hready' hq ⊢
        obtain ⟨ok, u⟩ := r
        dsimp only at hpu hready' hq ⊢
        by_cases hok : ok = true
        · rw [if_neg (by simp [hok])] at hq ⊢
          obtain ⟨hs, hd⟩ := hready' hok
          exact hp.openMedia keyframe time hpu hs hd hq
        · rw [if_pos (by simp [hok])]
          exact hpu
      · simp only [if_neg hday] at hq ⊢
        rw [if_neg (by simp)] at hq ⊢
        exact hp.openMedia keyframe time hpt (hready hens) (not_not.mp hday).symm hq
    · rw [if_pos (by simp [hens])]
      exact hpt

theorem writeFrame (hp : Preserved env Q P) (h : P s) (frame : MediaFrame) :
    P (s.writeFrame env frame) :=
  hp.congr h rfl rfl rfl (segmentOpen_write _ _ _)

theorem rotateToNewSegment (hp : Preserved env Q P) (h : P s) (keyframe : MediaFrame)
    (hq : Q (s.rotateToNewSegment env keyframe).archive) :
    P (s.rotateToNewSegment env keyframe) := by
  have hclose := hp.close false h
  rw [Recorder.rotateToNewSegment] at hq ⊢
  dsimp only at hq ⊢
  have hpc : P { s.closeCurrentSegment env false with awaitKeyframe := false } :=
    hp.congr hclose rfl rfl rfl rfl
  generalize ({ s.closeCurrentSegment env false with awaitKeyframe := false } : Recorder) = c
    at hpc hq ⊢
  have hopen := hp.openNextSegment hpc keyframe
  generalize c.openNextSegment env keyframe = r at hopen hq ⊢
  obtain ⟨opened, t⟩ := r
  dsimp only at hopen hq ⊢
  split at hq
  · rw [if_pos (by assumption)]
    exact hp.congr (hopen hq) rfl rfl rfl rfl
  · rw [if_neg (by assumption)]
    have hwrite := segmentOpen_write t.muxer keyframe env.frameWritten
    generalize t.muxer.writeFrame keyframe env.frameWritten = r at hwrite hq ⊢
    obtain ⟨ok, muxer⟩ := r
    dsimp only at hwrite hq ⊢
    split at hq
    · rw [if_pos (by assumption)]
      exact hp.congr (hopen hq) rfl rfl rfl hwrite
    · rw [if_neg (by assumption)]
      exact hp.congr (hopen hq) rfl rfl rfl hwrite

theorem learnConfig (hp : Preserved env Q P) (h : P s) (config : List UInt8)
    (hq : Q (s.learnConfig env config).archive) : P (s.learnConfig env config) := by
  rw [Recorder.learnConfig] at hq ⊢
  dsimp only at hq ⊢
  split at hq
  case h_1 key hkey hopen =>
    have hpb : P { s with
        audioFormat := s.audioFormat.map fun a : AudioFormat => { a with extradata := config }
        audioConfigReady := true
        pendingKeyframe := none } := hp.congr h rfl rfl rfl rfl
    generalize ({ s with
      audioFormat := s.audioFormat.map fun a : AudioFormat => { a with extradata := config }
      audioConfigReady := true
      pendingKeyframe := none } : Recorder) = b at hpb hq ⊢
    have hnext := hp.openNextSegment hpb key
    generalize b.openNextSegment env key = r at hnext hq ⊢
    obtain ⟨opened, t⟩ := r
    dsimp only at hnext hq ⊢
    split at hq
    next hyes =>
      rw [if_pos hyes]
      exact hp.writeFrame (s := { t with awaitKeyframe := false })
        (hp.congr (hnext hq) rfl rfl rfl rfl) key
    next hno =>
      rw [if_neg hno]
      exact hnext hq
  case h_2 => exact hp.congr h rfl rfl rfl rfl

theorem processAudio (hp : Preserved env Q P) (h : P s) (frame : MediaFrame)
    (hq : Q (s.processAudio env frame).archive) : P (s.processAudio env frame) := by
  have hwrite : ∀ t : Recorder, (Q t.archive → P t) →
      Q (if !t.muxer.segmentOpen || t.audioFormat.isNone || t.lacksConfig then t
        else t.writeFrame env frame).archive →
      P (if !t.muxer.segmentOpen || t.audioFormat.isNone || t.lacksConfig then t
        else t.writeFrame env frame) := by
    intro t ht hqt
    split at hqt
    · rw [if_pos (by assumption)]
      exact ht hqt
    · rw [if_neg (by assumption)]
      exact hp.writeFrame (ht hqt) frame
  rw [Recorder.processAudio] at hq ⊢
  split at hq
  · rw [if_pos (by assumption)]
    exact h
  · rw [if_neg (by assumption)]
    cases hl : s.learnedConfig env frame with
    | none =>
      rw [hl] at hq
      exact hwrite s (fun _ => h) hq
    | some config =>
      rw [hl] at hq
      exact hwrite _ (hp.learnConfig h config) hq

theorem processAwaited (hp : Preserved env Q P) (h : P s) (frame : MediaFrame)
    (hq : Q (s.processAwaited env frame).archive) : P (s.processAwaited env frame) := by
  obtain ⟨captured, t, ht, hm, -, -, hr, ha, hpath, -, -⟩ := formatsKnown_spec s env frame
  have hpt : P t := hp.congr h ha hr hpath (by rw [hm])
  rw [Recorder.processAwaited, ht] at hq ⊢
  dsimp only at hq ⊢
  -- the conditions in the order of the source
  split
  · exact h
  next hkey =>
  rw [if_neg hkey] at hq
  split
  · exact hpt
  next hcap =>
  rw [if_neg hcap] at hq
  split
  · exact hp.congr hpt rfl rfl rfl rfl
  next haudio =>
  rw [if_neg haudio] at hq
  have hopen := hp.openNextSegment hpt frame
  generalize t.openNextSegment env frame = r at hopen hq ⊢
  obtain ⟨opened, u⟩ := r
  dsimp only at hopen hq ⊢
  split
  next hno =>
    rw [if_pos hno] at hq
    exact hopen hq
  next hyes =>
    rw [if_neg hyes] at hq
    have hpu : P { u with pendingKeyframe := none, awaitKeyframe := false } :=
      hp.congr (hopen hq) rfl rfl rfl rfl
    exact hp.congr (hp.writeFrame hpu frame) rfl rfl rfl rfl

/-- **Every call of `process_frame` preserves the property.** -/
theorem processFrame (hp : Preserved env Q P) (h : P s) (frame : MediaFrame)
    (hq : Q (s.processFrame env frame).archive) : P (s.processFrame env frame) := by
  rw [Recorder.processFrame] at hq ⊢
  split at hq
  · exact hp.processAudio h frame hq
  · split at hq
    next hawait =>
      rw [if_pos hawait]
      exact hp.processAwaited h frame hq
    next hawait =>
      rw [if_neg hawait]
      split at hq
      next hrotate =>
        rw [if_pos hrotate]
        exact hp.rotateToNewSegment h frame hq
      next hrotate =>
        rw [if_neg hrotate]
        split
        · exact hp.congr h rfl rfl rfl rfl
        · exact hp.congr (hp.writeFrame h frame) rfl rfl rfl rfl

end Preserved

end Recorder

end IpcMini
