/-
The length of the recorder's segments and the clock of the encoder
(`dev_venc.cpp`, `encoded_stream_channel.cpp`, `duration_segment_policy.cpp`).

The encoder stamps a frame with its capture time in microseconds.  The time
reaches the recorder in milliseconds through a 32 bit counter, widened to 64
bits, and the policy compares the difference of two such time stamps with the
length of a segment.  The counter wraps after 49.7 days.

* `timeStamp`, `ptsMs` — the way of a capture time to the recorder;
* `step` — a call of `process_frame`, with the capture time of the keyframe that
  opened the segment;
* `RotatesInTime` — a keyframe rotates exactly when it is due;
* `CounterClimbs` — the counter shows that a keyframe is due;
* **`rotates_in_time_iff`** — the one holds in a run exactly when the other does;
* `wrapped` — a keyframe captured after the wrap is overdue and does not rotate.
-/
import IpcMini.Run
import IpcMini.SegmentState

namespace IpcMini

open Archive Interleaving

namespace Recorder

variable {s : Recorder} {env : Env}

/-! ### The configuration -/

theorem config_closeSegment (a : Archive) (path : File) (duration : ℚ) (bytes : ℕ) :
    (a.closeSegment path duration bytes).config = a.config := by
  have hupdate := (stays_updatePlaylist (A := fun _ => True) a (append_path a.playlist path.name
    duration) fun _ _ _ _ _ => trivial).config
  have hqueue := (stays_upload (A := fun _ => True) ((a.updatePlaylist (a.playlist.append
    path.name duration)).rememberClosedSegment path duration bytes) path).config
  exact (stays_after_upload (A := fun _ => True) _).config.trans (hqueue.trans hupdate)

theorem config_closeCurrentSegment (s : Recorder) (env : Env) (endPlaylist : Bool) :
    (s.closeCurrentSegment env endPlaylist).archive.config = s.archive.config := by
  have hend : ∀ a : Archive, (if endPlaylist then a.endPlaylist else a).config = a.config := by
    intro a
    split
    · exact (stays_endPlaylist (A := fun _ => True) a).config
    · rfl
  rw [closeCurrentSegment]
  dsimp only
  rw [hend]
  split
  · exact config_closeSegment _ _ _ _
  · rfl

theorem config_listed_day (a : Archive) (day : String) (rewritten : Bool) :
    ((a.beginPlaylist day rewritten).listDay day).config = a.config := by
  obtain ⟨hbegin, hpath⟩ := works_beginPlaylist (A := fun _ => True) a day rewritten
  exact (works_listDay (A := fun _ => True) hpath).1.config.trans hbegin.config

/-- No call changes the configuration. -/
theorem preserved_config (env : Env) (config : RecordConfig) :
    Preserved env (fun _ => True) fun s => s.archive.config = config where
  congr h ha _ _ _ := by rw [ha, h]
  close endPlaylist h := (config_closeCurrentSegment _ env endPlaylist).trans h
  endDay h := (config_closeCurrentSegment _ env true).trans h
  beginSession {s} day h hs := by
    rcases s.beginSession_cases env day with ⟨muxer, -, hb⟩ | ⟨-, muxer, -, hb⟩ |
      ⟨-, muxer, -, hb⟩
    · rw [hb]
      exact h
    · rw [hb]
      exact ((works_beginPlaylist (A := fun _ => True) _ day _).1.config).trans h
    · rw [hb]
      exact (config_listed_day _ day _).trans h
  restartSession {s} day h := by
    rcases s.restartSession_cases env day with ⟨muxer, -, hr⟩ | ⟨muxer, -, hr⟩
    · rw [hr]
      exact (config_closeCurrentSegment _ env true).trans h
    · rw [hr]
      exact (config_listed_day _ day _).trans ((config_closeCurrentSegment _ env true).trans h)
  openMedia {s} keyframe time h hs hday hq := by
    rcases s.openMedia_cases env keyframe time with ⟨muxer, -, ho⟩ | ⟨muxer, ho⟩
    · rw [ho]
      exact h
    · rw [ho]
      exact h

theorem config_processFrame (s : Recorder) (env : Env) (frame : MediaFrame) :
    (s.processFrame env frame).archive.config = s.archive.config :=
  (preserved_config env s.archive.config).processFrame rfl frame trivial

end Recorder

/-! ### Time stamps -/

/-- `process_video_stream`: the time stamp of a NAL unit. -/
def timeStamp (pts : UInt64) : UInt32 := (pts / 1000).toUInt32

/-- `on_stream_come`: the time stamp of the frame. -/
def ptsMs (timeStamp : UInt32) : ℤ := timeStamp.toNat

/-- A capture time in whole milliseconds. -/
def millis (pts : UInt64) : ℤ := (pts.toNat / 1000 : ℕ)

/-- The range of the counter. -/
def wrap : ℤ := 4294967296

theorem ptsMs_timeStamp (pts : UInt64) : ptsMs (timeStamp pts) = millis pts % wrap := by
  rw [ptsMs, timeStamp, UInt64.toNat_toUInt32, UInt64.toNat_div, millis, wrap]
  rfl

theorem millis_le {p q : UInt64} (h : p ≤ q) : millis p ≤ millis q := by
  have hle : p.toNat ≤ q.toNat := UInt64.le_iff_toNat_le.mp h
  rw [millis, millis]
  omega

/-- The counter does not run ahead of the capture times. -/
theorem elapsed_le {p q : UInt64} (h : p ≤ q) :
    ptsMs (timeStamp q) - ptsMs (timeStamp p) ≤ millis q - millis p := by
  have hle := millis_le h
  rw [ptsMs_timeStamp, ptsMs_timeStamp, wrap]
  omega

/-- Before it wraps the counter shows the time that has passed. -/
theorem elapsed_eq {p q : UInt64} (h : millis p / wrap = millis q / wrap) :
    ptsMs (timeStamp q) - ptsMs (timeStamp p) = millis q - millis p := by
  rw [ptsMs_timeStamp, ptsMs_timeStamp]
  rw [wrap] at h ⊢
  omega

/-! ### Runs -/

/-- A call of `process_frame`: a video frame carries its capture time. -/
structure CapturedFrame where
  pts : UInt64
  frame : MediaFrame
  env : Env
  stamped : frame.type = .Video → frame.ptsMs = ptsMs (timeStamp pts)

namespace CapturedFrame

/-- A keyframe of the encoder. -/
def key (c : CapturedFrame) : Bool := decide (c.frame.type = .Video) && c.frame.keyframe

end CapturedFrame

/-- The recorder with the capture times of the newest video frame, of the
keyframe that opened the current segment and of the one that is held back. -/
structure CaptureClock where
  recorder : Recorder
  newest : UInt64
  opened : UInt64
  pending : UInt64

namespace CaptureClock

def start (archive : Archive) : CaptureClock := ⟨.new archive, 0, 0, 0⟩

/-- The call leaves a segment open that was not open before. -/
def opens (s t : Recorder) : Bool :=
  t.muxer.segmentOpen &&
    (!s.muxer.segmentOpen || decide (s.muxer.closed.length < t.muxer.closed.length))

/-- A call; the frames come in the order of their capture. -/
def step (s : CaptureClock) (c : CapturedFrame) : Option CaptureClock :=
  let recorder := s.recorder.processFrame c.env c.frame
  match c.frame.type with
  | .Audio =>
    some { s with
      recorder := recorder
      opened := if opens s.recorder recorder then s.pending else s.opened }
  | .Video =>
    if c.pts < s.newest then none
    else
      some {
        recorder := recorder
        newest := c.pts
        opened := if opens s.recorder recorder then c.pts else s.opened
        pending := if recorder.pendingKeyframe = some c.frame then c.pts else s.pending }

/-- The length of a segment in milliseconds. -/
def segmentMs (s : CaptureClock) : ℤ := s.recorder.archive.config.segmentSec * 1000

/-- The frame was captured a segment's length after the keyframe that opened the
current segment. -/
def Due (s : CaptureClock) (c : CapturedFrame) : Prop :=
  s.segmentMs ≤ millis c.pts - millis s.opened

/-- The call closes the current segment and, if that succeeds, opens another. -/
def Rotates (s : CaptureClock) (c : CapturedFrame) : Prop :=
  let t := s.recorder.processFrame c.env c.frame
  (∃ segment ∈ s.recorder.muxer.segment, t.muxer.closed = s.recorder.muxer.closed ++ [segment]) ∧
    (c.env.Succeeds → t.muxer.segmentOpen = true)

/-- While a segment is open, a keyframe rotates exactly when it is due. -/
def RotatesInTime (s : CaptureClock) (c : CapturedFrame) : Prop :=
  s.recorder.muxer.segmentOpen = true → c.key = true → s.newest ≤ c.pts →
    (s.Rotates c ↔ s.Due c)

/-- While a segment is open, the time stamp of a keyframe that is due has climbed
above that of the keyframe that opened the segment by a segment's length. -/
def CounterClimbs (s : CaptureClock) (c : CapturedFrame) : Prop :=
  s.recorder.muxer.segmentOpen = true → c.key = true → s.newest ≤ c.pts → s.Due c →
    s.segmentMs ≤ ptsMs (timeStamp c.pts) - ptsMs (timeStamp s.opened)

/-! ### The invariant -/

/-- The policy has the time stamp of the keyframe that opened the segment. -/
structure Inv (config : RecordConfig) (s : CaptureClock) : Prop where
  state : s.recorder.Idle ∨ s.recorder.Busy
  config : s.recorder.archive.config = config
  policy : s.recorder.Busy → s.recorder.policyStartPtsMs = ptsMs (timeStamp s.opened)
  held : ∀ key ∈ s.recorder.pendingKeyframe, key.ptsMs = ptsMs (timeStamp s.pending)
  opened_le : s.opened ≤ s.newest
  pending_le : s.pending ≤ s.newest

variable {config : RecordConfig} {s t : CaptureClock} {c : CapturedFrame}

theorem inv_start (archive : Archive) : Inv archive.config (start archive) where
  state := .inl (Recorder.idle_new archive)
  config := rfl
  policy h := absurd h.2 (by simp [start, Recorder.new])
  held key hkey := absurd hkey (by simp [start, Recorder.new])
  opened_le := UInt64.le_refl 0
  pending_le := UInt64.le_refl 0

theorem not_busy_of_idle {r : Recorder} (h : r.Idle) : ¬ r.Busy := by
  intro hb
  exact absurd (h.2.symm.trans hb.2) (by simp)

theorem segmentOpen_of_busy {r : Recorder} (h : r.Busy) : r.muxer.segmentOpen = true := by
  obtain ⟨⟨path, hrec⟩, -⟩ := h
  exact hrec.segmentOpen

/-- The policy after a call: that of the segment which is opened, or as before. -/
theorem policy_turn {env : Env} {frame : MediaFrame} {r q : Recorder}
    (h : r.Turn env frame q) (hq : q.Busy) :
    opens r q = true ∧ (∃ key ∈ r.opener frame, q.policyStartPtsMs = key.ptsMs) ∨
      opens r q = false ∧ r.Busy ∧ q.policyStartPtsMs = r.policyStartPtsMs := by
  have hopen := segmentOpen_of_busy hq
  cases h with
  | waits hs ht => exact absurd hq (not_busy_of_idle ht)
  | opens hs ht closed key => exact .inl ⟨by simp [opens, hopen, hs.1.segmentOpen], key⟩
  | goesOn hs ht closed policy =>
    exact .inr ⟨by simp [opens, segmentOpen_of_busy hs, closed], hs, policy⟩
  | rotates hs video key due closed ht =>
    obtain ⟨segment, -, hclosed⟩ := closed
    rcases ht with ⟨hidle, -⟩ | ⟨-, hpolicy⟩
    · exact absurd hq (not_busy_of_idle hidle)
    · refine .inl ⟨by simp [opens, hopen, hclosed], frame, ?_, hpolicy⟩
      rw [Recorder.opener, video]
      exact Option.mem_some_self frame

theorem inv_step (h : s.Inv config) (hstep : s.step c = some t) : t.Inv config := by
  obtain ⟨hturn, hholds⟩ := Recorder.turn_processFrame h.state c.env c.frame
  have hconfig := (Recorder.config_processFrame s.recorder c.env c.frame).trans h.config
  have hpolicy := fun hq => policy_turn hturn hq
  rw [step] at hstep
  generalize s.recorder.processFrame c.env c.frame = r at hstep hturn hholds hconfig hpolicy
  cases hf : c.frame.type with
  | Audio =>
    rw [hf] at hstep
    obtain rfl := Option.some_inj.mp hstep
    refine ⟨hturn.idle_or_busy, hconfig, fun hq => ?_, fun key hkey => ?_, ?_, h.pending_le⟩
    · show r.policyStartPtsMs = ptsMs (timeStamp (if opens s.recorder r then _ else _))
      rcases hpolicy hq with ⟨ho, key, hkey, hp⟩ | ⟨ho, hs, hp⟩
      · -- the keyframe that was held back opens the segment
        rw [Recorder.opener, hf] at hkey
        rw [if_pos ho, hp, h.held key hkey]
      · rw [if_neg (by simp [ho]), hp, h.policy hs]
    · rcases hholds key hkey with hold | ⟨hv, -⟩
      · exact h.held key hold
      · exact absurd (hf.symm.trans hv) (by simp)
    · show (if opens s.recorder r then s.pending else s.opened) ≤ s.newest
      split
      · exact h.pending_le
      · exact h.opened_le
  | Video =>
    rw [hf] at hstep
    dsimp only at hstep
    split at hstep
    · cases hstep
    next hlate =>
    obtain rfl := Option.some_inj.mp hstep
    have hle : s.newest ≤ c.pts := UInt64.not_lt.mp hlate
    refine ⟨hturn.idle_or_busy, hconfig, fun hq => ?_, fun key hkey => ?_, ?_, ?_⟩
    · show r.policyStartPtsMs = ptsMs (timeStamp (if opens s.recorder r then _ else _))
      rcases hpolicy hq with ⟨ho, key, hkey, hp⟩ | ⟨ho, hs, hp⟩
      · rw [Recorder.opener, hf] at hkey
        obtain rfl : c.frame = key := by simpa using hkey
        rw [if_pos ho, hp, c.stamped hf]
      · rw [if_neg (by simp [ho]), hp, h.policy hs]
    · show key.ptsMs = ptsMs (timeStamp (if r.pendingKeyframe = some c.frame then _ else _))
      have hkey' : r.pendingKeyframe = some key := hkey
      by_cases hframe : key = c.frame
      · rw [if_pos (by rw [hkey', hframe]), hframe, c.stamped hf]
      · rw [if_neg (by rw [hkey']; simpa using hframe)]
        rcases hholds key hkey with hold | ⟨-, heq⟩
        · exact h.held key hold
        · exact absurd heq hframe
    · show (if opens s.recorder r then c.pts else s.opened) ≤ c.pts
      split
      · exact UInt64.le_refl _
      · exact UInt64.le_trans h.opened_le hle
    · show (if r.pendingKeyframe = some c.frame then c.pts else s.pending) ≤ c.pts
      split
      · exact UInt64.le_refl _
      · exact UInt64.le_trans h.pending_le hle

/-! ### Keyframes -/

theorem shouldRotate_iff (h : s.Inv config) (hseg : 0 < config.segmentSec)
    (hs : s.recorder.Busy) (hf : c.frame.type = .Video) :
    s.recorder.shouldRotate c.frame = true ↔
      s.segmentMs ≤ ptsMs (timeStamp c.pts) - ptsMs (timeStamp s.opened) := by
  have hstart : ¬ ptsMs (timeStamp s.opened) < 0 := not_lt.mpr (Int.natCast_nonneg _)
  rw [Recorder.shouldRotate, h.policy hs, c.stamped hf]
  rw [if_neg hstart, if_pos (by rw [h.config]; exact hseg), decide_eq_true_iff, segmentMs]

/-- A keyframe rotates exactly when the policy says so. -/
theorem rotates_iff (h : s.Inv config) (hs : s.recorder.Busy) (hf : c.frame.type = .Video)
    (hkey : c.frame.keyframe = true) :
    s.Rotates c ↔ s.recorder.shouldRotate c.frame = true := by
  obtain ⟨hturn, -⟩ := Recorder.turn_processFrame h.state c.env c.frame
  rw [Rotates]
  generalize s.recorder.processFrame c.env c.frame = r at hturn ⊢
  cases hturn with
  | waits hidle => exact absurd hs (not_busy_of_idle hidle)
  | opens hidle => exact absurd hs (not_busy_of_idle hidle)
  | goesOn _ _ closed _ early =>
    refine ⟨fun ⟨⟨segment, _, hclosed⟩, _⟩ => ?_, fun hyes => ?_⟩
    · exact absurd (closed.symm.trans hclosed) (by simp)
    · exact absurd hyes (by simp [early hf hkey])
  | rotates _ _ _ due closed ht =>
    obtain ⟨segment, hseg, hclosed⟩ := closed
    refine ⟨fun _ => due, fun _ => ⟨⟨segment, hseg, hclosed⟩, fun he => ?_⟩⟩
    rcases ht with ⟨-, hfails⟩ | ⟨hbusy, -⟩
    · exact absurd he hfails
    · exact segmentOpen_of_busy hbusy

theorem rotatesInTime_iff (h : s.Inv config) (hseg : 0 < config.segmentSec)
    (c : CapturedFrame) : s.RotatesInTime c ↔ s.CounterClimbs c := by
  rw [RotatesInTime, CounterClimbs]
  refine forall_congr' fun hopen => forall_congr' fun hkey => forall_congr' fun hle => ?_
  have hbusy : s.recorder.Busy := by
    rcases h.state with hidle | hbusy
    · exact absurd hopen (by simp [hidle.1.segmentOpen])
    · exact hbusy
  obtain ⟨hf, hk⟩ : c.frame.type = .Video ∧ c.frame.keyframe = true := by
    simpa [CapturedFrame.key] using hkey
  -- a keyframe that is not due does not rotate
  have hahead := elapsed_le (UInt64.le_trans h.opened_le hle)
  rw [rotates_iff h hbusy hf hk, shouldRotate_iff h hseg hbusy hf, Due]
  exact ⟨fun hiff => hiff.mpr, fun himp => ⟨fun hyes => hyes.trans hahead, himp⟩⟩

/-- **When the keyframes rotate in time.**  In every run, for every length of a
segment: each keyframe that comes while a segment is open rotates exactly when
it is due, if and only if the counter shows each keyframe that is due. -/
theorem rotates_in_time_iff (archive : Archive) (hseg : 0 < archive.config.segmentSec)
    (calls : List CapturedFrame) :
    Along step RotatesInTime (start archive) calls ↔
      Along step CounterClimbs (start archive) calls :=
  along_congr (fun _ _ _ => inv_step) (fun _ c h => rotatesInTime_iff h hseg c) (inv_start archive)

/-- As long as the counter has not wrapped since the segment was opened, it shows
every keyframe that is due. -/
theorem counterClimbs_of_turn (h : millis s.opened / wrap = millis c.pts / wrap) :
    s.CounterClimbs c := by
  intro _ _ _ hdue
  rw [elapsed_eq h]
  exact hdue

/-! ### Two runs -/

/-- A keyframe of the encoder, captured after `seconds`. -/
def captured (addr : ℕ) (seconds : UInt64) : CapturedFrame where
  pts := seconds * 1000000
  frame := .video addr .Key (ptsMs (timeStamp (seconds * 1000000))) 4
  env := .sample
  stamped _ := rfl

/-- A recorder that was just started, with segments of five minutes. -/
def fresh : Archive := ⟨{}, [], .empty, "", [], []⟩

instance (s : CaptureClock) (c : CapturedFrame) : Decidable (s.CounterClimbs c) :=
  inferInstanceAs (Decidable (_ → _ → _ → s.segmentMs ≤ _ → _))

/-- A segment that is opened after ten seconds ends five minutes later. -/
theorem five_minutes : Along step RotatesInTime (start fresh) [captured 1 10, captured 2 310] :=
  (rotates_in_time_iff fresh (by decide) _).mpr (by decide +kernel)

/-- **A keyframe after the wrap does not rotate**: the segment is opened 27
seconds before the counter wraps, and the keyframe ten minutes later goes into
the same segment. -/
theorem wrapped :
    ¬ Along step RotatesInTime (start fresh) [captured 1 4294940, captured 2 4295540] := by
  rw [along_congr (fun _ _ _ => inv_step) (fun _ c h => rotatesInTime_iff h (by decide) c)
    (inv_start fresh)]
  decide +kernel

end CaptureClock

end IpcMini
