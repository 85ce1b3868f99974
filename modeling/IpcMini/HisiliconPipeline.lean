/-
The device pipeline and its two life-cycle workers.

`HisiliconPipeline` (`src/device_adapter/src/hisilicon_pipeline.cpp`) owns the
encoders of a channel and the detector.  Subscriptions switch the sub stream and
the AI stream on and off through `set_stream_active`; two worker threads switch
them off again after an idle interval, and the AI worker loads the detector with
the mutex released.  A label is one section that a thread runs under
`stream_mutex_`, or one that it runs outside of it; in between every other
thread may move and time may pass.

* `start`, `boot`, `runWorkers` — the parts of `start` around its lock;
* `beginStop`, `finishStop` — those of `stop` around its joins;
* `setStreamActive`, `streamNext`, `aiNext` — demand and the workers;
* `step` — one label of one thread;
* **`Phase`** — how the owner, the flags and the workers fit together, and
  `phase_step`: every step keeps it.
-/
import IpcMini.Encoders
import IpcMini.Run

namespace IpcMini.HisiliconPipeline

/-- `SUB_STREAM_ID`. -/
def SUB_STREAM_ID : ℤ := 1

/-- `AI_STREAM_ID`. -/
def AI_STREAM_ID : ℤ := 2

/-- `kDefaultIdleStopSeconds`. -/
def kDefaultIdleStopSeconds : ℕ := 5

/-- What the pipeline reads of `HisiliconPipelineOptions`. -/
structure Options where
  channelId : ℤ
  mainSvc : Bool
  subEnable : Bool
  subBoot : Bool
  aiEnable : Bool
  aiBoot : Bool
  idleStopSec : ℤ

/-- `ai_idle_stop_seconds`. -/
def Options.aiIdleStopSeconds (o : Options) : ℕ :=
  if 0 < o.idleStopSec then o.idleStopSec.toNat else kDefaultIdleStopSeconds

/-- The idle interval on the steady clock, which counts nanoseconds. -/
def Options.idle (o : Options) : ℕ := o.aiIdleStopSeconds * 1000000000

/-! ### The state -/

/-- Where the thread that starts and stops the pipeline is. -/
inductive Owner
  | idle
  /-- in `start`, with the encoders started -/
  | encoders
  /-- in `start`, before its locked section -/
  | capturing
  /-- in `stop`, at its joins -/
  | stopping
  deriving DecidableEq, Repr

/-- Where `stream_lifecycle_worker` is whenever it does not hold the mutex. -/
inductive StreamWorker
  | absent
  | fresh
  | waitWithdrawn
  | waitIdle (generation deadline : ℕ)
  | waitRequired
  | returned
  deriving DecidableEq, Repr

/-- Where `ai_lifecycle_worker` is whenever it does not hold the mutex. -/
inductive AiWorker
  | absent
  | fresh
  | waiting
  /-- before the locked section of `start_yolov8_async` -/
  | starting (generation : ℕ)
  /-- in `detector->start` -/
  | loading (generation detector : ℕ)
  /-- `detector->start` has succeeded -/
  | loaded (generation detector : ℕ)
  /-- `start_yolov8_async` has returned -/
  | relocking (generation : ℕ) (ok : Bool)
  | waitIdle (generation deadline : ℕ)
  | returned
  deriving DecidableEq, Repr

/-- The pipeline, its threads and the devices.  `detectors` are the detectors
whose `start` was called and that have neither failed nor been stopped. -/
structure State where
  capture : Capture
  encodedChannel : Option Chn
  aiPublisher : Bool
  yolov8 : Option ℕ
  streamGeneration : ℕ
  aiGeneration : ℕ
  streamWorkerStop : Bool
  aiWorkerStop : Bool
  subStreamRequired : Bool
  aiStreamRequired : Bool
  running : Bool
  sysInited : Bool
  svpInited : Bool
  owner : Owner
  streamWorker : StreamWorker
  aiWorker : AiWorker
  detectors : List ℕ
  nextDetector : ℕ
  nextAddr : ℕ
  now : ℕ

/-- The constructor. -/
def init : State where
  capture := .init
  encodedChannel := none
  aiPublisher := false
  yolov8 := none
  streamGeneration := 0
  aiGeneration := 0
  streamWorkerStop := false
  aiWorkerStop := false
  subStreamRequired := false
  aiStreamRequired := false
  running := false
  sysInited := false
  svpInited := false
  owner := .idle
  streamWorker := .absent
  aiWorker := .absent
  detectors := []
  nextDetector := 0
  nextAddr := 0
  now := 0

namespace State

/-- The flag of the sub stream, `false` without a channel. -/
def subStreamRunning (s : State) : Bool := s.encodedChannel.any (·.subStreamRunning)

/-! ### The parts of `start` and `stop` -/

/-- `encoded_channel_->set_sub_stream_enabled`. -/
def setSubStreamEnabled (s : State) (enable : Bool) (sdk : VencAnswers) : Bool × State :=
  match s.encodedChannel with
  | none => (false, s)
  | some c =>
    match c.setSubStreamEnabled s.capture enable sdk with
    | (ok, c, g) => (ok, { s with encodedChannel := some c, capture := g })

/-- `stop_yolov8_locked`. -/
def stopYolov8Locked (s : State) : State :=
  match s.yolov8 with
  | none => s
  | some detector => { s with yolov8 := none, detectors := s.detectors.erase detector }

/-- `encoded_channel_->stop(); encoded_channel_.reset()`. -/
def releaseChannel (s : State) : State :=
  match s.encodedChannel with
  | none => s
  | some c => { s with encodedChannel := none, capture := (c.stop s.capture).2 }

/-- `fail_cleanup` of `start`, which then returns. -/
def failCleanup (s : State) : State :=
  { s.stopYolov8Locked.releaseChannel with
    aiPublisher := false
    svpInited := false
    sysInited := false
    owner := .idle }

/-- What the devices answer to `start`, up to its encoders. -/
structure StartAnswers where
  sysInit : Bool
  tracks : Bool
  chn : ChnAnswers

/-- What the devices answer to the rest of `start`. -/
structure BootAnswers where
  sub : VencAnswers
  audio : Bool
  svp : Bool
  aiTrack : Bool

/-- `start` up to `start_encoders`. -/
def start (o : Options) (s : State) (source : Bool) (a : StartAnswers) : State :=
  if s.running || !source || !a.sysInit then s
  else
    let s := { s with sysInited := true, encodedChannel := some .make }
    if !a.tracks then s.failCleanup
    else
      match Chn.make.start s.capture a.chn s.nextAddr o.mainSvc o.subEnable with
      | (ok, c, g) =>
        let s := { s with
          encodedChannel := some c, capture := g, nextAddr := s.nextAddr + 2 }
        if !ok then s.failCleanup else { s with owner := .encoders }

/-- The sub stream of a configuration that starts it at boot. -/
def bootSub (o : Options) (s : State) (sdk : VencAnswers) : Bool × State :=
  if o.subEnable && o.subBoot then s.setSubStreamEnabled true sdk else (true, s)

/-- `start` from there to `start_capture(true)`. -/
def boot (o : Options) (s : State) (a : BootAnswers) : State :=
  match s.bootSub o a.sub with
  | (ok, s) =>
    if !(ok && a.audio && (!o.aiEnable || (a.svp && a.aiTrack))) then s.failCleanup
    else
      { s with
        svpInited := o.aiEnable || s.svpInited
        aiPublisher := o.aiEnable || s.aiPublisher
        capture := s.capture.startCapture.2
        owner := .capturing }

/-- The locked section of `start`, and its threads. -/
def runWorkers (o : Options) (s : State) : State :=
  { s with
    streamWorkerStop := false
    aiWorkerStop := false
    subStreamRequired := o.subEnable && o.subBoot
    aiStreamRequired := o.aiEnable && o.aiBoot
    streamGeneration := s.streamGeneration + 1
    aiGeneration := s.aiGeneration + 1
    running := true
    streamWorker := .fresh
    aiWorker := if o.aiEnable then .fresh else .absent
    owner := .idle }

/-- `stop` up to its joins. -/
def beginStop (s : State) : State :=
  if !s.running && s.encodedChannel.isNone && !s.sysInited then s
  else
    { s with
      running := false
      streamWorkerStop := true
      aiWorkerStop := true
      subStreamRequired := false
      aiStreamRequired := false
      streamGeneration := s.streamGeneration + 1
      aiGeneration := s.aiGeneration + 1
      owner := .stopping }

/-- `stop` after its joins. -/
def finishStop (s : State) : State :=
  let s := { s.stopYolov8Locked with aiPublisher := false, capture := s.capture.stopCapture }
  { s.releaseChannel with
    svpInited := false
    sysInited := false
    streamWorker := .absent
    aiWorker := .absent
    owner := .idle }

/-- Both threads of the pipeline can be joined. -/
def joinable (s : State) : Bool :=
  (s.streamWorker == .absent || s.streamWorker == .returned) &&
    (s.aiWorker == .absent || s.aiWorker == .returned)

/-! ### Demand -/

/-- `set_stream_active`. -/
def setStreamActive (o : Options) (s : State) (channelId streamId : ℤ) (active : Bool)
    (sdk : VencAnswers) : Bool × State :=
  if channelId ≠ o.channelId then (false, s)
  else if streamId = 0 then (true, s)
  else if streamId = AI_STREAM_ID then
    if !o.aiEnable then (false, s)
    else if !s.running || s.encodedChannel.isNone || !s.aiPublisher then (false, s)
    else (true, { s with aiStreamRequired := active, aiGeneration := s.aiGeneration + 1 })
  else if streamId ≠ SUB_STREAM_ID || !o.subEnable then (false, s)
  else if !s.running || s.encodedChannel.isNone then (false, s)
  else
    let s := { s with
      subStreamRequired := active, streamGeneration := s.streamGeneration + 1 }
    if !active then (true, s)
    else
      match s.setSubStreamEnabled true sdk with
      | (true, s) => (true, s)
      | (false, s) =>
        (false, { s with
          subStreamRequired := false, streamGeneration := s.streamGeneration + 1 })

/-! ### The workers -/

/-- The loop of `stream_lifecycle_worker` from its head to its next wait. -/
def streamLoop (o : Options) (s : State) : StreamWorker :=
  if s.streamWorkerStop then .returned
  else if s.subStreamRequired then .waitWithdrawn
  else .waitIdle s.streamGeneration (s.now + o.idle)

/-- The predicate of the idle wait of `stream_lifecycle_worker`. -/
def streamChanged (s : State) (generation : ℕ) : Bool :=
  s.streamWorkerStop || s.subStreamRequired || s.streamGeneration != generation

/-- The stream worker starts or is notified. -/
def streamNext (o : Options) (s : State) : Option StreamWorker :=
  match s.streamWorker with
  | .fresh | .waitWithdrawn => some (s.streamLoop o)
  | .waitIdle generation _ =>
    some (if s.streamChanged generation then s.streamLoop o else s.streamWorker)
  | .waitRequired =>
    some (if s.streamWorkerStop || s.subStreamRequired then s.streamLoop o
      else s.streamWorker)
  | .absent | .returned => none

/-- The idle wait of the stream worker times out; the predicate is evaluated
once more, under the mutex. -/
def streamTimeout (o : Options) (s : State) (sdk : VencAnswers) : Option State :=
  match s.streamWorker with
  | .waitIdle generation deadline =>
    if s.now < deadline then none
    else if s.streamChanged generation then some { s with streamWorker := s.streamLoop o }
    else some { (s.setSubStreamEnabled false sdk).2 with streamWorker := .waitRequired }
  | _ => none

/-- The loop of `ai_lifecycle_worker` from its head to the next place where it
gives the mutex up. -/
def aiLoop (o : Options) (s : State) : AiWorker :=
  if s.aiWorkerStop then .returned
  else if s.aiStreamRequired && s.yolov8.isNone then .starting s.aiGeneration
  else if !s.aiStreamRequired && s.yolov8.isSome then
    .waitIdle s.aiGeneration (s.now + o.idle)
  else .waiting

/-- The predicate of the idle wait of `ai_lifecycle_worker`. -/
def aiChanged (s : State) (generation : ℕ) : Bool :=
  s.aiWorkerStop || s.aiStreamRequired || s.aiGeneration != generation

/-- The AI worker starts or is notified. -/
def aiNext (o : Options) (s : State) : Option AiWorker :=
  match s.aiWorker with
  | .fresh | .waiting => some (s.aiLoop o)
  | .waitIdle generation _ =>
    some (if s.aiChanged generation then s.aiLoop o else s.aiWorker)
  | _ => none

/-- The idle wait of the AI worker times out. -/
def aiTimeout (o : Options) (s : State) : Option State :=
  match s.aiWorker with
  | .waitIdle generation deadline =>
    if s.now < deadline then none
    else if s.aiChanged generation then some { s with aiWorker := s.aiLoop o }
    else some { s.stopYolov8Locked with aiWorker := s.stopYolov8Locked.aiLoop o }
  | _ => none

/-- What both locked sections of `start_yolov8_async` check. -/
def aiOvertaken (s : State) (generation : ℕ) : Bool :=
  s.aiWorkerStop || !s.aiStreamRequired || s.aiGeneration != generation ||
    s.yolov8.isSome

/-- `start_yolov8_async` up to the call of `detector->start`. -/
def aiCheck (s : State) : Option State :=
  match s.aiWorker with
  | .starting generation =>
    if s.aiOvertaken generation || s.encodedChannel.isNone || !s.aiPublisher ||
        !s.svpInited || !s.encodedChannel.any (·.vi) then
      some { s with aiWorker := .relocking generation false }
    else
      some { s with
        aiWorker := .loading generation s.nextDetector
        detectors := s.nextDetector :: s.detectors
        nextDetector := s.nextDetector + 1 }
  | _ => none

/-- `detector->start` returns. -/
def aiLoad (s : State) (ok : Bool) : Option State :=
  match s.aiWorker with
  | .loading generation detector =>
    if ok then some { s with aiWorker := .loaded generation detector }
    else
      some { s with
        aiWorker := .relocking generation false
        detectors := s.detectors.erase detector }
  | _ => none

/-- The second locked section of `start_yolov8_async`. -/
def aiPublish (s : State) : Option State :=
  match s.aiWorker with
  | .loaded generation detector =>
    if s.aiOvertaken generation then
      some { s with
        aiWorker := .relocking generation false
        detectors := s.detectors.erase detector }
    else
      some { s with aiWorker := .relocking generation true, yolov8 := some detector }
  | _ => none

/-- A detector that does not start is not asked for again. -/
def withdrawAi (s : State) : State :=
  { s with aiStreamRequired := false, aiGeneration := s.aiGeneration + 1 }

/-- `ai_lifecycle_worker` takes the mutex again. -/
def aiRelock (o : Options) (s : State) : Option State :=
  match s.aiWorker with
  | .relocking generation ok =>
    if !ok && s.aiStreamRequired && s.aiGeneration == generation && s.yolov8.isNone then
      some { s.withdrawAi with aiWorker := s.withdrawAi.aiLoop o }
    else some { s with aiWorker := s.aiLoop o }
  | _ => none

end State

open State

/-- Who moves, with what the devices answer. -/
inductive Label
  | start (source : Bool) (answers : StartAnswers)
  | boot (answers : BootAnswers)
  | run
  | beginStop
  | finishStop
  | setStreamActive (channelId streamId : ℤ) (active : Bool) (sdk : VencAnswers)
  | streamWake
  | streamTimeout (sdk : VencAnswers)
  | aiWake
  | aiTimeout
  | aiCheck
  | aiLoad (ok : Bool)
  | aiPublish
  | aiRelock
  | captureExits
  | tick (elapsed : ℕ)

/-- One step of one thread. -/
def step (o : Options) (s : State) : Label → Option State
  | .start source answers =>
    if s.owner = .idle then some (s.start o source answers) else none
  | .boot answers => if s.owner = .encoders then some (s.boot o answers) else none
  | .run => if s.owner = .capturing then some (s.runWorkers o) else none
  | .beginStop => if s.owner = .idle then some s.beginStop else none
  | .finishStop => if s.owner = .stopping && s.joinable then some s.finishStop else none
  | .setStreamActive channelId streamId active sdk =>
    some (s.setStreamActive o channelId streamId active sdk).2
  | .streamWake => (s.streamNext o).map fun w => { s with streamWorker := w }
  | .streamTimeout sdk => s.streamTimeout o sdk
  | .aiWake => (s.aiNext o).map fun w => { s with aiWorker := w }
  | .aiTimeout => s.aiTimeout o
  | .aiCheck => s.aiCheck
  | .aiLoad ok => s.aiLoad ok
  | .aiPublish => s.aiPublish
  | .aiRelock => s.aiRelock o
  | .captureExits => some { s with capture := s.capture.captureExits }
  | .tick elapsed => some { s with now := s.now + elapsed }

variable {o : Options} {s t : State}

/-! ### The encoders through a step -/

/-- The capture list and the channel agree, and so far no change of the list has
met a capture thread. -/
structure Encoding (s : State) : Prop where
  guarded : s.capture.Guarded
  tidy : ∀ c ∈ s.encodedChannel, c.Tidy s.capture
  bare : s.encodedChannel = none → s.capture.vencs = []

/-- A step that leaves the channel and the capture alone keeps them agreeing. -/
theorem Encoding.congr (h : Encoding s) (hcapture : t.capture = s.capture)
    (hchannel : t.encodedChannel = s.encodedChannel) : Encoding t where
  guarded := hcapture ▸ h.guarded
  tidy := by rw [hcapture, hchannel]; exact h.tidy
  bare := by rw [hcapture, hchannel]; exact h.bare

theorem encoding_bare (hg : s.capture.Guarded) (hnone : s.encodedChannel = none)
    (hnil : s.capture.vencs = []) : Encoding s where
  guarded := hg
  tidy := fun c hc => absurd hc (by simp [hnone])
  bare := fun _ => hnil

theorem encoding_init : Encoding init := encoding_bare Capture.guarded_init rfl rfl

/-- There is a sub encoder. -/
def State.hasSub (s : State) : Bool := s.encodedChannel.any (·.sub.isSome)

/-- **Switching the sub stream** changes the channel and the capture list only. -/
theorem setSubStreamEnabled_spec (h : Encoding s) {enable ok : Bool} {sdk : VencAnswers}
    (heq : s.setSubStreamEnabled enable sdk = (ok, t)) :
    ∃ channel capture, t = { s with encodedChannel := channel, capture := capture } ∧
      channel.isSome = s.encodedChannel.isSome ∧ Encoding t ∧
      capture.isCapturing = s.capture.isCapturing ∧ t.hasSub = s.hasSub ∧
      t.subStreamRunning = (if ok then enable else s.subStreamRunning) ∧
      (ok = false → capture.vencs = s.capture.vencs) := by
  rw [setSubStreamEnabled] at heq
  split at heq
  next hnone =>
    obtain ⟨rfl, rfl⟩ := by simpa using heq
    exact ⟨s.encodedChannel, s.capture, rfl, rfl, h, rfl, rfl, rfl, fun _ => rfl⟩
  next c hc =>
    rcases hcall : c.setSubStreamEnabled s.capture enable sdk with ⟨ok', c', g'⟩
    rw [hcall] at heq
    obtain ⟨rfl, rfl⟩ := by simpa using heq
    obtain ⟨htidy, hg, hcapture, hsub, hflag, hsame⟩ :=
      Chn.tidy_setSubStreamEnabled (h.tidy c hc) h.guarded hcall
    refine ⟨some c', g', rfl, by rw [hc]; rfl, ⟨hg, ?_, nofun⟩, hcapture, ?_, ?_, hsame⟩
    · intro d hd
      obtain rfl : c' = d := by simpa using hd
      exact htidy
    · simpa [hasSub, hc] using hsub
    · simpa [subStreamRunning, hc] using hflag

/-- Booting the sub stream changes as little. -/
theorem bootSub_spec (h : Encoding s) {ok : Bool} {sdk : VencAnswers}
    (heq : s.bootSub o sdk = (ok, t)) :
    ∃ channel capture, t = { s with encodedChannel := channel, capture := capture } ∧
      channel.isSome = s.encodedChannel.isSome ∧ Encoding t ∧
      capture.isCapturing = s.capture.isCapturing ∧ t.hasSub = s.hasSub ∧
      (ok = true → (o.subEnable && o.subBoot) = true → t.subStreamRunning = true) := by
  rw [bootSub] at heq
  split at heq
  next =>
    obtain ⟨channel, capture, ht, hsome, hencoding, hcapture, hsub, hflag, -⟩ :=
      setSubStreamEnabled_spec h heq
    refine ⟨channel, capture, ht, hsome, hencoding, hcapture, hsub, fun hok _ => ?_⟩
    simp [hflag, hok]
  next hnot =>
    obtain ⟨rfl, rfl⟩ := by simpa using heq
    exact ⟨s.encodedChannel, s.capture, rfl, rfl, h, rfl, rfl, fun _ hboot => absurd hboot hnot⟩

/-- **Releasing the channel** without a capture leaves no encoder. -/
theorem releaseChannel_spec (h : Encoding s) (hcapture : s.capture.isCapturing = false) :
    ∃ capture, s.releaseChannel = { s with encodedChannel := none, capture := capture } ∧
      capture.Guarded ∧ capture.vencs = [] ∧ capture.isCapturing = false := by
  rw [releaseChannel]
  split
  next hnone =>
    refine ⟨s.capture, ?_, h.guarded, h.bare hnone, hcapture⟩
    rw [← hnone]
  next c hc =>
    obtain ⟨hnil, hg, hoff⟩ := Chn.tidy_stop (h.tidy c hc) h.guarded hcapture
    exact ⟨_, rfl, hg, hnil, hoff⟩

/-- The detectors but the published one. -/
def State.otherDetectors (s : State) : List ℕ := s.yolov8.elim s.detectors s.detectors.erase

/-- `stop_yolov8_locked` is about the published detector only. -/
theorem stopYolov8Locked_eq (s : State) :
    s.stopYolov8Locked = { s with yolov8 := none, detectors := s.otherDetectors } := by
  rw [stopYolov8Locked, otherDetectors]
  split
  next hnone =>
    rw [hnone]
    show s = { s with yolov8 := none }
    rw [← hnone]
  next detector hsome => rw [hsome]; rfl

/-- **A failed start** leaves nothing behind. -/
theorem failCleanup_spec (h : Encoding s) (hcapture : s.capture.isCapturing = false) :
    ∃ capture, s.failCleanup = { s with
        encodedChannel := none, capture := capture, yolov8 := none
        detectors := s.otherDetectors, aiPublisher := false, svpInited := false
        sysInited := false, owner := .idle } ∧
      capture.Guarded ∧ capture.vencs = [] ∧ capture.isCapturing = false := by
  have h' : Encoding { s with yolov8 := none, detectors := s.otherDetectors } := h.congr rfl rfl
  obtain ⟨capture, heq, hg, hnil, hoff⟩ := releaseChannel_spec h' hcapture
  exact ⟨capture, by rw [failCleanup, stopYolov8Locked_eq, heq], hg, hnil, hoff⟩

/-! ### What the parts of `start` and `stop` leave alone -/

theorem releaseChannel_eq (s : State) :
    ∃ capture, s.releaseChannel = { s with encodedChannel := none, capture := capture } := by
  rw [releaseChannel]
  split
  next hnone => exact ⟨s.capture, by rw [← hnone]⟩
  next => exact ⟨_, rfl⟩

theorem setSubStreamEnabled_eq (s : State) (enable : Bool) (sdk : VencAnswers) :
    ∃ channel capture, (s.setSubStreamEnabled enable sdk).2 =
      { s with encodedChannel := channel, capture := capture } := by
  rw [State.setSubStreamEnabled]
  split
  · exact ⟨_, _, rfl⟩
  · exact ⟨_, _, rfl⟩

theorem failCleanup_eq (s : State) :
    ∃ capture, s.failCleanup = { s with
      encodedChannel := none, capture := capture, yolov8 := none
      detectors := s.otherDetectors, aiPublisher := false, svpInited := false
      sysInited := false, owner := .idle } := by
  obtain ⟨capture, hrelease⟩ := releaseChannel_eq s.stopYolov8Locked
  exact ⟨capture, by rw [failCleanup, hrelease, stopYolov8Locked_eq]⟩

theorem finishStop_eq (s : State) :
    ∃ capture, s.finishStop = { s with
      encodedChannel := none, capture := capture, yolov8 := none
      detectors := s.otherDetectors, aiPublisher := false, svpInited := false
      sysInited := false, streamWorker := .absent, aiWorker := .absent, owner := .idle } := by
  obtain ⟨capture, hrelease⟩ := releaseChannel_eq { s.stopYolov8Locked with
    aiPublisher := false, capture := s.capture.stopCapture }
  exact ⟨capture, by rw [finishStop, hrelease, stopYolov8Locked_eq]⟩

/-- **What `start` can do up to its encoders**: nothing, fail, or start them. -/
theorem start_cases (s : State) (source : Bool) (a : StartAnswers) :
    s.start o source a = s ∨
    (s.running = false ∧ ∃ capture next, s.start o source a = { s with
      encodedChannel := none, capture := capture, yolov8 := none
      detectors := s.otherDetectors, aiPublisher := false, svpInited := false
      sysInited := false, owner := .idle, nextAddr := next }) ∨
    (s.running = false ∧ ∃ c capture next, (c.sub.isSome = true → o.subEnable = true) ∧
      s.start o source a = { s with
        sysInited := true, encodedChannel := some c, capture := capture
        nextAddr := next, owner := .encoders }) := by
  rw [start]
  split
  next => exact .inl rfl
  next hadmits =>
  have hrunning : s.running = false := by
    cases hrunning : s.running with
    | false => rfl
    | true => simp [hrunning] at hadmits
  refine .inr ?_
  dsimp only
  split
  next =>
    obtain ⟨capture, heq⟩ := failCleanup_eq { s with
      sysInited := true, encodedChannel := some .make }
    exact .inl ⟨hrunning, capture, s.nextAddr, heq⟩
  next =>
  rcases hstart : Chn.make.start s.capture a.chn s.nextAddr o.mainSvc o.subEnable with
    ⟨ok, c, g⟩
  dsimp only
  split
  · obtain ⟨capture, heq⟩ := failCleanup_eq { s with
      sysInited := true, encodedChannel := some c, capture := g, nextAddr := s.nextAddr + 2 }
    exact .inl ⟨hrunning, capture, _, heq⟩
  · refine .inr ⟨hrunning, c, g, _, fun hsub => ?_, rfl⟩
    exact Chn.subEnable_of_start hstart hsub

/-- **What the rest of `start` can do**: fail, or start the capture with the sub
stream booted. -/
theorem boot_cases (h : Encoding s) (a : BootAnswers) :
    (∃ capture, s.boot o a = { s with
      encodedChannel := none, capture := capture, yolov8 := none
      detectors := s.otherDetectors, aiPublisher := false, svpInited := false
      sysInited := false, owner := .idle }) ∨
    (∃ channel capture svp publisher, s.boot o a = { s with
        encodedChannel := channel, capture := capture, svpInited := svp
        aiPublisher := publisher, owner := .capturing } ∧
      (s.boot o a).hasSub = s.hasSub ∧
      ((o.subEnable && o.subBoot) = true → (s.boot o a).subStreamRunning = true)) := by
  rcases hcall : s.bootSub o a.sub with ⟨ok, t⟩
  obtain ⟨channel, capture, rfl, -, -, -, hsub, hboot⟩ := bootSub_spec h hcall
  rw [boot, hcall]
  dsimp only
  split
  next =>
    obtain ⟨capture', heq⟩ := failCleanup_eq { s with
      encodedChannel := channel, capture := capture }
    exact .inl ⟨capture', heq⟩
  next hok =>
    have hok' : ok = true := by
      cases ok with
      | true => rfl
      | false => simp at hok
    exact .inr ⟨channel, _, _, _, rfl, hsub, hboot hok'⟩

/-! ### The phases of the pipeline -/

/-- No worker runs. -/
def NoWorkers (s : State) : Prop := s.streamWorker = .absent ∧ s.aiWorker = .absent

/-- Where the pipeline stands between two steps. -/
inductive Phase (s : State) : Prop
  | off (owner : s.owner = .idle) (running : s.running = false)
      (channel : s.encodedChannel = none) (sys : s.sysInited = false)
      (capture : s.capture.isCapturing = false) (workers : NoWorkers s)
  | encoders (owner : s.owner = .encoders) (running : s.running = false)
      (channel : s.encodedChannel.isSome = true) (capture : s.capture.isCapturing = false)
      (workers : NoWorkers s)
  | capturing (owner : s.owner = .capturing) (running : s.running = false)
      (channel : s.encodedChannel.isSome = true) (workers : NoWorkers s)
  | on (owner : s.owner = .idle) (running : s.running = true)
      (channel : s.encodedChannel.isSome = true)
      (stream : s.streamWorkerStop = false) (ai : s.aiWorkerStop = false)
  | stopping (owner : s.owner = .stopping) (running : s.running = false)
      (stream : s.streamWorkerStop = true) (ai : s.aiWorkerStop = true)

theorem phase_init : Phase init := .off rfl rfl rfl rfl rfl ⟨rfl, rfl⟩

/-- **The invariant of the pipeline.** -/
structure Inv (s : State) : Prop where
  encoding : Encoding s
  phase : Phase s

theorem inv_init : Inv init := ⟨encoding_init, phase_init⟩

/-- A state that differs in demand, detector and clock only is in the same phase. -/
theorem Phase.congr (h : Phase s) (howner : t.owner = s.owner) (hrunning : t.running = s.running)
    (hchannel : t.encodedChannel.isSome = s.encodedChannel.isSome)
    (hsys : t.sysInited = s.sysInited)
    (hcapture : t.capture.isCapturing = s.capture.isCapturing)
    (hstream : t.streamWorkerStop = s.streamWorkerStop)
    (hai : t.aiWorkerStop = s.aiWorkerStop)
    (hworkers : NoWorkers s → NoWorkers t) : Phase t := by
  cases h with
  | off owner running channel sys capture workers =>
    refine .off (howner.trans owner) (hrunning.trans running) ?_ (hsys.trans sys)
      (hcapture.trans capture) (hworkers workers)
    simpa [channel] using hchannel
  | encoders owner running channel capture workers =>
    exact .encoders (howner.trans owner) (hrunning.trans running) (hchannel.trans channel)
      (hcapture.trans capture) (hworkers workers)
  | capturing owner running channel workers =>
    exact .capturing (howner.trans owner) (hrunning.trans running) (hchannel.trans channel)
      (hworkers workers)
  | on owner running channel stream ai =>
    exact .on (howner.trans owner) (hrunning.trans running) (hchannel.trans channel)
      (hstream.trans stream) (hai.trans ai)
  | stopping owner running stream ai =>
    exact .stopping (howner.trans owner) (hrunning.trans running) (hstream.trans stream)
      (hai.trans ai)

/-! ### Every step keeps the phase -/

/-- An idle owner without the flag means that nothing has been started. -/
theorem Phase.off_of_idle (h : Phase s) (howner : s.owner = .idle) (hrunning : s.running = false) :
    s.encodedChannel = none ∧ s.sysInited = false ∧ s.capture.isCapturing = false ∧
      NoWorkers s := by
  cases h with
  | off _ _ channel sys capture workers => exact ⟨channel, sys, capture, workers⟩
  | encoders owner => simp [howner] at owner
  | capturing owner => simp [howner] at owner
  | on _ running => simp [hrunning] at running
  | stopping owner => simp [howner] at owner

/-- A running pipeline has a channel, and no worker is told to stop. -/
theorem Phase.on_of_running (h : Phase s) (hrunning : s.running = true) :
    s.owner = .idle ∧ s.encodedChannel.isSome = true ∧ s.streamWorkerStop = false ∧
      s.aiWorkerStop = false := by
  cases h with
  | off _ running => simp [hrunning] at running
  | encoders _ running => simp [hrunning] at running
  | capturing _ running => simp [hrunning] at running
  | on owner _ channel stream ai => exact ⟨owner, channel, stream, ai⟩
  | stopping _ running => simp [hrunning] at running

/-- The flag is up only while the owner is idle. -/
theorem Phase.not_running (h : Phase s) (howner : s.owner ≠ .idle) : s.running = false := by
  cases hrunning : s.running with
  | false => rfl
  | true => exact absurd (h.on_of_running hrunning).1 howner

/-- A worker lives while the pipeline runs or is being stopped. -/
theorem Phase.of_worker (h : Phase s) (hworkers : ¬ NoWorkers s) :
    s.running = true ∨ s.owner = .stopping := by
  cases h with
  | off _ _ _ _ _ workers => exact absurd workers hworkers
  | encoders _ _ _ _ workers => exact absurd workers hworkers
  | capturing _ _ _ workers => exact absurd workers hworkers
  | on _ running => exact .inl running
  | stopping owner => exact .inr owner

/-- A worker that is not told to stop belongs to a running pipeline. -/
theorem Phase.running_of_worker (h : Phase s) (hworkers : ¬ NoWorkers s)
    (hstop : s.streamWorkerStop = false ∨ s.aiWorkerStop = false) : s.running = true := by
  cases h with
  | off _ _ _ _ _ workers => exact absurd workers hworkers
  | encoders _ _ _ _ workers => exact absurd workers hworkers
  | capturing _ _ _ workers => exact absurd workers hworkers
  | on _ running => exact running
  | stopping _ _ stream ai => simp [stream, ai] at hstop

theorem off_failCleanup (h : Encoding s) (hcapture : s.capture.isCapturing = false)
    (hrunning : s.running = false) (hworkers : NoWorkers s) : Inv s.failCleanup := by
  obtain ⟨capture, heq, hg, hnil, hoff⟩ := failCleanup_spec h hcapture
  rw [heq]
  exact ⟨encoding_bare hg rfl hnil, .off rfl hrunning rfl rfl hoff hworkers⟩

theorem inv_start (h : Inv s) (howner : s.owner = .idle) (source : Bool) (a : StartAnswers) :
    Inv (s.start o source a) := by
  rw [start]
  split
  next => exact h
  next hadmits =>
  have hrunning : s.running = false := by
    cases hrunning : s.running with
    | false => rfl
    | true => simp [hrunning] at hadmits
  obtain ⟨hchannel, -, hcapture, hworkers⟩ := h.phase.off_of_idle howner hrunning
  -- no channel yet, so the encoders are bare
  have hnil := h.encoding.bare hchannel
  dsimp only
  split
  next =>
    refine off_failCleanup ⟨h.encoding.guarded, ?_, nofun⟩ hcapture hrunning hworkers
    intro c hc
    obtain rfl : Chn.make = c := by simpa using hc
    exact Chn.tidy_make hnil
  next =>
  rcases hstart : Chn.make.start s.capture a.chn s.nextAddr o.mainSvc o.subEnable with
    ⟨ok, c, g⟩
  obtain ⟨htidy, hg, hoff⟩ := Chn.tidy_start h.encoding.guarded hcapture hnil hstart
  have hencoding : Encoding { s with
      sysInited := true, encodedChannel := some c, capture := g
      nextAddr := s.nextAddr + 2 } := by
    refine ⟨hg, fun d hd => ?_, nofun⟩
    obtain rfl : c = d := by simpa using hd
    exact htidy
  dsimp only
  split
  · exact off_failCleanup hencoding hoff hrunning hworkers
  · exact ⟨hencoding.congr rfl rfl, .encoders rfl hrunning rfl hoff hworkers⟩

theorem inv_boot (h : Inv s) (howner : s.owner = .encoders) (a : BootAnswers) :
    Inv (s.boot o a) := by
  obtain ⟨hrunning, hchannel, hcapture, hworkers⟩ : s.running = false ∧
      s.encodedChannel.isSome = true ∧ s.capture.isCapturing = false ∧ NoWorkers s := by
    cases h.phase with
    | off owner => simp [howner] at owner
    | encoders _ running channel capture workers => exact ⟨running, channel, capture, workers⟩
    | capturing owner => simp [howner] at owner
    | on owner => simp [howner] at owner
    | stopping owner => simp [howner] at owner
  rcases hcall : s.bootSub o a.sub with ⟨ok, t⟩
  obtain ⟨channel, capture, rfl, hsome, hencoding, hoff, -⟩ := bootSub_spec h.encoding hcall
  rw [boot, hcall]
  dsimp only
  split
  · exact off_failCleanup hencoding (hoff.trans hcapture) hrunning hworkers
  · refine ⟨⟨Capture.guarded_startCapture hencoding.guarded, ?_, ?_⟩,
      .capturing rfl hrunning (hsome.trans hchannel) hworkers⟩
    · intro c hc
      have hc' := hencoding.tidy c hc
      exact ⟨(Capture.startCapture_vencs _).trans hc'.vencs, hc'.flag, hc'.apart, hc'.stopped⟩
    · intro hnone
      exact (Capture.startCapture_vencs _).trans (hencoding.bare hnone)

theorem inv_runWorkers (h : Inv s) (howner : s.owner = .capturing) : Inv (s.runWorkers o) := by
  refine ⟨h.encoding.congr rfl rfl, ?_⟩
  cases h.phase with
  | off owner => simp [howner] at owner
  | encoders owner => simp [howner] at owner
  | capturing _ _ channel => exact .on rfl rfl channel rfl rfl
  | on owner => simp [howner] at owner
  | stopping owner => simp [howner] at owner

theorem inv_beginStop (h : Inv s) : Inv s.beginStop := by
  rw [beginStop]
  split
  · exact h
  · exact ⟨h.encoding.congr rfl rfl, .stopping rfl rfl rfl rfl⟩

theorem inv_finishStop (h : Inv s) (howner : s.owner = .stopping) : Inv s.finishStop := by
  have hrunning := h.phase.not_running (by simp [howner])
  have hencoding : Encoding { s with
      yolov8 := none, detectors := s.otherDetectors, aiPublisher := false
      capture := s.capture.stopCapture } := by
    refine ⟨Capture.guarded_stopCapture h.encoding.guarded, fun c hc => ?_, fun hnone => ?_⟩
    · have hc' := h.encoding.tidy c hc
      exact ⟨(Capture.stopCapture_vencs _).trans hc'.vencs, hc'.flag, hc'.apart, hc'.stopped⟩
    · exact (Capture.stopCapture_vencs _).trans (h.encoding.bare hnone)
  obtain ⟨capture, heq, hg, hnil, hoff⟩ :=
    releaseChannel_spec hencoding (Capture.stopCapture_isCapturing _)
  rw [finishStop, stopYolov8Locked_eq]
  dsimp only
  rw [heq]
  exact ⟨encoding_bare hg rfl hnil, .off rfl hrunning rfl rfl hoff ⟨rfl, rfl⟩⟩

/-- **What `set_stream_active` can do**: nothing, move the demand for the AI
stream, or move that for the sub stream and switch its encoder on. -/
theorem setStreamActive_cases {channelId streamId : ℤ} {active ok : Bool} {sdk : VencAnswers}
    (heq : s.setStreamActive o channelId streamId active sdk = (ok, t)) :
    (t = s ∧ (channelId = o.channelId → streamId = SUB_STREAM_ID → o.subEnable = true →
      s.running = true → s.encodedChannel = none)) ∨
    (streamId = AI_STREAM_ID ∧ s.running = true ∧
      t = { s with aiStreamRequired := active, aiGeneration := s.aiGeneration + 1 }) ∨
    (streamId = SUB_STREAM_ID ∧ s.running = true ∧ active = false ∧
      t = { s with
        subStreamRequired := false, streamGeneration := s.streamGeneration + 1 }) ∨
    (streamId = SUB_STREAM_ID ∧ s.running = true ∧ active = true ∧ ∃ u,
      State.setSubStreamEnabled { s with
        subStreamRequired := true, streamGeneration := s.streamGeneration + 1 } true sdk =
          (ok, u) ∧
      t = if ok then u else { u with
        subStreamRequired := false, streamGeneration := u.streamGeneration + 1 }) := by
  rw [setStreamActive] at heq
  -- the calls that are refused or ask for nothing come first in the source
  split at heq
  next hchannel =>
    obtain ⟨-, rfl⟩ := by simpa using heq
    exact .inl ⟨rfl, fun h => absurd h hchannel⟩
  split at heq
  next hmain =>
    obtain ⟨-, rfl⟩ := by simpa using heq
    exact .inl ⟨rfl, fun _ h => by simp [h, SUB_STREAM_ID] at hmain⟩
  split at heq
  next hai =>
    have hnot : streamId ≠ SUB_STREAM_ID := by rw [hai]; decide
    split at heq
    next =>
      obtain ⟨-, rfl⟩ := by simpa using heq
      exact .inl ⟨rfl, fun _ h => absurd h hnot⟩
    split at heq
    next =>
      obtain ⟨-, rfl⟩ := by simpa using heq
      exact .inl ⟨rfl, fun _ h => absurd h hnot⟩
    next hon =>
      obtain ⟨-, rfl⟩ := by simpa using heq
      refine .inr (.inl ⟨hai, ?_, rfl⟩)
      cases hrunning : s.running with
      | true => rfl
      | false => simp [hrunning] at hon
  split at heq
  next hother =>
    obtain ⟨-, rfl⟩ := by simpa using heq
    refine .inl ⟨rfl, fun _ hsub henable => ?_⟩
    simp [hsub, henable] at hother
  next hsub =>
  have hsub' : streamId = SUB_STREAM_ID := by
    by_contra hne
    simp [hne] at hsub
  split at heq
  next hoff =>
    obtain ⟨-, rfl⟩ := by simpa using heq
    refine .inl ⟨rfl, fun _ _ _ hrunning => ?_⟩
    simpa [hrunning] using hoff
  next hon =>
  have hrunning : s.running = true := by
    cases hrunning : s.running with
    | true => rfl
    | false => simp [hrunning] at hon
  dsimp only at heq
  split at heq
  next hactive =>
    -- a withdrawn demand is left to the worker
    obtain ⟨-, rfl⟩ := by simpa using heq
    obtain rfl : active = false := by simpa using hactive
    exact .inr (.inr (.inl ⟨hsub', hrunning, rfl, rfl⟩))
  next hactive =>
  obtain rfl : active = true := by simpa using hactive
  -- a new demand switches the encoder on in the same section
  split at heq
  next u hcall =>
    obtain ⟨rfl, rfl⟩ := by simpa using heq
    exact .inr (.inr (.inr ⟨hsub', hrunning, rfl, u, hcall, rfl⟩))
  next u hcall =>
    obtain ⟨rfl, rfl⟩ := by simpa using heq
    exact .inr (.inr (.inr ⟨hsub', hrunning, rfl, u, hcall, rfl⟩))

theorem inv_setStreamActive (h : Inv s) {channelId streamId : ℤ} {active ok : Bool}
    {sdk : VencAnswers} (heq : s.setStreamActive o channelId streamId active sdk = (ok, t)) :
    Inv t := by
  rcases setStreamActive_cases heq with
    ⟨rfl, -⟩ | ⟨-, -, rfl⟩ | ⟨-, -, -, rfl⟩ | ⟨-, -, -, u, hcall, rfl⟩
  · exact h
  · exact ⟨h.encoding.congr rfl rfl, h.phase.congr rfl rfl rfl rfl rfl rfl rfl id⟩
  · exact ⟨h.encoding.congr rfl rfl, h.phase.congr rfl rfl rfl rfl rfl rfl rfl id⟩
  · have hasked : Encoding { s with
        subStreamRequired := true, streamGeneration := s.streamGeneration + 1 } :=
      h.encoding.congr rfl rfl
    obtain ⟨channel, capture, rfl, hsome, hencoding, hcapture, -⟩ :=
      setSubStreamEnabled_spec hasked hcall
    split
    · exact ⟨hencoding, h.phase.congr rfl rfl hsome rfl hcapture rfl rfl id⟩
    · exact ⟨hencoding.congr rfl rfl, h.phase.congr rfl rfl hsome rfl hcapture rfl rfl id⟩

/-- The steps of `ai_lifecycle_worker`. -/
def Label.byAiWorker : Label → Bool
  | .aiWake | .aiTimeout | .aiCheck | .aiLoad _ | .aiPublish | .aiRelock => true
  | _ => false

/-- **What a step of `ai_lifecycle_worker` can do.** -/
inductive AiStep (o : Options) (s : State) : State → Prop
  /-- it starts or is woken, and runs its loop -/
  | loops (worker : s.aiWorker = .fresh ∨ s.aiWorker = .waiting ∨
      ∃ generation deadline, s.aiWorker = .waitIdle generation deadline) :
      AiStep o s { s with aiWorker := s.aiLoop o }
  | waits {generation deadline : ℕ} (worker : s.aiWorker = .waitIdle generation deadline) :
      AiStep o s s
  /-- the idle interval is over -/
  | ends {generation deadline : ℕ} (worker : s.aiWorker = .waitIdle generation deadline)
      (due : deadline ≤ s.now) (unchanged : s.aiChanged generation = false) :
      AiStep o s { s.stopYolov8Locked with aiWorker := s.stopYolov8Locked.aiLoop o }
  | refuses {generation : ℕ} (worker : s.aiWorker = .starting generation) :
      AiStep o s { s with aiWorker := .relocking generation false }
  | begins {generation : ℕ} (worker : s.aiWorker = .starting generation) :
      AiStep o s { s with
        aiWorker := .loading generation s.nextDetector
        detectors := s.nextDetector :: s.detectors
        nextDetector := s.nextDetector + 1 }
  | loads {generation detector : ℕ} (worker : s.aiWorker = .loading generation detector) :
      AiStep o s { s with aiWorker := .loaded generation detector }
  | fails {generation detector : ℕ} (worker : s.aiWorker = .loading generation detector) :
      AiStep o s { s with
        aiWorker := .relocking generation false
        detectors := s.detectors.erase detector }
  | drops {generation detector : ℕ} (worker : s.aiWorker = .loaded generation detector) :
      AiStep o s { s with
        aiWorker := .relocking generation false
        detectors := s.detectors.erase detector }
  | publishes {generation detector : ℕ} (worker : s.aiWorker = .loaded generation detector)
      (current : s.aiOvertaken generation = false) :
      AiStep o s { s with aiWorker := .relocking generation true, yolov8 := some detector }
  /-- `start_yolov8_async` is over, and the worker runs its loop -/
  | relocks {generation : ℕ} {ok : Bool} (worker : s.aiWorker = .relocking generation ok) :
      AiStep o s { s with aiWorker := s.aiLoop o }
  | withdraws {generation : ℕ} {ok : Bool} (worker : s.aiWorker = .relocking generation ok) :
      AiStep o s { s.withdrawAi with aiWorker := s.withdrawAi.aiLoop o }

theorem ai_step_cases {label : Label} (hby : label.byAiWorker = true)
    (hstep : step o s label = some t) : AiStep o s t := by
  cases label with
  | aiWake =>
    obtain ⟨w, hw, rfl⟩ := Option.map_eq_some_iff.mp hstep
    rw [aiNext] at hw
    split at hw
    next hworker =>
      obtain rfl := Option.some_inj.mp hw
      exact .loops (.inl hworker)
    next hworker =>
      obtain rfl := Option.some_inj.mp hw
      exact .loops (.inr (.inl hworker))
    next generation deadline hworker =>
      -- woken in its idle wait, by a change or for nothing
      split_ifs at hw
      · obtain rfl := Option.some_inj.mp hw
        exact .loops (.inr (.inr ⟨generation, deadline, hworker⟩))
      · obtain rfl := Option.some_inj.mp hw
        exact .waits hworker
    next => simp at hw
  | aiTimeout =>
    rw [step, aiTimeout] at hstep
    split at hstep
    next generation deadline hworker =>
      split_ifs at hstep with hearly hchanged
      · obtain rfl := Option.some_inj.mp hstep
        exact .loops (.inr (.inr ⟨generation, deadline, hworker⟩))
      · obtain rfl := Option.some_inj.mp hstep
        exact .ends hworker (by omega) (by simpa using hchanged)
    next => simp at hstep
  | aiCheck =>
    rw [step, aiCheck] at hstep
    split at hstep
    next generation hworker =>
      split_ifs at hstep
      · obtain rfl := Option.some_inj.mp hstep
        exact .refuses hworker
      · obtain rfl := Option.some_inj.mp hstep
        exact .begins hworker
    next => simp at hstep
  | aiLoad ok =>
    rw [step, aiLoad] at hstep
    split at hstep
    next generation detector hworker =>
      split_ifs at hstep
      · obtain rfl := Option.some_inj.mp hstep
        exact .loads hworker
      · obtain rfl := Option.some_inj.mp hstep
        exact .fails hworker
    next => simp at hstep
  | aiPublish =>
    rw [step, aiPublish] at hstep
    split at hstep
    next generation detector hworker =>
      -- a detector whose demand was overtaken is not published
      split_ifs at hstep with hovertaken
      · obtain rfl := Option.some_inj.mp hstep
        exact .drops hworker
      · obtain rfl := Option.some_inj.mp hstep
        exact .publishes hworker (by simpa using hovertaken)
    next => simp at hstep
  | aiRelock =>
    rw [step, aiRelock] at hstep
    split at hstep
    next generation ok hworker =>
      split_ifs at hstep
      · obtain rfl := Option.some_inj.mp hstep
        exact .withdraws hworker
      · obtain rfl := Option.some_inj.mp hstep
        exact .relocks hworker
    next => simp at hstep
  | _ => simp [Label.byAiWorker] at hby

/-- **The AI worker touches** its own place, the demand for its stream and the
detectors only. -/
theorem aiWorker_frame {label : Label} (hby : label.byAiWorker = true)
    (hstep : step o s label = some t) :
    s.aiWorker ≠ .absent ∧ ∃ worker required generation yolov8 detectors next,
      t = { s with
        aiWorker := worker, aiStreamRequired := required, aiGeneration := generation
        yolov8 := yolov8, detectors := detectors, nextDetector := next } := by
  cases ai_step_cases hby hstep with
  | loops worker =>
    refine ⟨?_, _, _, _, _, _, _, rfl⟩
    rcases worker with worker | worker | ⟨generation, deadline, worker⟩ <;> simp [worker]
  | ends worker due unchanged =>
    rw [stopYolov8Locked_eq]
    exact ⟨by simp [worker], _, _, _, _, _, _, rfl⟩
  | waits worker | refuses worker | begins worker | loads worker | fails worker | drops worker
  | publishes worker | relocks worker | withdraws worker =>
    exact ⟨by simp [worker], _, _, _, _, _, _, rfl⟩

/-- **What the idle timeout of the stream worker can do.** -/
theorem streamTimeout_cases {sdk : VencAnswers} (h : s.streamTimeout o sdk = some t) :
    ∃ generation deadline, s.streamWorker = .waitIdle generation deadline ∧
      deadline ≤ s.now ∧
      ((s.streamChanged generation = true ∧
          t = { s with streamWorker := s.streamLoop o }) ∨
        s.streamChanged generation = false ∧ ∃ ok u,
          s.setSubStreamEnabled false sdk = (ok, u) ∧
            t = { u with streamWorker := .waitRequired }) := by
  rw [streamTimeout] at h
  split at h
  next generation deadline hworker =>
    refine ⟨generation, deadline, hworker, ?_⟩
    split_ifs at h with hearly hchanged
    · exact ⟨by omega, .inl ⟨hchanged, (Option.some_inj.mp h).symm⟩⟩
    · refine ⟨by omega, .inr ⟨by simpa using hchanged, _, _, rfl, (Option.some_inj.mp h).symm⟩⟩
  next => simp at h

/-- **Every step keeps the invariant of the pipeline.** -/
theorem inv_step (h : Inv s) {label : Label} (hstep : step o s label = some t) : Inv t := by
  by_cases hby : label.byAiWorker = true
  · -- no step of this worker touches an encoder
    obtain ⟨hpresent, _, _, _, _, _, _, rfl⟩ := aiWorker_frame hby hstep
    exact ⟨h.encoding.congr rfl rfl,
      h.phase.congr rfl rfl rfl rfl rfl rfl rfl fun hno => absurd hno.2 hpresent⟩
  cases label with
  | start source answers =>
    obtain ⟨howner, rfl⟩ := by simpa [step] using hstep
    exact inv_start h howner source answers
  | boot answers =>
    obtain ⟨howner, rfl⟩ := by simpa [step] using hstep
    exact inv_boot h howner answers
  | run =>
    obtain ⟨howner, rfl⟩ := by simpa [step] using hstep
    exact inv_runWorkers h howner
  | beginStop =>
    obtain ⟨-, rfl⟩ := by simpa [step] using hstep
    exact inv_beginStop h
  | finishStop =>
    obtain ⟨⟨howner, -⟩, rfl⟩ := by simpa [step] using hstep
    exact inv_finishStop h howner
  | setStreamActive channelId streamId active sdk =>
    obtain rfl := Option.some_inj.mp hstep
    exact inv_setStreamActive h rfl
  | streamWake =>
    obtain ⟨w, hw, rfl⟩ := Option.map_eq_some_iff.mp hstep
    have hpresent : s.streamWorker ≠ .absent := by
      intro habsent
      simp [streamNext, habsent] at hw
    exact ⟨h.encoding.congr rfl rfl,
      h.phase.congr rfl rfl rfl rfl rfl rfl rfl fun hno => absurd hno.1 hpresent⟩
  | streamTimeout sdk =>
    obtain ⟨generation, deadline, hworker, -, ⟨-, rfl⟩ | ⟨-, ok, u, hcall, rfl⟩⟩ :=
      streamTimeout_cases hstep
    · exact ⟨h.encoding.congr rfl rfl,
        h.phase.congr rfl rfl rfl rfl rfl rfl rfl fun hno => by simp [hworker, NoWorkers] at hno⟩
    · obtain ⟨channel, capture, rfl, hsome, hencoding, hcapture, -⟩ :=
        setSubStreamEnabled_spec h.encoding hcall
      exact ⟨hencoding.congr rfl rfl, h.phase.congr rfl rfl hsome rfl hcapture rfl rfl
        fun hno => by simp [hworker, NoWorkers] at hno⟩
  | captureExits =>
    obtain rfl := Option.some_inj.mp hstep
    refine ⟨⟨Capture.guarded_captureExits h.encoding.guarded, fun c hc => ?_, h.encoding.bare⟩,
      h.phase.congr rfl rfl rfl rfl rfl rfl rfl id⟩
    have hc' := h.encoding.tidy c hc
    exact ⟨hc'.vencs, hc'.flag, hc'.apart, hc'.stopped⟩
  | tick elapsed =>
    obtain rfl := Option.some_inj.mp hstep
    exact ⟨h.encoding.congr rfl rfl, h.phase.congr rfl rfl rfl rfl rfl rfl rfl id⟩
  | _ => exact absurd rfl hby

end IpcMini.HisiliconPipeline
