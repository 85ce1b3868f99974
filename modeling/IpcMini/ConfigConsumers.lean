/-
What an accepted configuration means to the parts of the program that use it.

`validate_config` looks at the beginning of an address, at the number of a
stream and at the sign of a bitrate.  The signaling client, the uploader, the
pipeline and `apply_runtime_config` ask for more.

* `Usable` — every consumer accepts what is enabled;
* `Written` — what the files say about it, member by member;
* `written` — read from the unified file or from the older ones;
* **`usable_iff`** — an accepted configuration is usable if and only if what is
  written is (`Written.Sound`);
* `sub_disabled` — a preview of a stream that is switched off.
-/
import Mathlib.Data.List.Infix
import IpcMini.ConfigLookups
import IpcMini.Endpoints
import IpcMini.MediaFrame
import IpcMini.SubStream

namespace IpcMini

namespace Config

open Jsoncpp Endpoints Interleaving

/-! ### The consumers -/

/-- `codec_from_mode`: a mode with `H265` in it is H.265. -/
def codecFromMode (mode : String) : Codec :=
  if "H265".toList <:+: mode.toList then .H265 else .H264

/-- The codec of a stream's encoder, track and frames: that of the main stream's mode,
with which `HisiliconPipeline::start` makes the channel of both, and for the detection
stream the one that its publisher fixes. -/
def streamCodec (streams : StreamsConfig) (streamId : Int32) : Codec :=
  if streamId = 2 then .H264 else codecFromMode streams.main.mode

-- the mode of the sub stream is accepted and then looked at by nothing
example : streamCodec
    { main := { mode := "H265_CBR" }, sub := { mode := "H264_CBR" } } 1 = .H265 := by
  decide +kernel

/-- What the pipeline reads of the configuration that `apply_runtime_config`
hands to it. -/
def pipelineOptions (channelId : ℤ) (streams : StreamsConfig) : HisiliconPipeline.Options where
  channelId := channelId
  mainSvc := streams.main.svc
  subEnable := streams.sub.enable
  subBoot := streams.sub.start = .Boot
  aiEnable := streams.ai.enable
  aiBoot := streams.ai.start = .Boot
  idleStopSec := streams.ai.idleStopSec.toInt

/-- In some state that the pipeline gets into, `set_stream_active` can start the
stream. -/
def CanSubscribe (streams : StreamsConfig) (streamId : Int32) : Prop :=
  ∃ channelId labels s sdk,
    run (HisiliconPipeline.step (pipelineOptions channelId streams)) HisiliconPipeline.init
        labels = some s ∧
      (s.setStreamActive (pipelineOptions channelId streams) channelId streamId.toInt true
        sdk).1 = true

/-- `expected_bitrate_bps` of `apply_runtime_config`, an `int`. -/
def expectedBitrateBps (webrtc : WebRtcConfig) : Int32 := webrtc.expectedBitrateKbps * 1000

structure WebRtcUsable (platform : Conversion) (config : RuntimeConfig) : Prop where
  signaling : (parseWsUrl platform config.webrtc.signalingUrl).isSome
  preview : CanSubscribe config.streams config.webrtc.previewStreamId
  codec : streamCodec config.streams config.webrtc.previewStreamId = .H264
  bitrate : (expectedBitrateBps config.webrtc).toInt =
    config.webrtc.expectedBitrateKbps.toInt * 1000

structure RecordUsable (platform : Conversion) (config : RuntimeConfig) : Prop where
  stream : CanSubscribe config.streams config.record.streamId
  upload : config.record.uploadUrl ≠ "" →
    (parseHttpUrl platform config.record.uploadUrl).isSome

/-- The consumers accept what is enabled. -/
structure Usable (platform : Conversion) (config : RuntimeConfig) : Prop where
  webrtc : config.webrtc.enable = true → WebRtcUsable platform config
  record : config.record.enable = true → RecordUsable platform config

/-! ### What is written -/

/-- What the files say. -/
structure Written where
  webrtc : Bool
  signalingUrl : String
  preview : String
  expectedBitrateKbps : Int32
  mainMode : String
  sub : Bool
  ai : Bool
  record : Bool
  recordStreamId : Int32
  uploadUrl : String

def IsH264 (mode : String) : Prop := mode = "H264_CBR" ∨ mode = "H264_AVBR"

/-- What has to be written for a live view. -/
structure Written.LiveView (platform : Conversion) (w : Written) : Prop where
  address : Addresses "ws://" (Authority platform) w.signalingUrl
  preview : w.preview = "main" ∧ IsH264 w.mainMode ∨
    w.preview = "sub" ∧ w.sub = true ∧ IsH264 w.mainMode ∨ w.preview = "ai" ∧ w.ai = true
  bitrate : w.expectedBitrateKbps ≤ 2147483

/-- What has to be written for recordings. -/
structure Written.Recordings (platform : Conversion) (w : Written) : Prop where
  stream : w.recordStreamId = 0 ∨ w.sub = true
  address : w.uploadUrl = "" ∨ Addresses "http://" (HttpAuthority platform) w.uploadUrl

structure Written.Sound (platform : Conversion) (w : Written) : Prop where
  live : w.webrtc = true → w.LiveView platform
  record : w.record = true → w.Recordings platform

/-- The root of a file, null if it cannot be read. -/
def rootOf (files : Files) (path : String) : Value :=
  match readJson files path with
  | .ok root => root
  | .error _ => .null

/-- The encoder mode of a stream section. -/
def modeOf (stream : Value) (defaultValue : String) : String :=
  ((stream.member "encoder").getD stream).readOr text "mode" defaultValue

def writtenUnified (root : Value) (config : RuntimeConfig) : Written :=
  let webrtc := root.part "webrtc"
  let streams := root.part "streams"
  let record := (root.member "record").map recordOf
  { webrtc := webrtc.readOr flag "enable" true
    signalingUrl := webrtc.readOr nonEmpty "signaling_url" ""
    preview := previewOf webrtc
    expectedBitrateKbps := webrtc.readOr number "expected_bitrate_kbps" 1000
    mainMode := modeOf (streams.part "main") "H264_CBR"
    sub := (streams.part "sub").readOr flag "enable" true
    ai := (streams.part "ai").readOr flag "enable" false
    record := (record.getD config.record).enable
    recordStreamId := (record.getD config.record).streamId
    uploadUrl := (record.getD config.record).uploadUrl }

def writtenLegacy (files : Files) (directory : String) (config : RuntimeConfig) : Written :=
  let root name := rootOf files (pathJoin directory name)
  let webrtc := servicesOf (root "net_service.json")
  let mode := ((root "venc.json").part "venc1").readOr nonEmpty "name" ""
  let record :=
    if files.fileIsRegular (pathJoin directory mp4SaveInfo.name) then
      saveOf ((root mp4SaveInfo.name).part "mp4_save") config.record
    else config.record
  { webrtc := webrtc.readOr flag "enable" true
    signalingUrl := webrtc.readOr nonEmpty "signaling_url" ""
    preview := previewOf webrtc
    expectedBitrateKbps := webrtc.readOr number "expected_bitrate_kbps" 1000
    mainMode := mode
    sub := true
    ai := ((root "../yolov8/yolov8.json").part "yolov8").readOr flag "enable" false
    record := record.enable
    recordStreamId := record.streamId
    uploadUrl := record.uploadUrl }

/-- What the files of a directory say. -/
def written (files : Files) (directory : String) (config : RuntimeConfig) : Written :=
  let unified := pathJoin directory "ipc_mini.json"
  if files.fileIsRegular unified then writtenUnified (rootOf files unified) config
  else writtenLegacy files directory config

/-! ### The consumers one by one -/

section Consumers

variable {streams : StreamsConfig} {streamId : Int32}

/-- A mode that is accepted is one of four. -/
theorem codec_eq_iff {mode : String} (h : supportedEncoderMode mode = true) :
    codecFromMode mode = .H264 ↔ IsH264 mode := by
  rw [supportedEncoderMode] at h
  simp only [Bool.or_eq_true, decide_eq_true_eq] at h
  rw [IsH264]
  rcases h with ((rfl | rfl) | rfl) | rfl <;> decide +kernel

/-- Devices that answer every call, up to the threads of the pipeline. -/
def booted : List HisiliconPipeline.Label :=
  [.start true ⟨true, true, HisiliconPipeline.fineChn⟩,
    .boot ⟨HisiliconPipeline.fine, true, true, true⟩, .run]

/-- On a pipeline that runs the stream is started. -/
theorem started_of_enabled {o : HisiliconPipeline.Options} (ho : o.channelId = 0) {stream : ℤ}
    (h : stream = 0 ∨ stream = 1 ∧ o.subEnable = true ∨ stream = 2 ∧ o.aiEnable = true) :
    ∃ s, run (HisiliconPipeline.step o) HisiliconPipeline.init booted = some s ∧
      (s.setStreamActive o 0 stream true HisiliconPipeline.fine).1 = true := by
  obtain ⟨channelId, mainSvc, subEnable, subBoot, aiEnable, aiBoot, idle⟩ := o
  obtain rfl : channelId = 0 := ho
  rcases h with rfl | ⟨rfl, hs⟩ | ⟨rfl, ha⟩
  · cases mainSvc <;> cases subEnable <;> cases subBoot <;> cases aiEnable <;>
      exact ⟨_, rfl, rfl⟩
  · obtain rfl : subEnable = true := hs
    cases mainSvc <;> cases subBoot <;> cases aiEnable <;> cases aiBoot <;>
      exact ⟨_, rfl, rfl⟩
  · obtain rfl : aiEnable = true := ha
    cases mainSvc <;> cases subEnable <;> cases subBoot <;> cases aiBoot <;>
      exact ⟨_, rfl, rfl⟩

theorem canSubscribe_iff : CanSubscribe streams streamId ↔
    streamId = 0 ∨ streamId = 1 ∧ streams.sub.enable = true ∨
      streamId = 2 ∧ streams.ai.enable = true := by
  have hid : ∀ n : Int32, streamId.toInt = n.toInt ↔ streamId = n := fun n => Int32.toInt_inj
  constructor
  · rintro ⟨channelId, labels, s, sdk, -, h⟩
    have hchannel : ¬ channelId ≠ (pipelineOptions channelId streams).channelId :=
      not_not.mpr rfl
    rw [HisiliconPipeline.State.setStreamActive, if_neg hchannel] at h
    -- the three branches of `set_stream_active`, by the number of the stream
    by_cases h0 : streamId.toInt = 0
    · exact .inl ((hid 0).mp h0)
    · rw [if_neg h0] at h
      by_cases h2 : streamId.toInt = HisiliconPipeline.AI_STREAM_ID
      · rw [if_pos h2] at h
        refine .inr (.inr ⟨(hid 2).mp h2, ?_⟩)
        cases he : streams.ai.enable with
        | true => rfl
        | false => simp [pipelineOptions, he] at h
      · rw [if_neg h2] at h
        refine .inr (.inl ?_)
        split at h
        next => cases h
        next hsub =>
          simp only [ne_eq, Bool.or_eq_true, decide_eq_true_eq, Bool.not_eq_true', not_or,
            not_not, Bool.not_eq_false] at hsub
          exact ⟨(hid 1).mp hsub.1, hsub.2⟩
  · intro h
    have hstream : streamId.toInt = 0 ∨ streamId.toInt = 1 ∧ streams.sub.enable = true ∨
        streamId.toInt = 2 ∧ streams.ai.enable = true := by
      rcases h with rfl | ⟨rfl, hs⟩ | ⟨rfl, ha⟩
      · exact .inl rfl
      · exact .inr (.inl ⟨rfl, hs⟩)
      · exact .inr (.inr ⟨rfl, ha⟩)
    obtain ⟨s, hrun, hs⟩ := started_of_enabled (o := pipelineOptions 0 streams) rfl hstream
    exact ⟨0, booted, s, HisiliconPipeline.fine, hrun, hs⟩

/-- The bits per second fit where the kilobits do. -/
theorem bitrate_fits_iff {webrtc : WebRtcConfig}
    (h : 0 < webrtc.expectedBitrateKbps) :
    (expectedBitrateBps webrtc).toInt = webrtc.expectedBitrateKbps.toInt * 1000 ↔
      webrtc.expectedBitrateKbps ≤ 2147483 := by
  have hpos : 0 < webrtc.expectedBitrateKbps.toInt := Int32.lt_iff_toInt_lt.mp h
  have hlt := webrtc.expectedBitrateKbps.toInt_lt
  rw [expectedBitrateBps, Int32.toInt_mul, Int32.le_iff_toInt_le]
  show (webrtc.expectedBitrateKbps.toInt * 1000).bmod (2 ^ 32) = _ ↔
    webrtc.expectedBitrateKbps.toInt ≤ 2147483
  generalize webrtc.expectedBitrateKbps.toInt = n at hpos hlt ⊢
  rw [Int.bmod_def]
  omega

end Consumers

/-! ### Accepted configurations and what is written -/

/-- The configuration as it is written. -/
structure Matches (w : Written) (config : RuntimeConfig) : Prop where
  webrtc : config.webrtc.enable = w.webrtc
  signalingUrl : config.webrtc.signalingUrl = w.signalingUrl
  preview : config.webrtc.previewStreamId = streamIdFromName w.preview
  bitrate : config.webrtc.expectedBitrateKbps = w.expectedBitrateKbps
  mainMode : config.streams.main.mode = w.mainMode
  sub : config.streams.sub.enable = w.sub
  ai : config.streams.ai.enable = w.ai
  record : config.record.enable = w.record
  recordStreamId : config.record.streamId = w.recordStreamId
  uploadUrl : config.record.uploadUrl = w.uploadUrl

/-- What validation says about the fields that the consumers read. -/
structure Limits (config : RuntimeConfig) : Prop where
  mainMode : supportedEncoderMode config.streams.main.mode = true
  preview : ¬ config.webrtc.previewStreamId < 0
  bitrate : 0 < config.webrtc.expectedBitrateKbps
  record : config.record.enable = true →
    ¬ config.record.streamId < 0 ∧ ¬ 1 < config.record.streamId

theorem limits_of_validated {config : RuntimeConfig} (h : Validated config) : Limits config := by
  have hsound := h.1
  simp only [RuntimeConfig.unsupported, EncodedStreamConfig.unsupported,
    WebRtcConfig.unsupported, RecordConfig.unsupported, positive, Bool.or_eq_true,
    Bool.and_eq_true, Bool.not_eq_true', decide_eq_true_eq, decide_eq_false_iff_not, not_or,
    not_and, not_not, Bool.not_eq_false, gt_iff_lt] at hsound
  obtain ⟨⟨⟨⟨⟨⟨⟨-, hmain⟩, -⟩, -⟩, hwebrtc⟩, -⟩, -⟩, hrecord⟩ := hsound
  obtain ⟨⟨⟨⟨⟨⟨⟨-, hpreview⟩, -⟩, -⟩, -⟩, hbitrate⟩, -⟩, -⟩ := hwebrtc
  refine ⟨hmain.1.1.1.1, hpreview, hbitrate, fun h => ?_⟩
  obtain ⟨⟨⟨⟨⟨⟨⟨⟨⟨-, hlow⟩, hhigh⟩, -⟩, -⟩, -⟩, -⟩, -⟩, -⟩, -⟩ := hrecord h
  exact ⟨hlow, hhigh⟩

theorem matches_unified (root : Value) (config : RuntimeConfig) :
    Matches (writtenUnified root config) (configOf root config) := by
  have hstreams : ∀ streams : StreamsConfig,
      (applyInheritModes streams).main = streams.main ∧
      (applyInheritModes streams).sub.enable = streams.sub.enable ∧
      (applyInheritModes streams).ai = streams.ai := by
    intro streams
    rw [applyInheritModes]
    split <;> exact ⟨rfl, rfl, rfl⟩
  obtain ⟨hmain, hsub, hai⟩ := hstreams (streamsOf root (root.part "streams"))
  refine ⟨rfl, rfl, rfl, rfl, ?_, hsub, ?_, rfl, rfl, rfl⟩
  · rw [configOf, hmain]
    rfl
  · rw [configOf, hai]
    rfl

theorem rootOf_eq {files : Files} {path : String} {root : Value}
    (h : readJson files path = .ok root) : rootOf files path = root := by
  rw [rootOf, h]

/-- The older files are read in their order, and each gives its part. -/
theorem matches_legacy {files : Files} {directory : String} {config loaded : RuntimeConfig}
    (h : Complete files directory (describedFiles files directory) config loaded) :
    Matches (writtenLegacy files directory config) loaded := by
  rw [describedFiles] at h
  -- with or without the file of the recordings
  by_cases hs : files.fileIsRegular (pathJoin directory mp4SaveInfo.name) = true
  · rw [if_pos hs] at h
    obtain ⟨_, -, -, -, venc, hvenc, -, -, _, -, -, -, services, hservices, -, -, _, -, -, -,
      yolo, hyolo, -, -, save, hsave, -, -, rfl⟩ := h
    have hv : rootOf files (pathJoin directory "venc.json") = venc := rootOf_eq hvenc
    have hn : rootOf files (pathJoin directory "net_service.json") = services :=
      rootOf_eq hservices
    have hy : rootOf files (pathJoin directory "../yolov8/yolov8.json") = yolo :=
      rootOf_eq hyolo
    have hm : rootOf files (pathJoin directory mp4SaveInfo.name) = save := rootOf_eq hsave
    constructor
    all_goals
      rw [writtenLegacy]
      simp only [hv, hn, hy, hm, if_pos hs]
      rfl
  · rw [if_neg hs] at h
    obtain ⟨_, -, -, -, venc, hvenc, -, -, _, -, -, -, services, hservices, -, -, _, -, -, -,
      yolo, hyolo, -, -, rfl⟩ := h
    have hv : rootOf files (pathJoin directory "venc.json") = venc := rootOf_eq hvenc
    have hn : rootOf files (pathJoin directory "net_service.json") = services :=
      rootOf_eq hservices
    have hy : rootOf files (pathJoin directory "../yolov8/yolov8.json") = yolo :=
      rootOf_eq hyolo
    constructor
    all_goals
      rw [writtenLegacy]
      simp only [hv, hn, hy, if_neg hs]
      rfl

/-- An accepted configuration is as it is written, within the limits of
validation. -/
theorem matches_of_accepted {files : Files} {directory : String} {config loaded : RuntimeConfig}
    (h : loadRuntimeConfig files directory config = .ok loaded) :
    Matches (written files directory config) loaded ∧ Limits loaded := by
  rw [loadRuntimeConfig] at h
  rw [written]
  by_cases hu : files.fileIsRegular (pathJoin directory "ipc_mini.json") = true
  · rw [if_pos hu, loadIpcMiniJson] at h
    obtain ⟨root, hroot, hload⟩ := bind_ok_iff.mp h
    obtain ⟨hunified, rfl⟩ := (ipcMiniJson_computes root config).ok_iff.mp hload
    obtain ⟨-, -, -, -, -, -, -, -, -, hvalid⟩ := hunified
    rw [if_pos hu, rootOf_eq hroot]
    exact ⟨matches_unified root config, limits_of_validated hvalid⟩
  · rw [if_neg hu, loadLegacyFiles, ← map_describedFiles] at h
    obtain ⟨read, hread, hvalidate⟩ := bind_ok_iff.mp h
    obtain ⟨hvalid, rfl⟩ := (validateConfig_computes read).ok_iff.mp hvalidate
    rw [if_neg hu]
    exact ⟨matches_legacy ((readLegacy_ok_iff files directory _ config _).mp hread),
      limits_of_validated hvalid⟩

/-! ### Usable configurations -/

section Usable

variable {platform : Conversion} {w : Written} {config : RuntimeConfig}

theorem streamId_cases (name : String) :
    name = "main" ∧ streamIdFromName name = 0 ∨ name = "sub" ∧ streamIdFromName name = 1 ∨
      name = "ai" ∧ streamIdFromName name = 2 ∨
      (name ≠ "main" ∧ name ≠ "sub" ∧ name ≠ "ai") ∧ streamIdFromName name = -1 := by
  rw [streamIdFromName]
  by_cases hm : name = "main"
  · exact .inl ⟨hm, if_pos hm⟩
  · by_cases hs : name = "sub"
    · exact .inr (.inl ⟨hs, by rw [if_neg hm, if_pos hs]⟩)
    · by_cases ha : name = "ai"
      · exact .inr (.inr (.inl ⟨ha, by rw [if_neg hm, if_neg hs, if_pos ha]⟩))
      · exact .inr (.inr (.inr ⟨⟨hm, hs, ha⟩, by rw [if_neg hm, if_neg hs, if_neg ha]⟩))

/-- The preview can be subscribed to and is H.264. -/
theorem preview_iff (hm : Matches w config) (hl : Limits config) :
    CanSubscribe config.streams config.webrtc.previewStreamId ∧
        streamCodec config.streams config.webrtc.previewStreamId = .H264 ↔
      w.preview = "main" ∧ IsH264 w.mainMode ∨
        w.preview = "sub" ∧ w.sub = true ∧ IsH264 w.mainMode ∨
        w.preview = "ai" ∧ w.ai = true := by
  rw [canSubscribe_iff, hm.preview, ← hm.mainMode, ← hm.sub, ← hm.ai]
  have hnegative := hl.preview
  rw [hm.preview] at hnegative
  have hcodec := codec_eq_iff hl.mainMode
  rcases streamId_cases w.preview with ⟨hn, hid⟩ | ⟨hn, hid⟩ | ⟨hn, hid⟩ | ⟨-, hid⟩
  · rw [hid, hn]
    simp [show streamCodec config.streams 0 = .H264 ↔ _ from hcodec]
  · rw [hid, hn]
    simp [show streamCodec config.streams 1 = .H264 ↔ _ from hcodec]
  · have hcodec : streamCodec config.streams 2 = .H264 := rfl
    rw [hid, hn]
    simp [hcodec]
  · rw [hid] at hnegative
    exact absurd (by decide) hnegative

/-- The recorded stream can be subscribed to. -/
theorem record_stream_iff (hm : Matches w config) (hl : Limits config)
    (hrecord : config.record.enable = true) :
    CanSubscribe config.streams config.record.streamId ↔
      w.recordStreamId = 0 ∨ w.sub = true := by
  rw [canSubscribe_iff, ← hm.recordStreamId, ← hm.sub]
  obtain ⟨hlow, hhigh⟩ := hl.record hrecord
  constructor
  · rintro (h | ⟨-, h⟩ | ⟨h, -⟩)
    · exact .inl h
    · exact .inr h
    · rw [h] at hhigh
      exact absurd (by decide) hhigh
  · rintro (h | h)
    · exact .inl h
    · -- the number is 0 or 1
      rw [Int32.lt_iff_toInt_lt] at hlow hhigh
      by_cases h0 : config.record.streamId = 0
      · exact .inl h0
      · refine .inr (.inl ⟨Int32.toInt_inj.mp ?_, h⟩)
        have hne : config.record.streamId.toInt ≠ 0 := fun hz => h0 (Int32.toInt_inj.mp hz)
        change ¬ config.record.streamId.toInt < 0 at hlow
        change ¬ 1 < config.record.streamId.toInt at hhigh
        show config.record.streamId.toInt = 1
        omega

theorem webRtcUsable_iff (hm : Matches w config) (hl : Limits config) :
    WebRtcUsable platform config ↔ w.LiveView platform := by
  have hurl := parseWsUrl_isSome_iff platform config.webrtc.signalingUrl
  have hpreview := preview_iff hm hl
  have hbitrate := bitrate_fits_iff hl.bitrate
  rw [hm.signalingUrl] at hurl
  rw [hm.bitrate] at hbitrate
  constructor
  · intro h
    have hsignaling := h.signaling
    have hfits := h.bitrate
    rw [hm.signalingUrl] at hsignaling
    rw [hm.bitrate] at hfits
    exact ⟨hurl.mp hsignaling, hpreview.mp ⟨h.preview, h.codec⟩, hbitrate.mp hfits⟩
  · intro h
    obtain ⟨hsubscribe, hcodec⟩ := hpreview.mpr h.preview
    refine ⟨?_, hsubscribe, hcodec, ?_⟩
    · rw [hm.signalingUrl]
      exact hurl.mpr h.address
    · rw [hm.bitrate]
      exact hbitrate.mpr h.bitrate

theorem recordUsable_iff (hm : Matches w config) (hl : Limits config)
    (hrecord : config.record.enable = true) :
    RecordUsable platform config ↔ w.Recordings platform := by
  have hurl := parseHttpUrl_isSome_iff platform config.record.uploadUrl
  have hstream := record_stream_iff hm hl hrecord
  rw [hm.uploadUrl] at hurl
  constructor
  · intro h
    have hupload := h.upload
    rw [hm.uploadUrl] at hupload
    refine ⟨hstream.mp h.stream, ?_⟩
    by_cases he : w.uploadUrl = ""
    · exact .inl he
    · exact .inr (hurl.mp (hupload he))
  · intro h
    refine ⟨hstream.mpr h.stream, fun he => ?_⟩
    rw [hm.uploadUrl] at he ⊢
    exact hurl.mpr (h.address.resolve_left he)

end Usable

/-- **An accepted configuration is usable if and only if what the files say is
sound.** -/
theorem usable_iff (platform : Conversion) {files : Files} {directory : String}
    {config loaded : RuntimeConfig}
    (h : loadRuntimeConfig files directory config = .ok loaded) :
    Usable platform loaded ↔ (written files directory config).Sound platform := by
  obtain ⟨hm, hl⟩ := matches_of_accepted h
  constructor
  · intro hu
    refine ⟨fun hw => ?_, fun hr => ?_⟩
    · exact (webRtcUsable_iff hm hl).mp (hu.webrtc (hm.webrtc.trans hw))
    · have hrecord := hm.record.trans hr
      exact (recordUsable_iff hm hl hrecord).mp (hu.record hrecord)
  · intro hs
    refine ⟨fun hw => ?_, fun hr => ?_⟩
    · exact (webRtcUsable_iff hm hl).mpr (hs.live (hm.webrtc.symm.trans hw))
    · exact (recordUsable_iff hm hl hr).mpr (hs.record (hm.record.symm.trans hr))

/-! ### A small configuration -/

/-- The conversion that wraps around. -/
def wrapping : Conversion where
  toInt n := n.bmod 4294967296
  exact n hlow hhigh := Int.bmod_eq_of_le (by omega) (by omega)

/-- A unified file, with the sub stream on or off. -/
def smallRoot (sub : Bool) : Value :=
  .object [
    ("sensor", .object [("name", .string "SC4336P"), ("width", .int 2560),
      ("height", .int 1440), ("fps", .int 30)]),
    ("streams", .object [("sub", .object [("enable", .boolean sub)])]),
    ("webrtc", .object [("signaling_url", .string "ws://10.0.0.2:8089/ws")])]

def smallText (sub : Bool) : String :=
  "\x7b\"sensor\":\x7b\"name\":\"SC4336P\",\"width\":2560,\"height\":1440,\"fps\":30\x7d," ++
    "\"streams\":\x7b\"sub\":\x7b\"enable\":" ++ (if sub then "true" else "false") ++
    "\x7d\x7d,\"webrtc\":\x7b\"signaling_url\":\"ws://10.0.0.2:8089/ws\"\x7d\x7d"

def smallFiles (sub : Bool) : Files where
  fileIsRegular path := path = "etc/ipc_mini.json"
  fopen path :=
    if path = "etc/ipc_mini.json" then
      some ⟨true, (smallText sub).length, true, smallText sub⟩
    else none
  parse text := if text = smallText sub then .ok (smallRoot sub) else .error ""

def smallConfig (sub : Bool) : RuntimeConfig where
  streams := { sub := { subDefaults with enable := sub, mode := "H264_CBR" } }
  webrtc := { signalingUrl := "ws://10.0.0.2:8089/ws" }

theorem length_smallText (sub : Bool) :
    0 < (smallText sub).length ∧ (smallText sub).length ≤ 300 := by
  cases sub <;> decide +kernel

/-- The file is read. -/
theorem small_read (sub : Bool) :
    readJson (smallFiles sub) "etc/ipc_mini.json" = .ok (smallRoot sub) := by
  obtain ⟨hpos, hle⟩ := length_smallText sub
  have hopen : (smallFiles sub).fopen "etc/ipc_mini.json" =
      some ⟨true, (smallText sub).length, true, smallText sub⟩ := by
    simp only [smallFiles, if_true]
  have hparse : (smallFiles sub).parse (smallText sub) = .ok (smallRoot sub) := by
    simp only [smallFiles, if_true]
  have hsize : ¬ (((smallText sub).length : ℤ) ≤ 0 ∨
      kMaxConfigBytes < ((smallText sub).length : ℤ) ∨ true = false) := by
    rw [kMaxConfigBytes]
    simp only [Bool.true_eq_false, or_false]
    omega
  rw [readJson, hopen]
  dsimp only
  rw [if_neg (by decide), if_neg hsize, if_neg (by simp), hparse]

/-- The unified file is found. -/
theorem small_unified (sub : Bool) : pathJoin "etc" "ipc_mini.json" = "etc/ipc_mini.json" ∧
    (smallFiles sub).fileIsRegular "etc/ipc_mini.json" = true := by
  refine ⟨by decide +kernel, ?_⟩
  simp only [smallFiles, decide_true]

theorem small_accepted (sub : Bool) :
    loadRuntimeConfig (smallFiles sub) "etc" {} = .ok (smallConfig sub) := by
  obtain ⟨hpath, hregular⟩ := small_unified sub
  rw [loadRuntimeConfig, hpath, hregular, if_pos rfl, loadIpcMiniJson, small_read]
  cases sub <;> decide +kernel

theorem small_written (sub : Bool) :
    written (smallFiles sub) "etc" {} = writtenUnified (smallRoot sub) {} := by
  obtain ⟨hpath, hregular⟩ := small_unified sub
  rw [written, hpath, hregular, if_pos rfl, rootOf_eq (small_read sub)]

/-- The preview is of the sub stream, which is off. -/
theorem sub_disabled :
    loadRuntimeConfig (smallFiles false) "etc" {} = .ok (smallConfig false) ∧
      ¬ Usable wrapping (smallConfig false) := by
  refine ⟨small_accepted false, fun h => ?_⟩
  rcases canSubscribe_iff.mp (h.webrtc rfl).preview with hid | ⟨-, hsub⟩ | ⟨hid, -⟩
  · exact absurd hid (by decide)
  · exact Bool.false_ne_true hsub
  · exact absurd hid (by decide)

/-- With the sub stream on it is usable. -/
theorem small_usable : Usable wrapping (smallConfig true) := by
  refine (usable_iff wrapping (small_accepted true)).mpr ⟨fun _ => ?_, fun h => ?_⟩
  · rw [small_written]
    refine ⟨?_, .inr (.inl ⟨by decide +kernel, by decide +kernel, .inl (by decide +kernel)⟩),
      by decide +kernel⟩
    exact (parseWsUrl_isSome_iff _ _).mp (by decide +kernel)
  · rw [small_written] at h
    exact absurd h (by decide +kernel)

end Config

end IpcMini
