/-
What each reader of the configuration loader accepts, and what it makes of it.

A section is a JSON value given by its members.  For every reader of
`RuntimeConfig.lean` this file states the sections it accepts and the
configuration it reads from them, both in terms of the members alone, and
proves that the reader computes that and misuses no value.

* `text`, `nonEmpty`, `number`, `flag`, `start` — what one member may be;
* `OsdSection`, `StreamSection`, `AiSection`, `WebRtcSection`, `RecordSection`,
  … — the sections accepted, and `osdOf`, `streamOf`, … what is read;
* **`parseWebrtc_computes`**, **`ipcMiniJson_computes`** — the readers.
-/
import IpcMini.RuntimeConfig

namespace IpcMini

namespace Config

open Jsoncpp

/-! ### One member -/

def text : Value → Option String
  | .string text => some text
  | _ => none

def nonEmpty : Value → Option String
  | .string text => if text = "" then none else some text
  | _ => none

def number : Value → Option Int32
  | .int number => some number
  | _ => none

def flag : Value → Option Bool
  | .boolean flag => some flag
  | .int number => some (number != 0)
  | _ => none

def start : Value → Option StreamStart
  | .string text =>
    if text = "boot" then some .Boot
    else if text = "on_demand" then some .OnDemand
    else none
  | _ => none

theorem readString_eq (v : Value) : readString v = .ok (text v) := by
  cases v <;> rfl

theorem readNonEmpty_eq (v : Value) : readNonEmpty v = .ok (nonEmpty v) := by
  cases v <;> rfl

theorem readInt_eq (v : Value) : readInt v = .ok (number v) := by
  cases v <;> rfl

theorem parseBool_eq (v : Value) : parseBool v = .ok (flag v) := by
  cases v <;> rfl

theorem readStart_eq (v : Value) : readStart v = .ok (start v) := by
  cases v <;> rfl

section Members

variable (object : Value) (place field : String)

theorem requiredString_computes :
    Computes (requiredString object place field) (object.Has nonEmpty field)
      (object.readOr nonEmpty field "") :=
  .requiredMember readNonEmpty_eq object place field ""

theorem requiredInt_computes :
    Computes (requiredInt object place field) (object.Has number field)
      (object.readOr number field 0) :=
  .requiredMember readInt_eq object place field 0

theorem requiredBool_computes :
    Computes (requiredBool object place field) (object.Has flag field)
      (object.readOr flag field false) :=
  .requiredMember parseBool_eq object place field false

theorem optionalString_computes (defaultValue : String) :
    Computes (optionalString object place field defaultValue) (object.Allows text field)
      (object.readOr text field defaultValue) :=
  .optionalMember readString_eq object place field defaultValue

theorem optionalInt_computes (defaultValue : Int32) :
    Computes (optionalInt object place field defaultValue) (object.Allows number field)
      (object.readOr number field defaultValue) :=
  .optionalMember readInt_eq object place field defaultValue

theorem optionalBool_computes (defaultValue : Bool) :
    Computes (optionalBool object place field defaultValue) (object.Allows flag field)
      (object.readOr flag field defaultValue) :=
  .optionalMember parseBool_eq object place field defaultValue

theorem parseStart_computes (defaultValue : StreamStart) :
    Computes (parseStart object place defaultValue) (object.Allows start "start")
      (object.readOr start "start" defaultValue) :=
  .optionalMember readStart_eq object place "start" defaultValue

end Members

/-! ### The streams -/

def OsdSection (osd : Value) : Prop :=
  osd.isObject ∧ osd.Allows flag "enable" ∧ osd.Allows number "x" ∧ osd.Allows number "y" ∧
    osd.Allows number "font_size"

def osdOf (osd : Value) : TimeOsdConfig where
  enable := osd.readOr flag "enable" true
  x := osd.readOr number "x" 32
  y := osd.readOr number "y" 32
  fontSize := osd.readOr number "font_size" 32

theorem parseOsd_computes (osd : Value) (place : String) :
    Computes (parseOsd osd place) (OsdSection osd) (osdOf osd) := by
  rw [parseOsd]
  refine .guard _ fun _ => ?_
  refine (optionalBool_computes osd place "enable" true).bind fun _ => ?_
  refine (optionalInt_computes osd place "x" 32).bind fun _ => ?_
  refine (optionalInt_computes osd place "y" 32).bind fun _ => ?_
  exact (optionalInt_computes osd place "font_size" 32).map _

def EncoderSection (encoder : Value) : Prop :=
  encoder.Allows text "mode" ∧ encoder.Allows number "width" ∧ encoder.Allows number "height" ∧
    encoder.Allows number "fps" ∧ encoder.Allows number "bitrate_kbps" ∧
    encoder.Allows flag "svc"

def encoderOf (encoder : Value) (stream : EncodedStreamConfig) : EncodedStreamConfig :=
  { stream with
    mode := encoder.readOr text "mode" stream.mode
    width := encoder.readOr number "width" stream.width
    height := encoder.readOr number "height" stream.height
    fps := encoder.readOr number "fps" stream.fps
    bitrateKbps := encoder.readOr number "bitrate_kbps" stream.bitrateKbps
    svc := encoder.readOr flag "svc" stream.svc }

theorem parseEncoder_computes (encoder : Value) (place : String)
    (stream : EncodedStreamConfig) :
    Computes (parseEncoder encoder place stream) (EncoderSection encoder)
      (encoderOf encoder stream) := by
  rw [parseEncoder]
  refine (optionalString_computes encoder place "mode" _).bind fun _ => ?_
  refine (optionalInt_computes encoder place "width" _).bind fun _ => ?_
  refine (optionalInt_computes encoder place "height" _).bind fun _ => ?_
  refine (optionalInt_computes encoder place "fps" _).bind fun _ => ?_
  refine (optionalInt_computes encoder place "bitrate_kbps" _).bind fun _ => ?_
  exact (optionalBool_computes encoder place "svc" _).map _

/-- The member `osd`, where there is one, is a section. -/
def AllowsOsd (object : Value) : Prop :=
  ∀ osd, object.member "osd" = some osd → OsdSection osd

def StreamSection (stream : Value) : Prop :=
  stream.isObject ∧ stream.Allows flag "enable" ∧ stream.Allows start "start" ∧
    EncoderSection ((stream.member "encoder").getD stream) ∧ AllowsOsd stream

def streamOf (stream : Value) (defaults : EncodedStreamConfig) : EncodedStreamConfig :=
  { encoderOf ((stream.member "encoder").getD stream) defaults with
    enable := stream.readOr flag "enable" defaults.enable
    start := stream.readOr start "start" defaults.start
    osd := ((stream.member "osd").map osdOf).getD defaults.osd }

theorem parseEncodedStream_computes (object : Value) (place : String)
    (defaults : EncodedStreamConfig) :
    Computes (parseEncodedStream object place defaults) (StreamSection object)
      (streamOf object defaults) := by
  rw [parseEncodedStream]
  refine .guard _ fun ho => ?_
  refine (optionalBool_computes object place "enable" _).bind fun _ => ?_
  refine (parseStart_computes object place _).bind fun _ => ?_
  refine .after (Value.isMember_eq ho "encoder") ?_
  have hencoder : (if (object.member "encoder").isSome = true then object.index "encoder"
      else .ok object) = .ok ((object.member "encoder").getD object) := by
    rw [Value.index_eq ho, Value.part]
    cases object.member "encoder" <;> rfl
  refine .after hencoder ?_
  refine (parseEncoder_computes _ _ _).bind fun _ => ?_
  refine .after (Value.isMember_eq ho "osd") ?_
  rw [AllowsOsd, streamOf]
  cases hosd : object.member "osd" with
  | none =>
    refine (Computes.ok _).of_iff ⟨fun _ osd h => ?_, fun _ => trivial⟩
    cases h
  | some osd =>
    refine .after (Value.index_eq ho "osd") ?_
    rw [Value.part, hosd]
    refine ((parseOsd_computes osd _).map _).of_iff ⟨fun h v hv => ?_, fun h => h osd rfl⟩
    rwa [← Option.some.inj hv]

def AiSection (ai : Value) : Prop :=
  ai.isObject ∧ ai.Allows flag "enable" ∧ ai.Allows start "start" ∧ ai.Allows text "engine" ∧
    ai.Allows text "model" ∧ ai.Allows text "acl" ∧ ai.Allows number "width" ∧
    ai.Allows number "height" ∧ ai.Allows number "fps" ∧ ai.Allows number "idle_stop_sec"

def aiOf (ai : Value) : AiStreamConfig where
  enable := ai.readOr flag "enable" false
  start := ai.readOr start "start" .OnDemand
  engine := ai.readOr text "engine" "yolov8"
  model := ai.readOr text "model" ""
  acl := ai.readOr text "acl" ""
  width := ai.readOr number "width" 640
  height := ai.readOr number "height" 640
  fps := ai.readOr number "fps" 1
  idleStopSec := ai.readOr number "idle_stop_sec" 5

theorem parseAiStream_computes (ai : Value) (place : String) :
    Computes (parseAiStream ai place) (AiSection ai) (aiOf ai) := by
  rw [parseAiStream]
  refine .guard _ fun _ => ?_
  refine (optionalBool_computes ai place "enable" false).bind fun _ => ?_
  refine (parseStart_computes ai place .OnDemand).bind fun _ => ?_
  refine (optionalString_computes ai place "engine" "yolov8").bind fun _ => ?_
  refine (optionalString_computes ai place "model" "").bind fun _ => ?_
  refine (optionalString_computes ai place "acl" "").bind fun _ => ?_
  refine (optionalInt_computes ai place "width" 640).bind fun _ => ?_
  refine (optionalInt_computes ai place "height" 640).bind fun _ => ?_
  refine (optionalInt_computes ai place "fps" 1).bind fun _ => ?_
  exact (optionalInt_computes ai place "idle_stop_sec" 5).map _

/-! ### WebRTC -/

/-- One element of `ice_servers`. -/
def IceSection (item : Value) : Prop :=
  item.isObject ∧ item.Has text "urls" ∧ item.Allows text "username" ∧
    item.Allows text "credential"

def iceOf (item : Value) : WebRtcIceServerConfig where
  urls := item.readOr text "urls" ""
  username := item.readOr text "username" ""
  credential := item.readOr text "credential" ""

theorem checkIceText_computes {item : Value} (ho : item.isObject) (place field : String) :
    Computes (checkIceText item place field) (item.Allows text field) () := by
  rw [checkIceText]
  refine .after (Value.isMember_eq ho field) ?_
  rw [Value.Allows, Value.Has, Value.field]
  cases hm : item.member field with
  | none => exact (Computes.ok ()).of_iff ⟨fun _ => .inl rfl, fun _ => trivial⟩
  | some v =>
    refine .after (Value.index_eq ho field) ?_
    rw [Value.part, hm]
    cases v with
    | string t => exact (Computes.ok ()).of_iff ⟨fun _ => .inr rfl, fun _ => trivial⟩
    | _ =>
      refine (Computes.refuse _ ()).of_iff ⟨False.elim, ?_⟩
      rintro (h | h)
      · cases h
      · cases h

/-- A text member that was checked before converts. -/
theorem get_text {item : Value} (ho : item.isObject) {field : String}
    (h : item.Allows text field) {β : Type} (next : String → Loader β) :
    (item.get field (.string "") >>= fun value => value.asString >>= next) =
      next (item.readOr text field "") := by
  rw [Value.get_eq ho, Value.readOr, Value.field]
  rw [Value.Allows, Value.Has, Value.field] at h
  cases hm : item.member field with
  | none => rfl
  | some v =>
    rw [hm] at h
    cases v with
    | string t => rfl
    | _ =>
      rcases h with h | h
      · cases h
      · cases h

theorem parseIceServer_computes (item : Value) (place : String) :
    Computes (parseIceServer item place) (IceSection item) (iceOf item) := by
  rw [parseIceServer]
  refine .guard _ fun ho => ?_
  refine .after (Value.isMember_eq ho "urls") ?_
  rw [iceOf, Value.Has, Value.readOr, Value.field]
  cases hm : item.member "urls" with
  | none => exact (Computes.refuse _ _).of_iff ⟨False.elim, fun h => Bool.false_ne_true h.1⟩
  | some v =>
    refine .after (Value.index_eq ho "urls") ?_
    rw [Value.part, hm]
    cases v with
    | string urls =>
      refine Computes.of_iff (P := item.Allows text "username" ∧ item.Allows text "credential")
        ?_ (and_iff_right rfl).symm
      refine (checkIceText_computes ho place "username").bind fun hu => ?_
      refine (checkIceText_computes ho place "credential").bind_ok fun hc => ?_
      rw [get_text ho hu, get_text ho hc]
      rfl
    | _ => exact (Computes.refuse _ _).of_iff ⟨False.elim, fun h => Bool.false_ne_true h.1⟩
/-- The servers whose address is not empty and not too long. -/
def keptServers (items : List Value) : List WebRtcIceServerConfig :=
  (items.map iceOf).filter fun server => server.urls ≠ "" ∧ server.urls.length ≤ 1024

theorem parseIceItems_computes (place : String) (items : List Value) :
    Computes (parseIceItems place items) (∀ item ∈ items, IceSection item)
      (keptServers items) := by
  induction items with
  | nil => exact (Computes.ok []).of_iff ⟨fun _ => by simp, fun _ => trivial⟩
  | cons item rest ih =>
    rw [parseIceItems]
    have hfirst := parseIceServer_computes item place
    have hkept : keptServers (item :: rest) =
        if (iceOf item).urls ≠ "" ∧ (iceOf item).urls.length ≤ 1024 then
          iceOf item :: keptServers rest
        else keptServers rest := by
      simp only [keptServers, List.map_cons, List.filter_cons, decide_eq_true_eq]
    rw [hkept]
    exact (hfirst.bind fun _ => ih.map _).of_iff List.forall_mem_cons.symm

def IceServersSection (ice : Value) : Prop :=
  ice.isArray ∧ ∀ item ∈ ice.elements, IceSection item

theorem parseIceServers_computes (ice : Value) (place : String) :
    Computes (parseIceServers ice place) (IceServersSection ice)
      (keptServers ice.elements) := by
  rw [parseIceServers]
  by_cases hn : ice.isNull = true
  · cases ice with
    | null =>
      refine (Computes.ok []).of_iff ⟨fun _ => ⟨rfl, ?_⟩, fun _ => trivial⟩
      simp [Value.elements]
    | _ => cases hn
  · rw [if_neg hn]
    exact .guard _ fun _ => parseIceItems_computes place _

/-- The older name of `send_detections` counts where the newer one is missing. -/
def olderDetections (object : Value) : Bool :=
  (object.member "detections_enable").isSome && !(object.member "send_detections").isSome

def detectionsOf (object : Value) : Bool :=
  if olderDetections object then object.readOr flag "detections_enable" true
  else object.readOr flag "send_detections" true

theorem parseDetections_computes {object : Value} (ho : object.isObject) (place : String) :
    Computes (parseDetections object place (object.readOr flag "send_detections" true))
      (olderDetections object → object.Allows flag "detections_enable")
      (detectionsOf object) := by
  rw [parseDetections]
  refine .after (Value.isMember_eq ho _) ?_
  refine .after (Value.isMember_eq ho _) ?_
  exact .when fun _ => optionalBool_computes object place "detections_enable" true

/-- The older `preview_stream_id` counts where `preview` is missing or `sub`. -/
def olderPreview (object : Value) : Bool :=
  (object.member "preview_stream_id").isSome && object.readOr text "preview" "sub" = "sub"

def previewOf (object : Value) : String :=
  if olderPreview object then
    if object.readOr number "preview_stream_id" 1 = 0 then "main"
    else if object.readOr number "preview_stream_id" 1 = 2 then "ai"
    else "sub"
  else object.readOr text "preview" "sub"

theorem parsePreview_computes {object : Value} (ho : object.isObject) (place : String) :
    Computes (parsePreview object place (object.readOr text "preview" "sub"))
      (olderPreview object → object.Allows number "preview_stream_id")
      (previewOf object) := by
  rw [parsePreview]
  refine .after (Value.isMember_eq ho _) ?_
  exact .when fun _ => (optionalInt_computes object place "preview_stream_id" 1).map _

def WebRtcSection (object : Value) : Prop :=
  object.isObject ∧ object.Allows flag "enable" ∧ object.Has nonEmpty "signaling_url" ∧
    object.Allows text "signaling_token" ∧ object.Allows text "room" ∧
    object.Allows text "preview" ∧ object.Allows flag "send_detections" ∧
    object.Allows flag "disable_twcc" ∧ object.Allows number "rolling_buffer_sec" ∧
    object.Allows number "expected_bitrate_kbps" ∧ object.Allows number "max_viewers" ∧
    IceServersSection (object.part "ice_servers") ∧
    (olderDetections object → object.Allows flag "detections_enable") ∧
    (olderPreview object → object.Allows number "preview_stream_id") ∧
    ¬ streamIdFromName (previewOf object) < 0

def webrtcOf (object : Value) : WebRtcConfig where
  enable := object.readOr flag "enable" true
  signalingUrl := object.readOr nonEmpty "signaling_url" ""
  signalingToken := object.readOr text "signaling_token" ""
  room := object.readOr text "room" "door-1"
  preview := previewOf object
  previewStreamId := streamIdFromName (previewOf object)
  sendDetections := detectionsOf object
  disableTwcc := object.readOr flag "disable_twcc" true
  rollingBufferSec := object.readOr number "rolling_buffer_sec" 1
  expectedBitrateKbps := object.readOr number "expected_bitrate_kbps" 1000
  maxViewers := object.readOr number "max_viewers" 3
  iceServers := keptServers (object.part "ice_servers").elements

/-- **What `parse_webrtc` accepts and reads.** -/
theorem parseWebrtc_computes (object : Value) (place : String) :
    Computes (parseWebrtc object place) (WebRtcSection object) (webrtcOf object) := by
  rw [parseWebrtc]
  refine .guard _ fun ho => ?_
  refine (optionalBool_computes object place "enable" true).bind fun _ => ?_
  refine (requiredString_computes object place "signaling_url").bind fun _ => ?_
  refine (optionalString_computes object place "signaling_token" "").bind fun _ => ?_
  refine (optionalString_computes object place "room" "door-1").bind fun _ => ?_
  refine (optionalString_computes object place "preview" "sub").bind fun _ => ?_
  refine (optionalBool_computes object place "send_detections" true).bind fun _ => ?_
  refine (optionalBool_computes object place "disable_twcc" true).bind fun _ => ?_
  refine (optionalInt_computes object place "rolling_buffer_sec" 1).bind fun _ => ?_
  refine (optionalInt_computes object place "expected_bitrate_kbps" 1000).bind fun _ => ?_
  refine (optionalInt_computes object place "max_viewers" 3).bind fun _ => ?_
  refine .after (Value.index_eq ho "ice_servers") ?_
  refine (parseIceServers_computes _ _).bind fun _ => ?_
  refine (parseDetections_computes ho place).bind fun _ => ?_
  refine (parsePreview_computes ho place).bind fun _ => ?_
  exact (Computes.reject _ fun _ => Computes.ok _).of_iff (and_iff_left trivial)

/-! ### The unified file -/

def SensorSection (sensor : Value) : Prop :=
  sensor.Has nonEmpty "name" ∧ sensor.Allows number "lane_mode" ∧ sensor.Has number "width" ∧
    sensor.Has number "height" ∧ sensor.Has number "fps" ∧ sensor.Allows number "wdr"

def sensorOf (sensor : Value) : SensorConfig where
  name := sensor.readOr nonEmpty "name" ""
  laneMode := sensor.readOr number "lane_mode" 0
  width := sensor.readOr number "width" 0
  height := sensor.readOr number "height" 0
  fps := sensor.readOr number "fps" 0
  wdr := sensor.readOr number "wdr" 0

theorem parseSensor_computes (sensor : Value) :
    Computes (parseSensor sensor) (SensorSection sensor) (sensorOf sensor) := by
  rw [parseSensor]
  refine (requiredString_computes sensor "sensor" "name").bind fun _ => ?_
  refine (optionalInt_computes sensor "sensor" "lane_mode" 0).bind fun _ => ?_
  refine (requiredInt_computes sensor "sensor" "width").bind fun _ => ?_
  refine (requiredInt_computes sensor "sensor" "height").bind fun _ => ?_
  refine (requiredInt_computes sensor "sensor" "fps").bind fun _ => ?_
  exact (optionalInt_computes sensor "sensor" "wdr" 0).map _

def AudioSection (audio : Value) : Prop :=
  audio.isObject ∧ audio.Allows flag "enable" ∧ audio.Allows flag "microphone" ∧
    audio.Allows text "codec"

def audioOf (audio : Value) : AudioConfig where
  enable := audio.readOr flag "enable" false
  microphone := audio.readOr flag "microphone" false
  codec := audio.readOr text "codec" "G711U"

theorem parseAudio_computes {root : Value} (ho : root.isObject) (audio : AudioConfig) :
    Computes (parseAudio root audio)
      (∀ section_, root.member "audio" = some section_ → AudioSection section_)
      (((root.member "audio").map audioOf).getD audio) := by
  rw [parseAudio]
  refine .member ho "audio" (fun value => ?_) audio
  refine .guard _ fun _ => ?_
  refine (optionalBool_computes value "audio" "enable" false).bind fun _ => ?_
  refine (optionalBool_computes value "audio" "microphone" false).bind fun _ => ?_
  exact (optionalString_computes value "audio" "codec" "G711U").map _

/-- An `osd` beside the streams counts where the sub stream has none. -/
def SharedOsd (root sub : Value) : Prop := sub.member "osd" = none → AllowsOsd root

def StreamsSection (root streams : Value) : Prop :=
  StreamSection (streams.part "main") ∧ StreamSection (streams.part "sub") ∧
    AiSection (streams.part "ai") ∧ SharedOsd root (streams.part "sub")

def subOf (root sub : Value) : EncodedStreamConfig :=
  { streamOf sub subDefaults with
    osd := (((sub.member "osd").or (root.member "osd")).map osdOf).getD {} }

def streamsOf (root streams : Value) : StreamsConfig where
  main := streamOf (streams.part "main") {}
  sub := subOf root (streams.part "sub")
  ai := aiOf (streams.part "ai")

theorem subOf_own {root sub osd : Value} (h : sub.member "osd" = some osd) :
    subOf root sub = streamOf sub subDefaults := by
  rw [subOf, streamOf, h]
  rfl

theorem subOf_plain {root sub : Value} (h : sub.member "osd" = none)
    (hr : root.member "osd" = none) : subOf root sub = streamOf sub subDefaults := by
  rw [subOf, streamOf, h, hr]
  rfl

theorem parseStreams_computes {root streams : Value} (hr : root.isObject)
    (hs : streams.isObject) :
    Computes (parseStreams root streams) (StreamsSection root streams)
      (streamsOf root streams) := by
  rw [parseStreams]
  refine .after (Value.index_eq hs "main") ?_
  refine (parseEncodedStream_computes _ _ _).bind fun _ => ?_
  refine .after (Value.index_eq hs "sub") ?_
  refine (parseEncodedStream_computes _ _ _).bind fun hsub => ?_
  refine .after (Value.index_eq hs "ai") ?_
  refine (parseAiStream_computes _ _).bind fun _ => ?_
  rw [if_pos hsub.1]
  refine .after (Value.isMember_eq hsub.1 "osd") ?_
  rw [SharedOsd, streamsOf]
  -- the sub stream takes the shared OSD only without one of its own
  cases hosd : (streams.part "sub").member "osd" with
  | some osd =>
    rw [subOf_own hosd]
    refine (Computes.ok _).of_iff ⟨fun _ h => ?_, fun _ => trivial⟩
    cases h
  | none =>
    refine .after (Value.isMember_eq hr "osd") ?_
    rw [AllowsOsd]
    cases hshared : root.member "osd" with
    | none =>
      rw [subOf_plain hosd hshared]
      refine (Computes.ok _).of_iff ⟨fun _ _ osd h => ?_, fun _ => trivial⟩
      cases h
    | some osd =>
      refine .after (Value.index_eq hr "osd") ?_
      rw [Value.part, hshared, subOf, hosd, hshared]
      refine ((parseOsd_computes osd "osd").map _).of_iff ⟨fun h _ v hv => ?_, fun h => ?_⟩
      · rwa [← Option.some.inj hv]
      · exact h rfl osd rfl

/-- The directory of the recordings after `file`, which counts where the member
`newer` is missing. -/
def olderDirectoryOf (record : Value) (newer directory : String) : String :=
  if (record.member "file").isSome && !(record.member newer).isSome then
    ((record.field text "file").bind directoryOf).getD directory
  else directory

theorem olderDirectory_eq {record : Value} (ho : record.isObject) (newer directory : String) :
    olderDirectory record newer directory =
      .ok (olderDirectoryOf record newer directory) := by
  rw [olderDirectory, olderDirectoryOf, Value.isMember_eq ho, Value.isMember_eq ho,
    Value.index_eq ho, Value.field, Value.part]
  cases record.member "file" with
  | none => rfl
  | some file =>
    cases record.member newer with
    | some _ => rfl
    | none => cases file <;> rfl

theorem shorterDirectory_eq {record : Value} (ho : record.isObject) (directory : String) :
    shorterDirectory record directory = .ok (record.readOr nonEmpty "dir" directory) := by
  rw [shorterDirectory, Value.readOr, Value.isMember_eq ho, Value.index_eq ho, Value.field,
    Value.part]
  cases record.member "dir" with
  | none => rfl
  | some dir =>
    cases dir with
    | string dir =>
      show Except.ok (if dir = "" then directory else dir) =
        Except.ok ((if dir = "" then none else some dir).getD directory)
      split <;> rfl
    | _ => rfl

def RecordSection (record : Value) : Prop :=
  record.isObject ∧ record.Allows flag "enable" ∧ record.Allows text "stream" ∧
    record.Allows flag "audio" ∧ record.Allows number "segment_sec" ∧
    record.Allows number "retain_sec" ∧ record.Allows number "max_bytes_mb" ∧
    record.Allows text "directory" ∧ record.Allows text "upload_url" ∧
    record.Allows text "upload_token" ∧
    ¬ (record.readOr flag "enable" false &&
      decide (streamIdFromName (record.readOr text "stream" "main") < 0)) = true

def recordOf (record : Value) : RecordConfig where
  enable := record.readOr flag "enable" false
  stream := record.readOr text "stream" "main"
  streamId := streamIdFromName (record.readOr text "stream" "main")
  audio := record.readOr flag "audio" true
  segmentSec := record.readOr number "segment_sec" 300
  retainSec := record.readOr number "retain_sec" 3600
  maxBytesMb := record.readOr number "max_bytes_mb" 200
  directory := record.readOr nonEmpty "dir"
    (olderDirectoryOf record "directory" (record.readOr text "directory" "/mnt/record"))
  uploadUrl := record.readOr text "upload_url" ""
  uploadToken := record.readOr text "upload_token" ""

theorem parseRecord_computes {root : Value} (hr : root.isObject) (config : RecordConfig) :
    Computes (parseRecord root config)
      (∀ record, root.member "record" = some record → RecordSection record)
      (((root.member "record").map recordOf).getD config) := by
  rw [parseRecord]
  refine .member hr "record" (fun record => ?_) config
  refine .guard _ fun ho => ?_
  refine (optionalBool_computes record "record" "enable" false).bind fun _ => ?_
  refine (optionalString_computes record "record" "stream" "main").bind fun _ => ?_
  refine (optionalBool_computes record "record" "audio" true).bind fun _ => ?_
  refine (optionalInt_computes record "record" "segment_sec" 300).bind fun _ => ?_
  refine (optionalInt_computes record "record" "retain_sec" 3600).bind fun _ => ?_
  refine (optionalInt_computes record "record" "max_bytes_mb" 200).bind fun _ => ?_
  refine (optionalString_computes record "record" "directory" "/mnt/record").bind fun _ => ?_
  refine (optionalString_computes record "record" "upload_url" "").bind fun _ => ?_
  refine (optionalString_computes record "record" "upload_token" "").bind fun _ => ?_
  refine .after (olderDirectory_eq ho _ _) ?_
  refine .after (shorterDirectory_eq ho _) ?_
  exact (Computes.reject _ fun _ => Computes.ok _).of_iff (and_iff_left trivial)

/-- A configuration that `validate_config` accepts. -/
def Validated (config : RuntimeConfig) : Prop :=
  ¬ config.unsupported = true ∧
    ¬ (config.audio.enable && config.audio.codec ≠ "AAC" && config.audio.codec ≠ "G711U") = true

theorem validateConfig_computes (config : RuntimeConfig) :
    Computes (validateConfig config) (Validated config) config := by
  rw [validateConfig]
  refine .reject _ fun _ => ?_
  exact (Computes.reject _ fun _ => Computes.ok _).of_iff (and_iff_left trivial)

/-- The configuration of a unified file. -/
def configOf (root : Value) (config : RuntimeConfig) : RuntimeConfig where
  sensor := sensorOf (root.part "sensor")
  audio := ((root.member "audio").map audioOf).getD config.audio
  streams := applyInheritModes (streamsOf root (root.part "streams"))
  record := ((root.member "record").map recordOf).getD config.record
  webrtc := webrtcOf (root.part "webrtc")

/-- A unified file that is accepted. -/
def Unified (root : Value) (config : RuntimeConfig) : Prop :=
  root.isObject ∧ (root.part "sensor").isObject ∧ SensorSection (root.part "sensor") ∧
    (∀ audio, root.member "audio" = some audio → AudioSection audio) ∧
    (root.part "streams").isObject ∧ StreamsSection root (root.part "streams") ∧
    (∀ record, root.member "record" = some record → RecordSection record) ∧
    (root.member "webrtc").isSome ∧ WebRtcSection (root.part "webrtc") ∧
    Validated (configOf root config)

/-- **What a unified file makes of the configuration.**  No value is misused on
the way, whatever the JSON. -/
theorem ipcMiniJson_computes (root : Value) (config : RuntimeConfig) :
    Computes (ipcMiniJson root config) (Unified root config) (configOf root config) := by
  rw [ipcMiniJson]
  refine .guard _ fun ho => ?_
  refine .after (Value.index_eq ho "sensor") ?_
  refine .guard _ fun _ => ?_
  refine (parseSensor_computes _).bind fun _ => ?_
  refine (parseAudio_computes ho _).bind fun _ => ?_
  refine .after (Value.index_eq ho "streams") ?_
  refine .guard _ fun hs => ?_
  refine (parseStreams_computes ho hs).bind fun _ => ?_
  refine (parseRecord_computes ho _).bind fun _ => ?_
  refine .after (Value.isMember_eq ho "webrtc") ?_
  refine .guard _ fun _ => ?_
  refine .after (Value.index_eq ho "webrtc") ?_
  refine (parseWebrtc_computes _ _).bind fun _ => ?_
  exact validateConfig_computes _

/-! ### The older set of files -/

section Legacy

variable {root : Value}

def ViSection (sensor : Value) : Prop :=
  sensor.isObject ∧ sensor.Has nonEmpty "name" ∧ sensor.Has number "lane_mode" ∧
    sensor.Has number "max_w" ∧ sensor.Has number "max_h" ∧ sensor.Has number "vi_fr" ∧
    sensor.Has number "wdr_mode"

def viOf (sensor : Value) : SensorConfig where
  name := sensor.readOr nonEmpty "name" ""
  laneMode := sensor.readOr number "lane_mode" 0
  width := sensor.readOr number "max_w" 0
  height := sensor.readOr number "max_h" 0
  fps := sensor.readOr number "vi_fr" 0
  wdr := sensor.readOr number "wdr_mode" 0

theorem viJson_computes (ho : root.isObject) (config : RuntimeConfig) :
    Computes (viJson root config) (ViSection (root.part "sensor1"))
      { config with sensor := viOf (root.part "sensor1") } := by
  rw [viJson]
  refine .after (Value.index_eq ho "sensor1") ?_
  refine .guard _ fun _ => ?_
  refine (requiredString_computes _ _ "name").bind fun _ => ?_
  refine (requiredInt_computes _ _ "lane_mode").bind fun _ => ?_
  refine (requiredInt_computes _ _ "max_w").bind fun _ => ?_
  refine (requiredInt_computes _ _ "max_h").bind fun _ => ?_
  refine (requiredInt_computes _ _ "vi_fr").bind fun _ => ?_
  exact (requiredInt_computes _ _ "wdr_mode").map _

def VencSection (encoder : Value) : Prop :=
  encoder.isObject ∧ encoder.Has nonEmpty "name" ∧ encoder.Has number "w" ∧
    encoder.Has number "h" ∧ encoder.Has number "fr" ∧ encoder.Has number "bitrate" ∧
    encoder.Has number "svc_enable"

def vencOf (encoder : Value) (streams : StreamsConfig) : StreamsConfig :=
  { streams with
    main := { streams.main with
      enable := true, start := .Boot
      mode := encoder.readOr nonEmpty "name" ""
      width := encoder.readOr number "w" 0
      height := encoder.readOr number "h" 0
      fps := encoder.readOr number "fr" 0
      bitrateKbps := encoder.readOr number "bitrate" 0
      svc := encoder.readOr number "svc_enable" 0 != 0 }
    sub := { streams.sub with
      enable := true, start := .OnDemand
      mode := encoder.readOr nonEmpty "name" ""
      width := 720, height := 480
      fps := encoder.readOr number "fr" 0
      bitrateKbps := 1000 } }

theorem vencJson_computes (ho : root.isObject) (config : RuntimeConfig) :
    Computes (vencJson root config) (VencSection (root.part "venc1"))
      { config with streams := vencOf (root.part "venc1") config.streams } := by
  rw [vencJson]
  refine .after (Value.index_eq ho "venc1") ?_
  refine .guard _ fun _ => ?_
  refine (requiredString_computes _ _ "name").bind fun _ => ?_
  refine (requiredInt_computes _ _ "w").bind fun _ => ?_
  refine (requiredInt_computes _ _ "h").bind fun _ => ?_
  refine (requiredInt_computes _ _ "fr").bind fun _ => ?_
  refine (requiredInt_computes _ _ "bitrate").bind fun _ => ?_
  exact (requiredInt_computes _ _ "svc_enable").map _

def AencSection (audio : Value) : Prop :=
  audio.isObject ∧ audio.Has flag "enable" ∧ audio.Has flag "is_mic" ∧ audio.Has nonEmpty "name"

def aencOf (audio : Value) : AudioConfig where
  enable := audio.readOr flag "enable" false
  microphone := audio.readOr flag "is_mic" false
  codec := audio.readOr nonEmpty "name" ""

theorem aencJson_computes (ho : root.isObject) (config : RuntimeConfig) :
    Computes (aencJson root config) (AencSection (root.part "aenc1"))
      { config with audio := aencOf (root.part "aenc1") } := by
  rw [aencJson]
  refine .after (Value.index_eq ho "aenc1") ?_
  refine .guard _ fun _ => ?_
  refine (requiredBool_computes _ _ "enable").bind fun _ => ?_
  refine (requiredBool_computes _ _ "is_mic").bind fun _ => ?_
  exact (requiredString_computes _ _ "name").map _

/-- The WebRTC section of `net_service.json`. -/
def servicesOf (root : Value) : Value := (root.part "net_service").part "webrtc"

/-- Where `net_service` is null or an object, nothing is misused. -/
theorem netServiceJson_computes (ho : root.isObject) (hs : (root.part "net_service").isObject)
    (config : RuntimeConfig) :
    Computes (netServiceJson root config) (WebRtcSection (servicesOf root))
      { config with webrtc := webrtcOf (servicesOf root) } := by
  rw [netServiceJson]
  refine .after (Value.index_eq ho "net_service") ?_
  refine .after (Value.index_eq hs "webrtc") ?_
  rw [hs, Bool.true_and]
  refine Computes.of_iff (.guard _ fun _ => (parseWebrtc_computes _ _).map _) ?_
  exact ⟨fun h => h.2, fun h => ⟨h.1, h⟩⟩

theorem osdJson_computes (ho : root.isObject) (config : RuntimeConfig) :
    Computes (osdJson root config) (OsdSection (root.part "time_osd"))
      { config with streams := { config.streams with
        sub := { config.streams.sub with osd := osdOf (root.part "time_osd") } } } := by
  rw [osdJson]
  refine .after (Value.index_eq ho "time_osd") ?_
  exact (parseOsd_computes _ _).map _

def YoloSection (yolov8 : Value) : Prop :=
  yolov8.isObject ∧ yolov8.Has flag "enable" ∧ yolov8.Has nonEmpty "cfg_file" ∧
    yolov8.Has nonEmpty "model_file"

def yoloOf (yolov8 : Value) (ai : AiStreamConfig) : AiStreamConfig :=
  { ai with
    enable := yolov8.readOr flag "enable" false
    acl := yolov8.readOr nonEmpty "cfg_file" ""
    model := yolov8.readOr nonEmpty "model_file" ""
    start := .OnDemand, engine := "yolov8", width := 640, height := 640, fps := 1 }

theorem yolov8Json_computes (ho : root.isObject) (config : RuntimeConfig) :
    Computes (yolov8Json root config) (YoloSection (root.part "yolov8"))
      { config with streams := { config.streams with
        ai := yoloOf (root.part "yolov8") config.streams.ai } } := by
  rw [yolov8Json]
  refine .after (Value.index_eq ho "yolov8") ?_
  refine .guard _ fun _ => ?_
  refine (requiredBool_computes _ _ "enable").bind fun _ => ?_
  refine (requiredString_computes _ _ "cfg_file").bind fun _ => ?_
  exact (requiredString_computes _ _ "model_file").map _

def SaveSection (record : Value) : Prop :=
  record.isObject ∧ record.Allows flag "enable" ∧ record.Allows text "stream" ∧
    record.Allows flag "audio" ∧ record.Allows number "segment_sec" ∧
    record.Allows number "retain_sec" ∧ record.Allows number "max_bytes_mb" ∧
    record.Allows text "dir" ∧ record.Allows text "upload_url"

def saveOf (record : Value) (config : RecordConfig) : RecordConfig :=
  { config with
    enable := record.readOr flag "enable" false
    stream := record.readOr text "stream" "main"
    streamId := streamIdFromName (record.readOr text "stream" "main")
    audio := record.readOr flag "audio" true
    segmentSec := record.readOr number "segment_sec" 300
    retainSec := record.readOr number "retain_sec" 3600
    maxBytesMb := record.readOr number "max_bytes_mb" 200
    directory := olderDirectoryOf record "dir" (record.readOr text "dir" "/mnt/record")
    uploadUrl := record.readOr text "upload_url" "" }

theorem mp4SaveJson_computes (ho : root.isObject) (config : RuntimeConfig) :
    Computes (mp4SaveJson root config) (SaveSection (root.part "mp4_save"))
      { config with record := saveOf (root.part "mp4_save") config.record } := by
  rw [mp4SaveJson]
  refine .after (Value.index_eq ho "mp4_save") ?_
  refine .guard _ fun hs => ?_
  refine (optionalBool_computes _ _ "enable" false).bind fun _ => ?_
  refine (optionalString_computes _ _ "stream" "main").bind fun _ => ?_
  refine (optionalBool_computes _ _ "audio" true).bind fun _ => ?_
  refine (optionalInt_computes _ _ "segment_sec" 300).bind fun _ => ?_
  refine (optionalInt_computes _ _ "retain_sec" 3600).bind fun _ => ?_
  refine (optionalInt_computes _ _ "max_bytes_mb" 200).bind fun _ => ?_
  refine (optionalString_computes _ _ "dir" "/mnt/record").bind fun _ => ?_
  refine (optionalString_computes _ _ "upload_url" "").bind_ok fun _ => ?_
  rw [olderDirectory_eq hs]
  rfl

end Legacy

end Config

end IpcMini
