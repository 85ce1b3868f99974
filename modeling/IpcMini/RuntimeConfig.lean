/-
The configuration loader (`src/config/runtime_config.cpp`).

One `ipc_mini.json`, or the older set of seven files, is read into a
`RuntimeConfig`.  Each part of the source that fills the configuration through
references is here a function that returns what it fills in; a configuration
that is refused is dropped, as `main` drops it.

* `Files` — what `stat` and stdio report of each path, and the JSON reader;
* `requiredString` … `parseWebrtc` — the readers of one object;
* `loadIpcMiniJson` — the unified file, `loadLegacyFiles` — the older set,
  in the order `viJson` … `mp4SaveJson` of its files;
* `validateConfig`, `loadRuntimeConfig`.
-/
import Mathlib.Data.Int.Notation
import IpcMini.Jsoncpp

namespace IpcMini

namespace Config

open Jsoncpp

/-! ### The configuration -/

inductive StreamStart
  | Boot
  | OnDemand
  deriving DecidableEq, Repr

def streamIdFromName (name : String) : Int32 :=
  if name = "main" then 0
  else if name = "sub" then 1
  else if name = "ai" then 2
  else -1

structure SensorConfig where
  name : String := "SC4336P"
  laneMode : Int32 := 0
  width : Int32 := 2560
  height : Int32 := 1440
  fps : Int32 := 30
  wdr : Int32 := 0
  deriving DecidableEq, Repr

structure AudioConfig where
  enable : Bool := false
  microphone : Bool := false
  codec : String := "G711U"
  deriving DecidableEq, Repr

structure TimeOsdConfig where
  enable : Bool := false
  x : Int32 := 32
  y : Int32 := 32
  fontSize : Int32 := 32
  deriving DecidableEq, Repr

structure EncodedStreamConfig where
  enable : Bool := true
  start : StreamStart := .Boot
  mode : String := "H264_CBR"
  width : Int32 := 1280
  height : Int32 := 720
  fps : Int32 := 15
  bitrateKbps : Int32 := 800
  svc : Bool := false
  osd : TimeOsdConfig := {}
  deriving DecidableEq, Repr

structure AiStreamConfig where
  enable : Bool := false
  start : StreamStart := .OnDemand
  engine : String := "yolov8"
  model : String := ""
  acl : String := ""
  width : Int32 := 640
  height : Int32 := 640
  fps : Int32 := 1
  idleStopSec : Int32 := 5
  deriving DecidableEq, Repr

structure StreamsConfig where
  main : EncodedStreamConfig := {}
  sub : EncodedStreamConfig := {}
  ai : AiStreamConfig := {}
  deriving DecidableEq, Repr

structure RecordConfig where
  enable : Bool := false
  stream : String := "main"
  streamId : Int32 := 0
  audio : Bool := true
  segmentSec : Int32 := 300
  retainSec : Int32 := 3600
  maxBytesMb : Int32 := 200
  directory : String := "/mnt/record"
  uploadUrl : String := ""
  uploadToken : String := ""
  deriving DecidableEq, Repr

structure WebRtcIceServerConfig where
  urls : String
  username : String
  credential : String
  deriving DecidableEq, Repr

structure WebRtcConfig where
  enable : Bool := true
  signalingUrl : String := "ws://127.0.0.1:8089/ws"
  signalingToken : String := ""
  room : String := "door-1"
  preview : String := "sub"
  previewStreamId : Int32 := 1
  sendDetections : Bool := true
  disableTwcc : Bool := true
  rollingBufferSec : Int32 := 1
  expectedBitrateKbps : Int32 := 1000
  maxViewers : Int32 := 3
  iceServers : List WebRtcIceServerConfig := []
  deriving DecidableEq, Repr

structure RuntimeConfig where
  sensor : SensorConfig := {}
  audio : AudioConfig := {}
  streams : StreamsConfig := {}
  record : RecordConfig := {}
  webrtc : WebRtcConfig := {}
  deriving DecidableEq, Repr

/-! ### Reading a file -/

/-- What stdio reports of an open file: the results of the two `fseek` calls and
of `ftell`, and the bytes `fread` gives. -/
structure OpenFile where
  seekEnd : Bool
  ftell : ℤ
  seekSet : Bool
  fread : String

/-- The file system and the JSON reader as the loader sees them.  `parse` gives
the root value or `getFormatedErrorMessages`. -/
structure Files where
  fileIsRegular : String → Bool
  fopen : String → Option OpenFile
  parse : String → Except String Value

def kMaxConfigBytes : ℤ := 64 * 1024

def pathJoin (directory file : String) : String :=
  if directory.toList.getLast? = some '/' then directory ++ file
  else directory ++ "/" ++ file

def readJson (files : Files) (path : String) : Loader Value :=
  match files.fopen path with
  | none => refuse ("cannot open " ++ path)
  | some file =>
    if !file.seekEnd then refuse ("cannot seek " ++ path)
    else if file.ftell ≤ 0 ∨ kMaxConfigBytes < file.ftell ∨ file.seekSet = false then
      refuse ("invalid config size: " ++ path)
    else if (file.fread.length : ℤ) ≠ file.ftell then refuse ("cannot read " ++ path)
    else
      match files.parse file.fread with
      | .error messages => refuse ("invalid JSON in " ++ path ++ ": " ++ messages)
      | .ok root => .ok root

/-! ### The members of one object -/

/-- The text of a string value, unless it is empty. -/
def readNonEmpty (value : Value) : Loader (Option String) :=
  if value.isString then do
    let text ← value.asString
    return if text = "" then none else some text
  else return none

def readString (value : Value) : Loader (Option String) :=
  if value.isString then do
    let text ← value.asString
    return some text
  else return none

def readInt (value : Value) : Loader (Option Int32) :=
  if value.isInt then do
    let number ← value.asInt
    return some number
  else return none

def parseBool (value : Value) : Loader (Option Bool) :=
  if value.isBool then do
    let flag ← value.asBool
    return some flag
  else if value.isInt then do
    let number ← value.asInt
    return some (number != 0)
  else return none

/-- The value of `start`. -/
def readStart (value : Value) : Loader (Option StreamStart) :=
  if value.isString then do
    let text ← value.asString
    return if text = "boot" then some .Boot
      else if text = "on_demand" then some .OnDemand
      else none
  else return none

def requiredString (object : Value) (place field : String) : Loader String :=
  requiredMember readNonEmpty "must be a non-empty string" object place field

def optionalString (object : Value) (place field defaultValue : String) : Loader String :=
  optionalMember readString "must be a string" object place field defaultValue

def requiredInt (object : Value) (place field : String) : Loader Int32 :=
  requiredMember readInt "must be an integer" object place field

def optionalInt (object : Value) (place field : String) (defaultValue : Int32) :
    Loader Int32 :=
  optionalMember readInt "must be an integer" object place field defaultValue

def requiredBool (object : Value) (place field : String) : Loader Bool :=
  requiredMember parseBool "must be a boolean or 0/1" object place field

def optionalBool (object : Value) (place field : String) (defaultValue : Bool) :
    Loader Bool :=
  optionalMember parseBool "must be a boolean or 0/1" object place field defaultValue

def parseStart (object : Value) (place : String) (defaultValue : StreamStart) :
    Loader StreamStart :=
  optionalMember readStart "must be \"boot\" or \"on_demand\"" object place "start"
    defaultValue

/-! ### The streams -/

def parseOsd (object : Value) (place : String) : Loader TimeOsdConfig :=
  if object.isObject then do
    let enable ← optionalBool object place "enable" true
    let x ← optionalInt object place "x" 32
    let y ← optionalInt object place "y" 32
    let fontSize ← optionalInt object place "font_size" 32
    return { enable, x, y, fontSize }
  else refuse (place ++ " must be an object")

/-- The fields that `encoder`, or the stream itself without one, has. -/
def parseEncoder (encoder : Value) (place : String) (stream : EncodedStreamConfig) :
    Loader EncodedStreamConfig := do
  let mode ← optionalString encoder place "mode" stream.mode
  let width ← optionalInt encoder place "width" stream.width
  let height ← optionalInt encoder place "height" stream.height
  let fps ← optionalInt encoder place "fps" stream.fps
  let bitrateKbps ← optionalInt encoder place "bitrate_kbps" stream.bitrateKbps
  let svc ← optionalBool encoder place "svc" stream.svc
  return { stream with mode, width, height, fps, bitrateKbps, svc }

def parseEncodedStream (object : Value) (place : String) (defaults : EncodedStreamConfig) :
    Loader EncodedStreamConfig :=
  if object.isObject then do
    let enable ← optionalBool object place "enable" defaults.enable
    let start ← parseStart object place defaults.start
    let nested ← object.isMember "encoder"
    let encoder ← (if nested then object.index "encoder" else .ok object)
    let stream ← parseEncoder encoder (if nested then place ++ ".encoder" else place)
      { defaults with enable, start }
    let hasOsd ← object.isMember "osd"
    if hasOsd then do
      let value ← object.index "osd"
      let osd ← parseOsd value (place ++ ".osd")
      return { stream with osd }
    else return stream
  else refuse (place ++ " must be an object")

def parseAiStream (object : Value) (place : String) : Loader AiStreamConfig :=
  if object.isObject then do
    let enable ← optionalBool object place "enable" false
    let start ← parseStart object place .OnDemand
    let engine ← optionalString object place "engine" "yolov8"
    let model ← optionalString object place "model" ""
    let acl ← optionalString object place "acl" ""
    let width ← optionalInt object place "width" 640
    let height ← optionalInt object place "height" 640
    let fps ← optionalInt object place "fps" 1
    let idleStopSec ← optionalInt object place "idle_stop_sec" 5
    return { enable, start, engine, model, acl, width, height, fps, idleStopSec }
  else refuse (place ++ " must be an object")

/-! ### WebRTC -/

/-- A member that is there and is not a string is refused. -/
def checkIceText (item : Value) (place field : String) : Loader Unit := do
  let there ← item.isMember field
  if there then do
    let value ← item.index field
    if value.isString then return ()
    else refuse (place ++ "[]." ++ field ++ " must be a string")
  else return ()

/-- One element of `ice_servers`. -/
def parseIceServer (item : Value) (place : String) : Loader WebRtcIceServerConfig :=
  if item.isObject then do
    let there ← item.isMember "urls"
    if there then do
      let value ← item.index "urls"
      if value.isString then do
        let urls ← value.asString
        checkIceText item place "username"
        checkIceText item place "credential"
        let user ← item.get "username" (.string "")
        let username ← user.asString
        let secret ← item.get "credential" (.string "")
        let credential ← secret.asString
        return { urls, username, credential }
      else refuse (place ++ "[].urls must be a string")
    else refuse (place ++ "[].urls must be a string")
  else refuse (place ++ "[].urls must be a string")

/-- The loop over the elements. -/
def parseIceItems (place : String) : List Value → Loader (List WebRtcIceServerConfig)
  | [] => return []
  | item :: rest => do
    let server ← parseIceServer item place
    let servers ← parseIceItems place rest
    return if server.urls ≠ "" ∧ server.urls.length ≤ 1024 then server :: servers else servers

def parseIceServers (ice : Value) (place : String) : Loader (List WebRtcIceServerConfig) :=
  if ice.isNull then return []
  else if ice.isArray then parseIceItems place ice.elements
  else refuse (place ++ " must be an array")

/-- The older `detections_enable`, which `send_detections` overrides. -/
def parseDetections (object : Value) (place : String) (sendDetections : Bool) :
    Loader Bool := do
  let older ← object.isMember "detections_enable"
  let newer ← object.isMember "send_detections"
  if older && !newer then optionalBool object place "detections_enable" true
  else return sendDetections

/-- The older `preview_stream_id`, which any `preview` but `sub` overrides. -/
def parsePreview (object : Value) (place preview : String) : Loader String := do
  let older ← object.isMember "preview_stream_id"
  if older && preview = "sub" then do
    let previewId ← optionalInt object place "preview_stream_id" 1
    return if previewId = 0 then "main" else if previewId = 2 then "ai" else "sub"
  else return preview

def parseWebrtc (object : Value) (place : String) : Loader WebRtcConfig :=
  if object.isObject then do
    let enable ← optionalBool object place "enable" true
    let signalingUrl ← requiredString object place "signaling_url"
    let signalingToken ← optionalString object place "signaling_token" ""
    let room ← optionalString object place "room" "door-1"
    let named ← optionalString object place "preview" "sub"
    let sends ← optionalBool object place "send_detections" true
    let disableTwcc ← optionalBool object place "disable_twcc" true
    let rollingBufferSec ← optionalInt object place "rolling_buffer_sec" 1
    let expectedBitrateKbps ← optionalInt object place "expected_bitrate_kbps" 1000
    let maxViewers ← optionalInt object place "max_viewers" 3
    let ice ← object.index "ice_servers"
    let iceServers ← parseIceServers ice (place ++ ".ice_servers")
    let sendDetections ← parseDetections object place sends
    let preview ← parsePreview object place named
    if streamIdFromName preview < 0 then
      refuse (place ++ ".preview must be main, sub, or ai")
    else
      return { enable, signalingUrl, signalingToken, room, preview
               previewStreamId := streamIdFromName preview
               sendDetections, disableTwcc, rollingBufferSec, expectedBitrateKbps
               maxViewers, iceServers }
  else refuse (place ++ " must be an object")

/-! ### Validation -/

def supportedEncoderMode (mode : String) : Bool :=
  mode = "H264_CBR" || mode = "H264_AVBR" || mode = "H265_CBR" || mode = "H265_AVBR"

def positive (value : Int32) : Bool := value > 0

/-- `text.rfind(start, 0) == 0`. -/
def startsWith (text start : String) : Bool := start.toList.isPrefixOf text.toList

/-- A recording section that an enabled recording may not have. -/
def RecordConfig.unsupported (record : RecordConfig) : Bool :=
  record.directory.isEmpty || record.streamId < 0 || record.streamId > 1 ||
  record.segmentSec < 5 || record.segmentSec > 3600 ||
  record.retainSec < 0 || record.retainSec > 7 * 24 * 3600 ||
  record.maxBytesMb < 0 || record.maxBytesMb > 8192 ||
  (!record.uploadUrl.isEmpty && !startsWith record.uploadUrl "http://")

/-- An encoder section that an enabled stream may not have. -/
def EncodedStreamConfig.unsupported (stream : EncodedStreamConfig) : Bool :=
  !supportedEncoderMode stream.mode || !positive stream.width || !positive stream.height ||
  !positive stream.fps || !positive stream.bitrateKbps

/-- A section that an enabled detection stream may not have. -/
def AiStreamConfig.unsupported (ai : AiStreamConfig) : Bool :=
  ai.engine ≠ "yolov8" || ai.model.isEmpty || ai.acl.isEmpty || !positive ai.width ||
  !positive ai.height || !positive ai.fps || ai.idleStopSec < 1 || ai.idleStopSec > 60

def TimeOsdConfig.unsupported (osd : TimeOsdConfig) : Bool :=
  osd.x < 0 || osd.y < 0 || !positive osd.fontSize

/-- The checks of `validate_config` on the signaling section, made also where
WebRTC is not enabled. -/
def WebRtcConfig.unsupported (webrtc : WebRtcConfig) : Bool :=
  !(startsWith webrtc.signalingUrl "ws://" || startsWith webrtc.signalingUrl "wss://") ||
  webrtc.signalingUrl.isEmpty || webrtc.signalingUrl.length > 2048 ||
  webrtc.room.isEmpty || webrtc.room.length > 128 ||
  webrtc.previewStreamId < 0 || webrtc.previewStreamId > 2 ||
  webrtc.rollingBufferSec < 0 || webrtc.rollingBufferSec > 30 ||
  !positive webrtc.expectedBitrateKbps || webrtc.maxViewers < 1 || webrtc.maxViewers > 3

def RuntimeConfig.unsupported (config : RuntimeConfig) : Bool :=
  config.sensor.name.isEmpty || !positive config.sensor.width ||
  !positive config.sensor.height || !positive config.sensor.fps ||
  !config.streams.main.enable || config.streams.main.unsupported ||
  (config.streams.sub.enable && config.streams.sub.unsupported) ||
  (config.streams.ai.enable && config.streams.ai.unsupported) ||
  config.webrtc.unsupported ||
  (config.streams.main.osd.enable && config.streams.main.osd.unsupported) ||
  (config.streams.sub.osd.enable && config.streams.sub.osd.unsupported) ||
  (config.record.enable && config.record.unsupported)

def validateConfig (config : RuntimeConfig) : Loader RuntimeConfig :=
  if config.unsupported then
    refuse "configuration contains unsupported mode, URL, stream, or numeric value"
  else if config.audio.enable && config.audio.codec ≠ "AAC" && config.audio.codec ≠ "G711U" then
    refuse "audio.codec must be AAC or G711U"
  else .ok config

def applyInheritModes (streams : StreamsConfig) : StreamsConfig :=
  if streams.sub.mode = "inherit" || streams.sub.mode.isEmpty then
    { streams with sub := { streams.sub with mode := streams.main.mode } }
  else streams

/-! ### The unified file -/

/-- `file.substr(0, slash)` for the last slash, unless that is the first byte. -/
def directoryOf (file : String) : Option String :=
  match file.toList.reverse.dropWhile (· ≠ '/') with
  | [] => none
  | _ :: rest => if rest = [] then none else some (String.ofList rest.reverse)

def parseSensor (sensor : Value) : Loader SensorConfig := do
  let name ← requiredString sensor "sensor" "name"
  let laneMode ← optionalInt sensor "sensor" "lane_mode" 0
  let width ← requiredInt sensor "sensor" "width"
  let height ← requiredInt sensor "sensor" "height"
  let fps ← requiredInt sensor "sensor" "fps"
  let wdr ← optionalInt sensor "sensor" "wdr" 0
  return { name, laneMode, width, height, fps, wdr }

def parseAudio (root : Value) (audio : AudioConfig) : Loader AudioConfig := do
  let there ← root.isMember "audio"
  if there then do
    let value ← root.index "audio"
    if value.isObject then do
      let enable ← optionalBool value "audio" "enable" false
      let microphone ← optionalBool value "audio" "microphone" false
      let codec ← optionalString value "audio" "codec" "G711U"
      return { enable, microphone, codec }
    else refuse "audio must be an object"
  else return audio

def subDefaults : EncodedStreamConfig where
  start := .OnDemand
  mode := "inherit"
  width := 720
  height := 480
  bitrateKbps := 1000

/-- The three streams; an `osd` beside them is the one of the sub stream. -/
def parseStreams (root streams : Value) : Loader StreamsConfig := do
  let mainValue ← streams.index "main"
  let main ← parseEncodedStream mainValue "streams.main" {}
  let subValue ← streams.index "sub"
  let sub ← parseEncodedStream subValue "streams.sub" subDefaults
  let aiValue ← streams.index "ai"
  let ai ← parseAiStream aiValue "streams.ai"
  let own ← (if subValue.isObject then subValue.isMember "osd" else .ok false)
  if own then return { main, sub, ai }
  else do
    let shared ← root.isMember "osd"
    if shared then do
      let value ← root.index "osd"
      let osd ← parseOsd value "osd"
      return { main, sub := { sub with osd }, ai }
    else return { main, sub, ai }

/-- The directory of `file`, where there is no `directory`. -/
def olderDirectory (record : Value) (newer directory : String) : Loader String := do
  let hasFile ← record.isMember "file"
  let hasNewer ← record.isMember newer
  if hasFile && !hasNewer then do
    let value ← record.index "file"
    if value.isString then do
      let file ← value.asString
      return (directoryOf file).getD directory
    else return directory
  else return directory

/-- A non-empty `dir` is taken over `directory`. -/
def shorterDirectory (record : Value) (directory : String) : Loader String := do
  let there ← record.isMember "dir"
  if there then do
    let value ← record.index "dir"
    if value.isString then do
      let dir ← value.asString
      return if dir = "" then directory else dir
    else return directory
  else return directory

def parseRecord (root : Value) (config : RecordConfig) : Loader RecordConfig := do
  let there ← root.isMember "record"
  if there then do
    let record ← root.index "record"
    if record.isObject then do
      let enable ← optionalBool record "record" "enable" false
      let stream ← optionalString record "record" "stream" "main"
      let audio ← optionalBool record "record" "audio" true
      let segmentSec ← optionalInt record "record" "segment_sec" 300
      let retainSec ← optionalInt record "record" "retain_sec" 3600
      let maxBytesMb ← optionalInt record "record" "max_bytes_mb" 200
      let named ← optionalString record "record" "directory" "/mnt/record"
      let uploadUrl ← optionalString record "record" "upload_url" ""
      let uploadToken ← optionalString record "record" "upload_token" ""
      let older ← olderDirectory record "directory" named
      let directory ← shorterDirectory record older
      if enable && streamIdFromName stream < 0 then
        refuse "record.stream must be main or sub"
      else
        return { enable, stream, streamId := streamIdFromName stream, audio, segmentSec
                 retainSec, maxBytesMb, directory, uploadUrl, uploadToken }
    else refuse "record must be an object"
  else return config

/-- `load_ipc_mini_json` after its file is read.  The null members that the
non-constant `operator[]` adds to `root` are of keys not looked up again. -/
def ipcMiniJson (root : Value) (config : RuntimeConfig) : Loader RuntimeConfig :=
  if root.isObject then do
    let sensorValue ← root.index "sensor"
    if sensorValue.isObject then do
      let sensor ← parseSensor sensorValue
      let audio ← parseAudio root config.audio
      let streamsValue ← root.index "streams"
      if streamsValue.isObject then do
        let streams ← parseStreams root streamsValue
        let record ← parseRecord root config.record
        let there ← root.isMember "webrtc"
        if there then do
          let value ← root.index "webrtc"
          let webrtc ← parseWebrtc value "webrtc"
          validateConfig { sensor, audio, streams := applyInheritModes streams, record, webrtc }
        else refuse "ipc_mini.json: missing webrtc"
      else refuse "ipc_mini.json: missing streams"
    else refuse "ipc_mini.json: missing sensor"
  else refuse "ipc_mini.json: root must be an object"

def loadIpcMiniJson (files : Files) (path : String) (config : RuntimeConfig) :
    Loader RuntimeConfig := do
  let root ← readJson files path
  ipcMiniJson root config

/-! ### The older set of files -/

def viJson (root : Value) (config : RuntimeConfig) : Loader RuntimeConfig := do
  let sensor ← root.index "sensor1"
  if sensor.isObject then do
    let name ← requiredString sensor "vi.json:sensor1" "name"
    let laneMode ← requiredInt sensor "vi.json:sensor1" "lane_mode"
    let width ← requiredInt sensor "vi.json:sensor1" "max_w"
    let height ← requiredInt sensor "vi.json:sensor1" "max_h"
    let fps ← requiredInt sensor "vi.json:sensor1" "vi_fr"
    let wdr ← requiredInt sensor "vi.json:sensor1" "wdr_mode"
    return { config with sensor := { name, laneMode, width, height, fps, wdr } }
  else refuse "vi.json: missing sensor1"

/-- The main stream as the file has it, and a sub stream beside it. -/
def vencJson (root : Value) (config : RuntimeConfig) : Loader RuntimeConfig := do
  let encoder ← root.index "venc1"
  if encoder.isObject then do
    let mode ← requiredString encoder "venc.json:venc1" "name"
    let width ← requiredInt encoder "venc.json:venc1" "w"
    let height ← requiredInt encoder "venc.json:venc1" "h"
    let fps ← requiredInt encoder "venc.json:venc1" "fr"
    let bitrateKbps ← requiredInt encoder "venc.json:venc1" "bitrate"
    let svc ← requiredInt encoder "venc.json:venc1" "svc_enable"
    let main :=
      { config.streams.main with
        mode, width, height, fps, bitrateKbps
        enable := true, start := .Boot, svc := svc != 0 }
    let sub :=
      { config.streams.sub with
        enable := true, start := .OnDemand, mode, width := 720, height := 480, fps
        bitrateKbps := 1000 }
    return { config with streams := { config.streams with main, sub } }
  else refuse "venc.json: missing venc1"

def aencJson (root : Value) (config : RuntimeConfig) : Loader RuntimeConfig := do
  let audio ← root.index "aenc1"
  if audio.isObject then do
    let enable ← requiredBool audio "aenc.json:aenc1" "enable"
    let microphone ← requiredBool audio "aenc.json:aenc1" "is_mic"
    let codec ← requiredString audio "aenc.json:aenc1" "name"
    return { config with audio := { enable, microphone, codec } }
  else refuse "aenc.json: missing aenc1"

/-- `webrtc` is looked up before `net_service` is known to be an object. -/
def netServiceJson (root : Value) (config : RuntimeConfig) : Loader RuntimeConfig := do
  let services ← root.index "net_service"
  let value ← services.index "webrtc"
  if services.isObject && value.isObject then do
    let webrtc ← parseWebrtc value "net_service.json:webrtc"
    return { config with webrtc }
  else refuse "net_service.json: missing webrtc"

def osdJson (root : Value) (config : RuntimeConfig) : Loader RuntimeConfig := do
  let value ← root.index "time_osd"
  let osd ← parseOsd value "osd.json:time_osd"
  return { config with
    streams := { config.streams with sub := { config.streams.sub with osd } } }

def yolov8Json (root : Value) (config : RuntimeConfig) : Loader RuntimeConfig := do
  let yolov8 ← root.index "yolov8"
  if yolov8.isObject then do
    let enable ← requiredBool yolov8 "yolov8.json:yolov8" "enable"
    let acl ← requiredString yolov8 "yolov8.json:yolov8" "cfg_file"
    let model ← requiredString yolov8 "yolov8.json:yolov8" "model_file"
    let ai :=
      { config.streams.ai with
        enable, acl, model, start := .OnDemand, engine := "yolov8"
        width := 640, height := 640, fps := 1 }
    return { config with streams := { config.streams with ai } }
  else refuse "yolov8.json: missing yolov8"

def mp4SaveJson (root : Value) (config : RuntimeConfig) : Loader RuntimeConfig := do
  let record ← root.index "mp4_save"
  if record.isObject then do
    let place := "mp4_save_info.json:mp4_save"
    let enable ← optionalBool record place "enable" false
    let stream ← optionalString record place "stream" "main"
    let audio ← optionalBool record place "audio" true
    let segmentSec ← optionalInt record place "segment_sec" 300
    let retainSec ← optionalInt record place "retain_sec" 3600
    let maxBytesMb ← optionalInt record place "max_bytes_mb" 200
    let named ← optionalString record place "dir" "/mnt/record"
    let uploadUrl ← optionalString record place "upload_url" ""
    let directory ← olderDirectory record "dir" named
    return { config with
      record := { config.record with
        enable, stream, streamId := streamIdFromName stream, audio, segmentSec
        retainSec, maxBytesMb, directory, uploadUrl } }
  else refuse "mp4_save_info.json: missing mp4_save"

/-- One file of the set, and what its root value does to the configuration. -/
structure LegacyFile where
  name : String
  apply : Value → RuntimeConfig → Loader RuntimeConfig

/-- The files that have to be there, in the order they are read. -/
def requiredFiles : List LegacyFile :=
  [⟨"vi.json", viJson⟩, ⟨"venc.json", vencJson⟩, ⟨"aenc.json", aencJson⟩,
    ⟨"net_service.json", netServiceJson⟩, ⟨"osd.json", osdJson⟩,
    ⟨"../yolov8/yolov8.json", yolov8Json⟩]

def mp4SaveInfo : LegacyFile := ⟨"mp4_save_info.json", mp4SaveJson⟩

/-- The files read, of which the last is read only where it is a regular file. -/
def legacyFiles (files : Files) (directory : String) : List LegacyFile :=
  if files.fileIsRegular (pathJoin directory mp4SaveInfo.name) then
    requiredFiles ++ [mp4SaveInfo]
  else requiredFiles

/-- Read the files one after the other; the first that fails ends it. -/
def readLegacy (files : Files) (directory : String) :
    List LegacyFile → RuntimeConfig → Loader RuntimeConfig
  | [], config => .ok config
  | file :: rest, config => do
    let root ← readJson files (pathJoin directory file.name)
    let config ← file.apply root config
    readLegacy files directory rest config

def loadLegacyFiles (files : Files) (directory : String) (config : RuntimeConfig) :
    Loader RuntimeConfig := do
  let config ← readLegacy files directory (legacyFiles files directory) config
  validateConfig config

def loadRuntimeConfig (files : Files) (directory : String) (config : RuntimeConfig) :
    Loader RuntimeConfig :=
  let unified := pathJoin directory "ipc_mini.json"
  if files.fileIsRegular unified then loadIpcMiniJson files unified config
  else loadLegacyFiles files directory config

end Config

end IpcMini
