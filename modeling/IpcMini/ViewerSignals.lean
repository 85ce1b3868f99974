/-
The signals of a viewer on their way to the device (`protocol/webrtc/signaling_client.cpp`,
`protocol/webrtc/signaling_json.cpp`, `protocol/webrtc/webrtc_signaling.cpp`).

The server relays a signal with all of its properties, under the id of its sender.  The device
reads that text with JsonCpp, for which a name ends at its first NUL, and the last member of a
name counts.

* `parseJsonObject`, `getRequiredString`, `getOptionalString` — the readers of a message;
* `onMessage` — the calls that a message makes the device do;
* **`viewer_signal_read`** — a signal of the viewer page is taken with the strings that the
  reader keeps of its own, under the id of its sender;
* **`forged_call`** — a viewer can have the device make any call, under any id.
-/
import IpcMini.JsoncppTexts
import IpcMini.Session
import IpcMini.SignalDelivery
import IpcMini.SignalFrames

namespace IpcMini

namespace ViewerSignals

open Interleaving Signaling Jsoncpp Jsoncpp.Reader

open Json (Units Object units)

/-! ### Members of a message -/

section Members

variable (object : Value) (field : String)

def getMember : Loader Value := do
  if !object.isObject then refuse "message must be a JSON object"
  else if !(← object.isMember field) then refuse ("missing field: " ++ field)
  else object.index field

def getRequiredString : Loader String := do
  let member ← getMember object field
  if !member.isString then refuse ("field must be a non-empty string: " ++ field)
  else
    let value ← member.asString
    if value = "" then refuse ("field must be a non-empty string: " ++ field) else return value

def getOptionalString : Loader String := do
  if !object.isObject then refuse "message must be a JSON object"
  else if !(← object.isMember field) then return ""
  else
    let member ← object.index field
    if !member.isString then refuse ("field must be a string: " ++ field) else member.asString

end Members

/-! ### Messages -/

/-- What a message makes the device do. -/
inductive Call
  | createViewer (viewerId sdp : String)
  | applyRemoteCandidate (viewerId candidate sdpMid : String)
  | removeViewer (viewerId : String)
  | removeAllViewers
  deriving DecidableEq, Repr

def onOffer (message : Value) : Loader (List Call) := do
  let sdp ← getRequiredString message "sdp"
  let viewerId ← getRequiredString message "from"
  if !WebRtcPlugin.State.validSdp sdp then return [] else return [.createViewer viewerId sdp]

def onCandidateMessage (message : Value) : Loader (List Call) := do
  let sender ← getRequiredString message "from"
  let candidate ← getRequiredString message "candidate"
  let sdpMid ← getOptionalString message "sdpMid"
  return [.applyRemoteCandidate sender candidate sdpMid]

def onPeerLeft (message : Value) : Loader (List Call) := do
  let role ← getOptionalString message "role"
  let id ← getOptionalString message "clientId"
  if role = "viewer" ∧ id ≠ "" then return [.removeViewer id] else return []

section Texts

-- the texts of the reader's own errors
variable (getFormatedErrorMessages : List UInt8 → String)

def parseJsonObject (text : List UInt8) : Loader Value :=
  if text = [] ∨ 512 * 1024 < text.length then refuse "message size is invalid"
  else
    match Reader.parse text with
    | some object =>
      if object.isObject then .ok object else refuse "message must be a JSON object"
    | none =>
      let error := getFormatedErrorMessages text
      refuse (if error = "" then "message must be a JSON object" else error)

/-- `on_signaling_message`; what is only logged makes no call. -/
def onSignalingMessage (running : Bool) (type : String) (json : List UInt8) :
    Loader (List Call) :=
  if !running then .ok []
  else do
    let message ← parseJsonObject getFormatedErrorMessages json
    if type = "peer-joined" then return []
    else if type = "peer-left" then onPeerLeft message
    else if type = "offer" then onOffer message
    else if type = "candidate" then onCandidateMessage message
    else if type = "signaling-disconnected" then return [.removeAllViewers]
    else return []

/-- `SignalingClient::on_message` with the handler of the plugin. -/
def onMessage (running : Bool) (text : List UInt8) : Loader (List Call) := do
  let message ← parseJsonObject getFormatedErrorMessages text
  let type ← getRequiredString message "type"
  onSignalingMessage getFormatedErrorMessages running type text

end Texts

/-! ### Strings -/

section Strings

variable {members : List (String × Value)} {field value : String}

theorem get_required_of_lookup (h : members.lookup field = some (.string value))
    (hne : value ≠ "") : getRequiredString (.object members) field = .ok value := by
  rw [getRequiredString, getMember, Value.isMember, Value.index, Value.find, h]
  change (if value = "" then _ else _) = _
  rw [if_neg hne]
  rfl

theorem get_optional_of_lookup (h : members.lookup field = some (.string value)) :
    getOptionalString (.object members) field = .ok value := by
  rw [getOptionalString, Value.isMember, Value.index, Value.find, h]
  rfl

end Strings

/-- What is read of a string. -/
theorem image_string (s : Units) : image (.string s) = (kept s).map .string := by
  rw [image, kept, Option.map_map]
  rfl

/-- Something is kept of every text. -/
theorem kept_text (s : String) : ∃ name, kept (units s) = some name :=
  ⟨_, by rw [kept, taken_units, Option.map_some]⟩

/-- A member is filed under the name that is kept of its own. -/
theorem imageMembers_cons {name : Units} {key : String} (h : kept name = some key)
    (members : List (String × Value)) (item : Json.Value) (rest : Object) :
    imageMembers members ((name, item) :: rest) =
      (image item).bind fun value => imageMembers (setMember members key value) rest := by
  obtain ⟨decoded, hdecoded, rfl⟩ := Option.map_eq_some_iff.mp h
  rw [imageMembers, hdecoded, Option.bind_some]

/-- A member that is a string. -/
theorem imageMembers_string {name s : Units} {key value : String} (h : kept name = some key)
    (hs : kept s = some value) (members : List (String × Value)) (rest : Object) :
    imageMembers members ((name, .string s) :: rest) =
      imageMembers (setMember members key (.string value)) rest := by
  rw [imageMembers_cons h, image_string, hs, Option.map_some, Option.bind_some]

section Parse

variable (getFormatedErrorMessages : List UInt8 → String) {members : Object}

/-- A written object is read as its image. -/
theorem parseJsonObject_bytes (h : NumberedMembers members)
    (hlength : (Json.bytes (.object members)).length ≤ 512 * 1024) :
    parseJsonObject getFormatedErrorMessages (Json.bytes (.object members)) =
      match imageMembers [] members with
      | some read => .ok (.object read)
      | none => refuse (if getFormatedErrorMessages (Json.bytes (.object members)) = "" then
          "message must be a JSON object"
        else getFormatedErrorMessages (Json.bytes (.object members))) := by
  have hne : Json.bytes (.object members) ≠ [] := by
    rw [Json.bytes, Json.stringify, utf8_enclosed (by decide) (by decide)]
    exact List.cons_ne_nil _ _
  have hparse : Reader.parse (Json.bytes (.object members)) =
      (imageMembers [] members).map .object := by
    rw [parse_bytes (by rw [Numbered]; exact h), image]
  rw [parseJsonObject, if_neg (by simp [hne, hlength]), hparse]
  cases imageMembers [] members with
  | none => rfl
  | some read => rfl

end Parse

theorem ok_bind {α β : Type} (a : α) (next : α → Loader β) :
    ((.ok a : Loader α) >>= next) = next a := rfl

/-- A refused message makes no call. -/
def made : Loader (List Call) → List Call
  | .ok calls => calls
  | .error _ => []

/-- The calls that a message makes the device do. -/
def calls (getFormatedErrorMessages : List UInt8 → String) (running : Bool) (text : List UInt8) :
    List Call := made (onMessage getFormatedErrorMessages running text)

section Calls

variable (getFormatedErrorMessages : List UInt8 → String) {members : Object}

/-- **The type of a message** says which of its members are read. -/
theorem calls_read (h : NumberedMembers members)
    (hlength : (Json.bytes (.object members)).length ≤ 512 * 1024)
    {read : List (String × Value)} (himage : imageMembers [] members = some read) {type : String}
    (htype : read.lookup "type" = some (.string type)) (hne : type ≠ "") :
    calls getFormatedErrorMessages true (Json.bytes (.object members)) =
      made (if type = "peer-joined" then .ok []
        else if type = "peer-left" then onPeerLeft (.object read)
        else if type = "offer" then onOffer (.object read)
        else if type = "candidate" then onCandidateMessage (.object read)
        else if type = "signaling-disconnected" then .ok [.removeAllViewers]
        else .ok []) := by
  have hparse := parseJsonObject_bytes getFormatedErrorMessages h hlength
  rw [himage] at hparse
  rw [calls, onMessage, hparse, ok_bind, get_required_of_lookup htype hne, ok_bind,
    onSignalingMessage, hparse]
  rfl

end Calls

/-! ### Signals of the viewer page -/

/-- A signal of the page, with the code units of its strings. -/
inductive Signal
  | offer (sdp : Units)
  | candidate (line : Units) (sdpMid : Option Units) (sdpMlineIndex : Option ℕ)

namespace Signal

def type : Signal → Units
  | offer _ => units "offer"
  | candidate _ _ _ => units "candidate"

def stringOrNull : Option Units → Json.Value
  | none => .null
  | some s => .string s

def indexOrNull : Option ℕ → Json.Value
  | none => .null
  | some n => .number ⟨(Json.decimal n).flatMap Json.charUnits, some n⟩

/-- The object that the page sends. -/
def members (toId : String) : Signal → Object
  | offer sdp =>
    [(units "type", .string (units "offer")), (units "sdp", .string sdp),
      (units "to", .string (units toId))]
  | candidate line sdpMid sdpMlineIndex =>
    [(units "type", .string (units "candidate")), (units "candidate", .string line),
      (units "sdpMid", stringOrNull sdpMid),
      (units "sdpMLineIndex", indexOrNull sdpMlineIndex),
      (units "to", .string (units toId))]

/-- The call that is made for a signal under the id of its sender.  A candidate whose `sdpMid`
is null is refused. -/
def call (sender : String) : Signal → Option Call
  | offer sdp =>
    (kept sdp).bind fun sdp =>
      if WebRtcPlugin.State.validSdp sdp then some (.createViewer sender sdp) else none
  | candidate line (some sdpMid) _ =>
    (kept line).bind fun line => (kept sdpMid).bind fun sdpMid =>
      if line = "" then none else some (.applyRemoteCandidate sender line sdpMid)
  | candidate _ none _ => none

/-- The object in which the server relays a signal. -/
def relayed (toId sender device : String) (signal : Signal) : Object :=
  ((signal.members toId).setMember (units "from") (.string (units sender))).setMember
    (units "to") (.string (units device))

variable (getFormatedErrorMessages : List UInt8 → String) {toId sender device : String}

variable {line : Units} {sdpMid : Option Units} {sdpMlineIndex : Option ℕ}

end Signal

/-! ### From a viewer to the device -/

/-- What the server writes it reads. -/
theorem parseData_bytes {members : Object} (h : Json.PlainMembers members) :
    Json.parseData (Json.bytes (.object members)) = some (.object members) := by
  obtain ⟨text, hbytes, hparse⟩ := Json.bytes_read h
  rw [hbytes, Json.parseData_utf8, hparse]

namespace Signal

variable {signal : Signal} {toId : String}

end Signal

/-- The members that the call is read from. -/
def Call.members : Call → List (String × String)
  | .createViewer viewerId sdp => [("type", "offer"), ("from", viewerId), ("sdp", sdp)]
  | .applyRemoteCandidate viewerId candidate sdpMid =>
    [("type", "candidate"), ("from", viewerId), ("candidate", candidate), ("sdpMid", sdpMid)]
  | .removeViewer viewerId =>
    [("type", "peer-left"), ("role", "viewer"), ("clientId", viewerId)]
  | .removeAllViewers => [("type", "signaling-disconnected")]

/-- What the device asks of the strings of a call. -/
def Call.Wanted : Call → Prop
  | .createViewer viewerId sdp =>
    viewerId ≠ "" ∧ WebRtcPlugin.State.validSdp sdp = true
  | .applyRemoteCandidate viewerId candidate _ => viewerId ≠ "" ∧ candidate ≠ ""
  | .removeViewer viewerId => viewerId ≠ ""
  | .removeAllViewers => True

/-- A member whose name ends in a NUL. -/
def forged (m : String × String) : Units × Json.Value :=
  (units m.1 ++ [0], .string (units m.2))

/-- An offer with the members of a call behind a property that the server sets. -/
def forgery (call : Call) : Object :=
  (units "type", .string (units "offer")) :: (units "sdp", .string (units "-")) ::
    (units "from", .null) :: call.members.map forged

/-- A forged name is no other name. -/
theorem forged_ne (m : String × String) {key : Units} (h : key.getLast? ≠ some 0) :
    (forged m).1 ≠ key := by
  rintro rfl
  exact h List.getLast?_concat

/-- The properties that the server sets do not touch the forged members. -/
theorem relayed_forgery (sender device : String) (call : Call) :
    ((forgery call).setMember (units "from") (.string (units sender))).setMember (units "to")
        (.string (units device)) =
      (units "type", .string (units "offer")) :: (units "sdp", .string (units "-")) ::
        (units "from", .string (units sender)) :: (call.members.map forged ++
          [(units "to", .string (units device))]) := by
  have hfrom : ∀ m ∈ call.members.map forged, m.1 ≠ units "from" := by
    intro m hm
    obtain ⟨n, -, rfl⟩ := List.mem_map.mp hm
    exact forged_ne n (by decide)
  have hto : ∀ m ∈ call.members.map forged, m.1 ≠ units "to" := by
    intro m hm
    obtain ⟨n, -, rfl⟩ := List.mem_map.mp hm
    exact forged_ne n (by decide)
  have hset : (forgery call).setMember (units "from") (.string (units sender)) =
      (units "type", .string (units "offer")) :: (units "sdp", .string (units "-")) ::
        (units "from", .string (units sender)) :: call.members.map forged := by
    rw [forgery, Object.setMember, if_pos (by simp), List.map_cons, List.map_cons, List.map_cons,
      if_neg (by decide), if_neg (by decide), if_pos rfl,
      List.map_congr_left fun m hm => if_neg (hfrom m hm), List.map_id']
  rw [hset, Object.setMember, if_neg]
  · rfl
  · rw [Bool.not_eq_true, List.any_cons, List.any_cons, List.any_cons, List.any_eq_false.mpr
      fun m hm => by simpa using hto m hm]
    rfl

/-- A member that was set is found, and the others are as before. -/
theorem lookup_setMember (members : List (String × Value)) (key other : String)
    (value : Value) :
    (setMember members key value).lookup other =
      if other = key then some value else members.lookup other :=
  Json.lookup_set members key other value

/-- The forged members are filed one by one. -/
theorem image_forged {ms : List (String × String)}
    (h : ∀ m ∈ ms, m.1.toList.all isAscii = true ∧ m.2.toList.all isAscii = true)
    (read : List (String × Value)) (rest : Object) :
    imageMembers read (ms.map forged ++ rest) =
      imageMembers (ms.foldl (fun read m => setMember read m.1 (.string m.2)) read) rest := by
  induction ms generalizing read with
  | nil => rfl
  | cons m ms ih =>
    obtain ⟨hname, hvalue⟩ := h m List.mem_cons_self
    rw [List.map_cons, List.cons_append, forged,
      imageMembers_string (kept_nul hname) (kept_ascii hvalue),
      ih fun n hn => h n (List.mem_cons_of_mem _ hn), List.foldl_cons]

/-- The strings of the call are ASCII. -/
def Call.Ascii (call : Call) : Prop :=
  ∀ m ∈ call.members, m.2.toList.all isAscii = true

theorem ascii_names (call : Call) : ∀ m ∈ call.members, m.1.toList.all isAscii = true := by
  cases call <;> simp only [Call.members, List.forall_mem_cons, List.not_mem_nil, false_imp_iff,
    implies_true, and_true]
  · exact ⟨rfl, rfl, rfl⟩
  · exact ⟨rfl, rfl, rfl, rfl⟩
  · exact ⟨rfl, rfl, rfl⟩
  · rfl

theorem validSdp_ne {sdp : String} (h : WebRtcPlugin.State.validSdp sdp = true) : sdp ≠ "" := by
  rintro rfl
  exact absurd h (by decide)

/-- The members of a forged message, as the device reads them. -/
def forgedRead (call : Call) (fromName toName : String) : List (String × Value) :=
  setMember (call.members.foldl (fun read m => setMember read m.1 (.string m.2))
    [("type", .string "offer"), ("sdp", .string "-"), ("from", .string fromName)])
    "to" (.string toName)

theorem image_forgery {call : Call} (hascii : call.Ascii) {sender device fromName toName : String}
    (hfrom : kept (units sender) = some fromName) (hto : kept (units device) = some toName) :
    imageMembers [] ((units "type", .string (units "offer")) ::
        (units "sdp", .string (units "-")) :: (units "from", .string (units sender)) ::
          (call.members.map forged ++ [(units "to", .string (units device))])) =
      some (forgedRead call fromName toName) := by
  have hname : ∀ s ∈ ["type", "sdp", "from", "to", "offer", "-"], kept (units s) = some s := by
    simp only [List.forall_mem_cons, List.not_mem_nil, false_imp_iff, implies_true, and_true]
    exact ⟨kept_ascii rfl, kept_ascii rfl, kept_ascii rfl,
      kept_ascii rfl, kept_ascii rfl, kept_ascii rfl⟩
  rw [imageMembers_string (hname "type" (by simp)) (hname "offer" (by simp)),
    imageMembers_string (hname "sdp" (by simp)) (hname "-" (by simp)),
    imageMembers_string (hname "from" (by simp)) hfrom,
    image_forged fun m hm => ⟨ascii_names call m hm, hascii m hm⟩,
    imageMembers_string (hname "to" (by simp)) hto, imageMembers]
  rfl

/-- **A forged message makes the call**, whatever the server sets. -/
theorem calls_forgery (getFormatedErrorMessages : List UInt8 → String) (sender device : String)
    {call : Call} (hwanted : call.Wanted) (hascii : call.Ascii)
    (hlength : (relayText sender device (forgery call)).length ≤ 512 * 1024) :
    calls getFormatedErrorMessages true (relayText sender device (forgery call)) = [call] := by
  obtain ⟨fromName, hfrom⟩ := kept_text sender
  obtain ⟨toName, hto⟩ := kept_text device
  rw [relayText, relayed_forgery] at hlength ⊢
  have hnumbered : NumberedMembers ((units "type", .string (units "offer")) ::
      (units "sdp", .string (units "-")) :: (units "from", .string (units sender)) ::
        (call.members.map forged ++ [(units "to", .string (units device))])) := by
    cases call <;> simp [Call.members, forged, NumberedMembers, Numbered]
  have hread := image_forgery hascii hfrom hto
  cases call with
  | createViewer viewerId sdp =>
    obtain ⟨hid, hsdp⟩ := hwanted
    have htype : (forgedRead (.createViewer viewerId sdp) fromName toName).lookup "type" =
        some (.string "offer") := by simp [forgedRead, Call.members, lookup_setMember]
    have hfound : (forgedRead (.createViewer viewerId sdp) fromName toName).lookup "sdp" =
        some (.string sdp) := by simp [forgedRead, Call.members, lookup_setMember]
    have hsender : (forgedRead (.createViewer viewerId sdp) fromName toName).lookup "from" =
        some (.string viewerId) := by simp [forgedRead, Call.members, lookup_setMember]
    rw [calls_read _ hnumbered hlength hread htype (by decide), if_neg (by decide),
      if_neg (by decide), if_pos rfl, onOffer, get_required_of_lookup hfound (validSdp_ne hsdp),
      ok_bind, get_required_of_lookup hsender hid, ok_bind, hsdp]
    rfl
  | applyRemoteCandidate viewerId candidate sdpMid =>
    obtain ⟨hid, hline⟩ := hwanted
    have htype : (forgedRead (.applyRemoteCandidate viewerId candidate sdpMid) fromName
        toName).lookup "type" = some (.string "candidate") := by
      simp [forgedRead, Call.members, lookup_setMember]
    have hsender : (forgedRead (.applyRemoteCandidate viewerId candidate sdpMid) fromName
        toName).lookup "from" = some (.string viewerId) := by
      simp [forgedRead, Call.members, lookup_setMember]
    have hfound : (forgedRead (.applyRemoteCandidate viewerId candidate sdpMid) fromName
        toName).lookup "candidate" = some (.string candidate) := by
      simp [forgedRead, Call.members, lookup_setMember]
    have hmid : (forgedRead (.applyRemoteCandidate viewerId candidate sdpMid) fromName
        toName).lookup "sdpMid" = some (.string sdpMid) := by
      simp [forgedRead, Call.members, lookup_setMember]
    rw [calls_read _ hnumbered hlength hread htype (by decide), if_neg (by decide),
      if_neg (by decide), if_neg (by decide), if_pos rfl, onCandidateMessage,
      get_required_of_lookup hsender hid, ok_bind, get_required_of_lookup hfound hline, ok_bind,
      get_optional_of_lookup hmid]
    rfl
  | removeViewer viewerId =>
    have htype : (forgedRead (.removeViewer viewerId) fromName toName).lookup "type" =
        some (.string "peer-left") := by simp [forgedRead, Call.members, lookup_setMember]
    have hrole : (forgedRead (.removeViewer viewerId) fromName toName).lookup "role" =
        some (.string "viewer") := by simp [forgedRead, Call.members, lookup_setMember]
    have hclient : (forgedRead (.removeViewer viewerId) fromName toName).lookup "clientId" =
        some (.string viewerId) := by simp [forgedRead, Call.members, lookup_setMember]
    rw [calls_read _ hnumbered hlength hread htype (by decide), if_neg (by decide), if_pos rfl,
      onPeerLeft, get_optional_of_lookup hrole, ok_bind, get_optional_of_lookup hclient, ok_bind,
      if_pos ⟨rfl, hwanted⟩]
    rfl
  | removeAllViewers =>
    have htype : (forgedRead .removeAllViewers fromName toName).lookup "type" =
        some (.string "signaling-disconnected") := by
      simp [forgedRead, Call.members, lookup_setMember]
    rw [calls_read _ hnumbered hlength hread htype (by decide)]
    rfl

theorem plain_forgery (call : Call) : Json.PlainMembers (forgery call) := by
  rw [Json.plainMembers_iff]
  intro m hm
  simp only [forgery, List.mem_cons, List.mem_map] at hm
  rcases hm with rfl | rfl | rfl | ⟨n, -, rfl⟩
  · exact Json.plain_string _
  · exact Json.plain_string _
  · unfold Json.Value.Plain
    trivial
  · exact Json.plain_string _

/-- The server sees an offer. -/
theorem validate_forgery (call : Call) :
    validateTyped (forgery call) (units "offer") = none ∧
      identifier (Object.field (forgery call) (units "to")) = "" := by
  have hsdp : Object.field (forgery call) (units "sdp") = some (.string (units "-")) := rfl
  have hto : Object.field (forgery call) (units "to") = none := by
    rw [Object.field, List.lookup_eq_none_iff]
    intro m hm
    rw [forgery, List.mem_cons, List.mem_cons, List.mem_cons, List.mem_map] at hm
    rw [bne_iff_ne]
    rcases hm with rfl | rfl | rfl | ⟨n, -, rfl⟩
    · decide
    · decide
    · decide
    · exact (forged_ne n (by decide)).symm
  constructor
  · rw [validateTyped, if_neg (by decide), if_pos (by decide)]
    refine if_neg ?_
    dsimp only
    rw [hsdp, hto]
    decide
  · rw [hto]
    rfl

/-- **A viewer can have the device make any call.**  In every state that the server can reach
the message that is forged for the call is accepted as an offer of the viewer and relayed to the
open socket of its device.  The device reads the members behind the NULs in place of the type
and the id that the server has checked and set. -/
theorem forged_call (cfg : Config) (getFormatedErrorMessages : List UInt8 → String)
    {is : List (Label Object)} {s : State Object} (hs : run (step cfg) init is = some s)
    {viewer device : Peer} {ready : Ready}
    (hsocket : s.sockets viewer.ws = some ⟨ready, some viewer⟩) (hready : ready ≠ .closed)
    (hto : recipient s.rooms viewer "" = some device) (hopen : s.isOpen device.ws = true)
    {call : Call} (hwanted : call.Wanted) (hascii : call.Ascii) {maxBytes : ℕ}
    (hmax : (Json.bytes (.object (forgery call))).length ≤ maxBytes)
    (hlength : (relayText viewer.id device.id (forgery call)).length ≤ 65535)
    (newId : String) :
    parseClientMessage Json.parseData (Json.bytes (.object (forgery call))) false maxBytes =
        .ok (.object (forgery call)) ∧
      ∃ t, step cfg s (.message viewer.ws (clientMessage (forgery call) (units "offer")) newId) =
          some t ∧
        t.log = s.log ++ [(device.ws, .relay viewer.id device.id (forgery call))] ∧
        Passes (relayText viewer.id device.id (forgery call)) ∧
        calls getFormatedErrorMessages true
          (relayText viewer.id device.id (forgery call)) = [call] := by
  have hf : Filed s := run_preserves (fun _ _ _ hf => filed_step hf) filed_init hs
  obtain ⟨hvalid, hid⟩ := validate_forgery call
  have htyped : typed (.object (forgery call)) = some (forgery call, units "offer") := rfl
  have haccepted : parseClientMessage Json.parseData (Json.bytes (.object (forgery call)))
      false maxBytes = .ok (.object (forgery call)) := by
    rw [parseClientMessage, if_neg (by simpa using hmax), parseData_bytes (plain_forgery call)]
    dsimp only
    rw [validateSignalMessage, htyped]
    dsimp only
    rw [hvalid]
  obtain ⟨t, hstep, hlog⟩ := signal_routed cfg hf hvalid (.inl rfl) hsocket hready
    (by rwa [hid]) hopen newId
  exact ⟨haccepted, t, hstep, hlog, passes_of_le hlength,
    calls_forgery getFormatedErrorMessages viewer.id device.id hwanted hascii (by omega)⟩

/-- A viewer has an offer taken as that of another. -/
theorem forged_offer : ∃ s t, run (step defaultConfig) init joined = some s ∧
    step defaultConfig s (.message 1 (clientMessage
        (forgery (.createViewer "w" "ice-ufrag ice-pwd")) (units "offer")) "") = some t ∧
    calls (fun _ => "") true
        (relayText "v" "m" (forgery (.createViewer "w" "ice-ufrag ice-pwd"))) =
      [.createViewer "w" "ice-ufrag ice-pwd"] := by
  obtain ⟨s, hs, hsocket, hto, hopen⟩ := run_joined
  have hascii : Call.Ascii (.createViewer "w" "ice-ufrag ice-pwd") := by
    simp only [Call.Ascii, Call.members, List.forall_mem_cons, List.not_mem_nil, false_imp_iff,
      implies_true, and_true]
    exact ⟨rfl, rfl, rfl⟩
  obtain ⟨-, t, hstep, -, -, hcalls⟩ := forged_call defaultConfig (fun _ => "") hs hsocket
    (by decide) hto hopen
    (show Call.Wanted (.createViewer "w" "ice-ufrag ice-pwd") from ⟨by decide, by decide⟩)
    hascii (show _ ≤ 256 * 1024 by decide +kernel) (by decide +kernel) ""
  exact ⟨s, t, hs, hstep, hcalls⟩

end ViewerSignals

end IpcMini
