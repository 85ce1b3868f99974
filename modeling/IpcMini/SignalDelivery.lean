/-
The signals of the device on their way to the viewer (`protocol/webrtc/signaling_client.cpp`,
`cloud/signaling/protocol.js`, `cloud/signaling/public/viewer.js`).

The device writes an answer or a candidate as JSON text, the server parses and validates
it, and relays what `JSON.stringify` makes of it; the viewer parses that again.

* `DeviceSignal.text`, `message` — the text of a signal, and the object it stands for;
* `Accepted` — the bounds on a signal, and **`signal_accepted_iff`**: the server accepts
  exactly the signals within these;
* `given` — what the viewer gives to its connection;
* **`device_signal_read`** — an accepted signal of the device reaches the viewer's connection
  as it was, under the ids of both.
-/
import IpcMini.JsonRoundTrip
import IpcMini.SignalProtocol
import IpcMini.SignalRouting
import IpcMini.SignalingTexts

namespace IpcMini

open Interleaving Json

open SignalingTexts hiding recipient

namespace Signaling

/-! ### Signals of the device -/

inductive DeviceSignal
  | answer (sdp : String)
  | candidate (line sdpMid : String) (sdpMlineIndex : Int32)

namespace DeviceSignal

def type : DeviceSignal → Units
  | answer _ => units "answer"
  | candidate _ _ _ => units "candidate"

/-- The bytes that the client sends. -/
def text (toId : String) : DeviceSignal → List UInt8
  | answer sdp => sendAnswer (Endpoints.utf8 sdp) (Endpoints.utf8 toId)
  | candidate line sdpMid sdpMlineIndex =>
    sendCandidate (Endpoints.utf8 line) (Endpoints.utf8 sdpMid) sdpMlineIndex
      (Endpoints.utf8 toId)

/-- The members that the client writes. -/
def fields : DeviceSignal → List (String × Value)
  | answer sdp => [stringMember "type" "answer", stringMember "sdp" sdp]
  | candidate line sdpMid sdpMlineIndex =>
    [stringMember "type" "candidate", stringMember "candidate" line,
      stringMember "sdpMid" sdpMid,
      ("sdpMLineIndex", .number ⟨(decimal sdpMlineIndex.toInt).flatMap charUnits,
        some sdpMlineIndex.toInt⟩)]

def members : DeviceSignal → Object
  | answer sdp => [(units "type", .string (units "answer")), (units "sdp", .string (units sdp))]
  | candidate line sdpMid sdpMlineIndex =>
    [(units "type", .string (units "candidate")), (units "candidate", .string (units line)),
      (units "sdpMid", .string (units sdpMid)),
      (units "sdpMLineIndex", .number ⟨(decimal sdpMlineIndex.toInt).flatMap charUnits,
        some sdpMlineIndex.toInt⟩)]

/-- The recipient is left out if it is empty. -/
def toMember (toId : String) : Object :=
  if toId = "" then [] else [(units "to", .string (units toId))]

/-- The object that the text stands for. -/
def message (toId : String) (signal : DeviceSignal) : Object := signal.members ++ toMember toId

theorem map_fields (toId : String) (signal : DeviceSignal) :
    ((signal.fields ++ optionalMember "to" toId).map fun m => (units m.1, m.2)) =
      signal.message toId := by
  have hto : ((optionalMember "to" toId).map fun m => (units m.1, m.2)) = toMember toId := by
    rw [optionalMember, toMember]
    split <;> rfl
  rw [List.map_append, hto, message]
  cases signal <;> rfl

/-- The bounds on the strings of a signal. -/
def Bounded : DeviceSignal → Prop
  | answer sdp => 0 < (units sdp).length ∧ (units sdp).length ≤ 256 * 1024
  | candidate line sdpMid sdpMlineIndex =>
    (0 < (units line).length ∧ (units line).length ≤ 16 * 1024) ∧
      validIdentifier sdpMid 64 = true ∧ 0 ≤ sdpMlineIndex.toInt ∧ sdpMlineIndex.toInt ≤ 64

/-- What the server asks of a signal. -/
structure Accepted (maxBytes : ℕ) (toId : String) (signal : DeviceSignal) : Prop where
  length : (signal.text toId).length ≤ maxBytes
  bounded : signal.Bounded
  toId : toId = "" ∨ validIdentifier toId 128 = true

end DeviceSignal

/-- The text of a signal stands for its object. -/
theorem parseData_text (toId : String) (signal : DeviceSignal) :
    parseData (signal.text toId) = some (.object (signal.message toId)) := by
  obtain ⟨text, htext, hparse⟩ :
      ReadsAs (signal.text toId) (signal.fields ++ optionalMember "to" toId) := by
    cases signal with
    | answer sdp =>
      rw [DeviceSignal.text, sendAnswer_text, ← map_optional]
      refine readsAs_members (fun m hm => ?_) (by simp)
      simp only [List.mem_cons] at hm
      rcases hm with rfl | rfl | hm
      · exact reads_written _ _
      · exact reads_written _ _
      · exact reads_optional hm
    | candidate line sdpMid sdpMlineIndex =>
      rw [DeviceSignal.text, sendCandidate_text, ← map_optional]
      refine readsAs_members (fun m hm => ?_) (by simp)
      simp only [List.mem_cons] at hm
      rcases hm with rfl | rfl | rfl | rfl | hm
      · exact reads_written _ _
      · exact reads_written _ _
      · exact reads_written _ _
      · exact reads_decimal _
      · exact reads_optional hm
  rw [htext, parseData_utf8, hparse, signal.map_fields]

/-! ### Validation -/

theorem text_units {s : String} (h : ∀ c ∈ s.toList, c.toNat < 0x10000) : text (units s) = s := by
  rw [text, units_eq, map_units h, String.ofList_toList]

/-- The characters of an identifier. -/
def idChar (c : Char) : Bool := c.isAlphanum || ['.', '_', ':', '-'].contains c

theorem idChar_lt {c : Char} (h : idChar c = true) : c.toNat < 0x10000 := by
  rw [idChar, Bool.or_eq_true] at h
  rcases h with h | h
  · change (decide ('A'.val ≤ c.val ∧ c.val ≤ 'Z'.val) ||
      (decide ('a'.val ≤ c.val) && decide (c.val ≤ 'z'.val)) ||
      (decide ('0'.val ≤ c.val) && decide (c.val ≤ '9'.val))) = true at h
    simp only [Bool.or_eq_true, Bool.and_eq_true, decide_eq_true_eq, UInt32.le_iff_toNat_le] at h
    have hval : c.val.toNat = c.toNat := rfl
    have hends : 'Z'.val.toNat = 90 ∧ 'z'.val.toNat = 122 ∧ '9'.val.toNat = 57 := by decide
    omega
  · simp only [List.contains_eq_mem, List.mem_cons, List.not_mem_nil, or_false,
      decide_eq_true_eq] at h
    rcases h with rfl | rfl | rfl | rfl <;> decide

theorem validIdentifier_eq (s : String) (maximumLength : ℕ) :
    validIdentifier s maximumLength =
      (!s.toList.isEmpty && decide (s.toList.length ≤ maximumLength) && s.toList.all idChar) :=
  rfl

/-- A string is an identifier if its text is. -/
theorem isIdentifier_units (s : String) (maximumLength : ℕ) :
    isIdentifier (some (.string (units s))) maximumLength =
      validIdentifier s maximumLength := by
  by_cases hlow : ∀ c ∈ s.toList, c.toNat < 0x10000
  · exact congrArg (validIdentifier · maximumLength) (text_units hlow)
  · -- a character of two code units is in no identifier
    push Not at hlow
    obtain ⟨c, hc, hhigh⟩ := hlow
    have hfalse : validIdentifier s maximumLength = false := by
      rw [validIdentifier_eq, Bool.and_eq_false_iff]
      refine .inr (List.all_eq_false.mpr ⟨c, hc, fun hid => ?_⟩)
      exact absurd (idChar_lt hid) (by omega)
    have hlead : Char.ofNat (0xD800 + (c.toNat - 0x10000) / 0x400) ∈ (text (units s)).toList := by
      have hvalid : c.toNat < 0xD800 ∨ 0xDFFF < c.toNat ∧ c.toNat < 0x110000 := c.valid
      have hsize : UInt16.size = 65536 := rfl
      have hnat : (UInt16.ofNat (0xD800 + (c.toNat - 0x10000) / 0x400)).toNat =
          0xD800 + (c.toNat - 0x10000) / 0x400 := UInt16.toNat_ofNat_of_lt (by omega)
      rw [text, String.toList_ofList, List.mem_map]
      refine ⟨.ofNat (0xD800 + (c.toNat - 0x10000) / 0x400), ?_, by rw [hnat]⟩
      rw [units_eq, List.mem_flatMap]
      refine ⟨c, hc, ?_⟩
      rw [charUnits, if_neg (by omega)]
      exact List.mem_cons_self
    have hnot : idChar (Char.ofNat (0xD800 + (c.toNat - 0x10000) / 0x400)) = false := by
      have hvalid : c.toNat < 0xD800 ∨ 0xDFFF < c.toNat ∧ c.toNat < 0x110000 := c.valid
      have hzero : Char.ofNat (0xD800 + (c.toNat - 0x10000) / 0x400) = Char.ofNat 0 := by
        rw [Char.ofNat, dif_neg]
        · rfl
        · unfold Nat.isValidChar
          omega
      rw [hzero]
      decide
    have hother : validIdentifier (text (units s)) maximumLength = false := by
      rw [validIdentifier_eq, Bool.and_eq_false_iff]
      exact .inr (List.all_eq_false.mpr ⟨_, hlead, by rw [hnot]; decide⟩)
    exact hother.trans hfalse.symm

namespace DeviceSignal

variable (signal : DeviceSignal) (toId : String)

theorem typed_message :
    typed (.object (signal.message toId)) = some (signal.message toId, signal.type) := by
  cases signal <;> rfl

/-- The properties of an answer. -/
theorem answer_fields (sdp toId : String) :
    Object.field ((answer sdp).message toId) (units "type") =
        some (.string (units "answer")) ∧
      Object.field ((answer sdp).message toId) (units "sdp") = some (.string (units sdp)) :=
  ⟨rfl, rfl⟩

/-- The properties of a candidate. -/
theorem candidate_fields (line sdpMid : String) (sdpMlineIndex : Int32) (toId : String) :
    Object.field ((candidate line sdpMid sdpMlineIndex).message toId) (units "type") =
        some (.string (units "candidate")) ∧
      Object.field ((candidate line sdpMid sdpMlineIndex).message toId) (units "candidate") =
        some (.string (units line)) ∧
      Object.field ((candidate line sdpMid sdpMlineIndex).message toId) (units "sdpMid") =
        some (.string (units sdpMid)) ∧
      Object.field ((candidate line sdpMid sdpMlineIndex).message toId)
          (units "sdpMLineIndex") =
        some (.number ⟨(decimal sdpMlineIndex.toInt).flatMap charUnits,
          some sdpMlineIndex.toInt⟩) :=
  ⟨rfl, rfl, rfl, rfl⟩

theorem field_to :
    Object.field (signal.message toId) (units "to") =
      if toId = "" then none else some (.string (units toId)) := by
  rw [message, toMember]
  split
  · cases signal <;> rfl
  · cases signal <;> rfl

/-- The recipient is left out or valid. -/
theorem to_valid :
    (!isUndefined (Object.field (signal.message toId) (units "to")) &&
        !isIdentifier (Object.field (signal.message toId) (units "to")) 128) = false ↔
      toId = "" ∨ validIdentifier toId 128 = true := by
  rw [field_to]
  by_cases hto : toId = ""
  · simp [hto, isUndefined]
  · rw [if_neg hto, isIdentifier_units]
    simp [hto, isUndefined]

/-- **What the server accepts of the device's signals.** -/
theorem validate_message :
    validateSignalMessage (.object (signal.message toId)) = none ↔
      signal.Bounded ∧ (toId = "" ∨ validIdentifier toId 128 = true) := by
  rw [validateSignalMessage, typed_message, ← to_valid signal]
  dsimp only
  cases signal with
  | answer sdp =>
    obtain ⟨-, hsdp⟩ := answer_fields sdp toId
    have htype : (answer sdp).type = units "answer" := rfl
    rw [htype, validateTyped, if_neg (by decide), if_pos (by decide)]
    simp only [hsdp, validSignalString, ite_eq_right_iff, reduceCtorEq, imp_false,
      Bool.or_eq_true, not_or, Bool.not_eq_true, Bool.not_eq_false', Bool.and_eq_true,
      decide_eq_true_eq, Bounded]
    rw [← Bool.not_eq_true, Bool.and_eq_true]
  | candidate line sdpMid sdpMlineIndex =>
    obtain ⟨-, hline, hmid, hindex⟩ := candidate_fields line sdpMid sdpMlineIndex toId
    have htype : (candidate line sdpMid sdpMlineIndex).type = units "candidate" := rfl
    rw [htype, validateTyped, if_neg (by decide), if_neg (by decide), if_pos (by decide)]
    simp only [hline, hmid, hindex, isIdentifier_units, validSignalString, isUndefined,
      isNull, isLineIndex, Option.any_some, Option.isNone_some, Bool.not_false, Bool.true_and,
      ite_eq_right_iff, reduceCtorEq, imp_false, Bool.or_eq_true, not_or,
      Bool.not_eq_true, Bool.not_eq_false', Bool.and_eq_true, decide_eq_true_eq, Bounded,
      and_assoc]
    rw [← Bool.not_eq_true, Bool.and_eq_true]

end DeviceSignal

/-- **The server accepts exactly the signals within the bounds**, whatever is in their
strings. -/
theorem signal_accepted_iff (signal : DeviceSignal) (toId : String) (maxBytes : ℕ) :
    parseClientMessage parseData (signal.text toId) false maxBytes =
        .ok (.object (signal.message toId)) ↔
      signal.Accepted maxBytes toId := by
  rw [parseClientMessage, parseData_text, Bool.false_or]
  constructor
  · intro h
    split at h
    · cases h
    next hlength =>
      have hvalid : validateSignalMessage (.object (signal.message toId)) = none := by
        dsimp only at h
        split at h
        · cases h
        · assumption
      obtain ⟨hbounded, hto⟩ := (signal.validate_message toId).mp hvalid
      exact ⟨by simpa using hlength, hbounded, hto⟩
  · rintro ⟨hlength, hbounded, hto⟩
    rw [if_neg (by simpa using hlength)]
    dsimp only
    rw [(signal.validate_message toId).mpr ⟨hbounded, hto⟩]

/-! ### The viewer -/

/-- What the viewer's connection is given. -/
inductive Given
  | description (sdp : Units)
  | candidate (line sdpMid : Units) (sdpMlineIndex : ℤ)
  deriving DecidableEq

/-- `message.sdpMid || '0'`, of a string or nothing. -/
def midOrZero : Option Value → Option Units
  | none | some .null => some (units "0")
  | some (.string s) => some (if s = [] then units "0" else s)
  | _ => none

/-- `message.sdpMLineIndex ?? 0`, of an integer or nothing. -/
def indexOrZero : Option Value → Option ℤ
  | none | some .null => some 0
  | some (.number n) => n.integer
  | _ => none

/-- What `ws.onmessage` makes of a signal while there is a connection. -/
def given (message : Object) : Option Given :=
  if isString (message.field (units "type")) "answer" then
    match message.field (units "sdp") with
    | some (.string sdp) => some (.description sdp)
    | _ => none
  else if isString (message.field (units "type")) "candidate" then
    match message.field (units "candidate") with
    | some (.string line) =>
      if line = [] then none
      else (midOrZero (message.field (units "sdpMid"))).bind fun sdpMid =>
        (indexOrZero (message.field (units "sdpMLineIndex"))).map fun sdpMlineIndex =>
          .candidate line sdpMid sdpMlineIndex
    | _ => none
  else none

namespace DeviceSignal

def given : DeviceSignal → Given
  | answer sdp => .description (units sdp)
  | candidate line sdpMid sdpMlineIndex =>
    .candidate (units line) (units sdpMid) sdpMlineIndex.toInt

/-- The object in which the server relays a signal. -/
def relayedMessage (signal : DeviceSignal) (toId sender viewer : String) : Object :=
  ((signal.message toId).setMember (units "from") (.string (units sender))).setMember
    (units "to") (.string (units viewer))

variable {signal : DeviceSignal} {toId : String} (sender viewer : String)

theorem plain_message : PlainMembers (signal.message toId) := by
  rw [plainMembers_iff]
  intro m hm
  rw [message, List.mem_append] at hm
  rcases hm with hm | hm
  · cases signal with
    | answer sdp =>
      simp only [members, List.mem_cons, List.not_mem_nil, or_false] at hm
      rcases hm with rfl | rfl
      · exact plain_string _
      · exact plain_string _
    | candidate line sdpMid sdpMlineIndex =>
      simp only [members, List.mem_cons, List.not_mem_nil, or_false] at hm
      rcases hm with rfl | rfl | rfl | rfl
      · exact plain_string _
      · exact plain_string _
      · exact plain_string _
      · exact plain_decimal _
  · rw [toMember] at hm
    split at hm
    · cases hm
    · obtain rfl := List.mem_singleton.mp hm
      exact plain_string _

/-- The relayed text is read as the object that was relayed. -/
theorem parse_relayText :
    parseData (relayText sender viewer (signal.message toId)) =
      some (.object (signal.relayedMessage toId sender viewer)) := by
  have hplain : PlainMembers (signal.relayedMessage toId sender viewer) :=
    Object.plain_setMember (Object.plain_setMember plain_message _ (plain_string _)) _
      (plain_string _)
  obtain ⟨text, hbytes, hparse⟩ := bytes_read hplain
  rw [relayedMessage] at hbytes hparse
  rw [relayText, hbytes, parseData_utf8, hparse, relayedMessage]

/-- The other properties stay. -/
theorem field_relayed {key : Units} (hfrom : key ≠ units "from") (hto : key ≠ units "to") :
    Object.field (signal.relayedMessage toId sender viewer) key =
      Object.field (signal.message toId) key := by
  rw [relayedMessage, Object.field_setMember, if_neg hto, Object.field_setMember, if_neg hfrom]

theorem units_ne_nil {s : String} {n : ℕ} (h : validIdentifier s n = true) : units s ≠ [] := by
  intro hnil
  have hempty : Json.text (units s) = "" := by rw [hnil]; rfl
  have hvalid : validIdentifier (Json.text (units s)) n = true :=
    (isIdentifier_units s n).trans h
  rw [hempty] at hvalid
  exact absurd hvalid (by simp [validIdentifier])

/-- **A relayed signal is given to the connection as it was.** -/
theorem given_relayed (hbounded : signal.Bounded) :
    Signaling.given (signal.relayedMessage toId sender viewer) = some signal.given := by
  have hfield : ∀ key : String, units key ≠ units "from" → units key ≠ units "to" →
      Object.field (signal.relayedMessage toId sender viewer) (units key) =
        Object.field (signal.message toId) (units key) :=
    fun _ hfrom hto => field_relayed sender viewer hfrom hto
  rw [Signaling.given, hfield "type" (by decide) (by decide), hfield "sdp" (by decide) (by decide),
    hfield "candidate" (by decide) (by decide), hfield "sdpMid" (by decide) (by decide),
    hfield "sdpMLineIndex" (by decide) (by decide)]
  cases signal with
  | answer sdp => rfl
  | candidate line sdpMid sdpMlineIndex =>
    obtain ⟨⟨hline, -⟩, hmid, -⟩ := hbounded
    have hline' : units line ≠ [] := List.ne_nil_of_length_pos hline
    obtain ⟨htype, hfound, hfound', hindex⟩ :=
      candidate_fields line sdpMid sdpMlineIndex toId
    have hanswer : isString (some (.string (units "candidate"))) "answer" = false := by decide
    rw [htype, hanswer, if_neg (by decide), hfound, hfound', hindex, midOrZero,
      if_neg (units_ne_nil hmid)]
    exact if_neg hline'

/-- An id that is left out or valid is found. -/
theorem identifier_to (hto : toId = "" ∨ validIdentifier toId 128 = true) :
    identifier (Object.field (signal.message toId) (units "to")) = toId := by
  rw [field_to]
  split
  next h => exact h.symm
  next h =>
    have hvalid := hto.resolve_left h
    refine text_units fun c hc => idChar_lt ?_
    rw [validIdentifier_eq, Bool.and_eq_true] at hvalid
    exact List.all_eq_true.mp hvalid.2 c hc

theorem clientMessage_eq (hto : toId = "" ∨ validIdentifier toId 128 = true) :
    clientMessage (signal.message toId) signal.type =
      .signal toId (signal.message toId) := by
  have hid : identifier (Object.field (signal.message toId) (units "to")) = toId :=
    identifier_to hto
  cases signal with
  | answer sdp =>
    have htype : (answer sdp).type = units "answer" := rfl
    rw [htype, clientMessage, if_neg (by decide), if_neg (by decide), if_neg (by decide)]
    exact congrArg (ClientMessage.signal · _) hid
  | candidate line sdpMid sdpMlineIndex =>
    have htype : (candidate line sdpMid sdpMlineIndex).type = units "candidate" := rfl
    rw [htype, clientMessage, if_neg (by decide), if_neg (by decide), if_neg (by decide)]
    exact congrArg (ClientMessage.signal · _) hid

end DeviceSignal

/-! ### From the device to the viewer -/

variable {signal : DeviceSignal} {toId : String} {maxBytes : ℕ}

/-- **The device's signals reach the viewer as they were.**  In every state that the server
can reach, a signal of the device that it accepts is relayed to the open socket of the peer it
is for.  That peer reads the text in which it is relayed, and gives its connection the
strings of the signal, under the ids of both. -/
theorem device_signal_read (cfg : Config) {is : List (Label Object)} {s : State Object}
    (hs : run (step cfg) init is = some s) {value : Value}
    (haccepted : parseClientMessage parseData (signal.text toId) false maxBytes = .ok value)
    {device viewer : Peer} {ready : Ready}
    (hsocket : s.sockets device.ws = some ⟨ready, some device⟩) (hready : ready ≠ .closed)
    (hto : recipient s.rooms device toId = some viewer) (hopen : s.isOpen viewer.ws = true)
    (newId : String) :
    ∃ t, value = .object (signal.message toId) ∧
      step cfg s (.message device.ws (clientMessage (signal.message toId) signal.type) newId) =
        some t ∧
      t.log = s.log ++ [(viewer.ws, .relay device.id viewer.id (signal.message toId))] ∧
      ∃ message, parseData (relayText device.id viewer.id (signal.message toId)) =
          some (.object message) ∧
        given message = some signal.given ∧
        Object.field message (units "from") = some (.string (units device.id)) ∧
        Object.field message (units "to") = some (.string (units viewer.id)) := by
  have hf : Filed s := run_preserves (fun _ _ _ hf => filed_step hf) filed_init hs
  have hvalue : value = .object (signal.message toId) := by
    have hparsed := haccepted
    rw [parseClientMessage, parseData_text] at hparsed
    split at hparsed
    · cases hparsed
    · dsimp only at hparsed
      split at hparsed
      · cases hparsed
      · exact (Except.ok.inj hparsed).symm
  obtain ⟨-, hbounded, hid⟩ := (signal_accepted_iff signal toId maxBytes).mp (hvalue ▸ haccepted)
  have hmessage : clientMessage (signal.message toId) signal.type =
      .signal toId (signal.message toId) := DeviceSignal.clientMessage_eq hid
  have hvalid : (ClientMessage.signal toId (signal.message toId)).valid = true := by
    rcases hid with rfl | hid
    · rfl
    · simp [ClientMessage.valid, hid]
  refine ⟨handled cfg s device.ws (some device) newId (.signal toId (signal.message toId)),
    hvalue, ?_, ?_, signal.relayedMessage toId device.id viewer.id,
    DeviceSignal.parse_relayText _ _, DeviceSignal.given_relayed _ _ hbounded, ?_, ?_⟩
  · rw [hmessage]
    simp only [step, hsocket]
    exact if_pos ⟨hready, hvalid, trivial⟩
  · rcases signal_log hf cfg device.ws device newId toId (signal.message toId) with
      ⟨target, htarget, hlog⟩ | ⟨hnone, -⟩
    · obtain rfl := Option.some.inj (htarget.symm.trans hto)
      rwa [if_pos hopen] at hlog
    · exact absurd (hnone.symm.trans hto) (by simp)
  · rw [DeviceSignal.relayedMessage, Object.field_setMember, if_neg (by decide),
      Object.field_setMember, if_pos rfl]
  · rw [DeviceSignal.relayedMessage, Object.field_setMember, if_pos rfl]

/-- The run in which a device and a viewer have joined. -/
def bothJoined : List (Label Object) :=
  [.connect 0, .message 0 (.join "r" .master "m") "", .connect 1,
    .message 1 (.join "r" .viewer "v") ""]

/-- The device's answer reaches the viewer that has joined its room. -/
theorem device_answer_read : ∃ s, run (step defaultConfig) init bothJoined = some s ∧
    ∃ t, step defaultConfig s (.message 0
          (.signal "v" ((DeviceSignal.answer "v=0").message "v")) "") = some t ∧
      t.log = s.log ++ [(1, .relay "m" "v" ((DeviceSignal.answer "v=0").message "v"))] ∧
      ∃ message, parseData (relayText "m" "v" ((DeviceSignal.answer "v=0").message "v")) =
          some (.object message) ∧
        given message = some (.description (units "v=0")) := by
  obtain ⟨s, hs⟩ : ∃ s, run (step defaultConfig) init bothJoined = some s :=
    Option.isSome_iff_exists.mp (by decide +kernel)
  have hsocket : (run (step defaultConfig) init bothJoined).map (·.sockets 0) =
      some (some ⟨.open, some ⟨"m", .master, "r", 0, 0⟩⟩) := by decide +kernel
  have hto : (run (step defaultConfig) init bothJoined).map
      (fun s => recipient s.rooms ⟨"m", .master, "r", 0, 0⟩ "v") =
        some (some ⟨"v", .viewer, "r", 1, 1⟩) := by decide +kernel
  have hopen : (run (step defaultConfig) init bothJoined).map (·.isOpen 1) = some true := by
    decide +kernel
  rw [hs, Option.map_some] at hsocket hto hopen
  have haccepted : parseClientMessage parseData ((DeviceSignal.answer "v=0").text "v") false
      (256 * 1024) = .ok (.object ((DeviceSignal.answer "v=0").message "v")) :=
    (signal_accepted_iff _ _ _).mpr ⟨by decide +kernel, ⟨by decide, by decide⟩, .inr (by decide)⟩
  obtain ⟨t, -, hstep, hlog, message, hread, hgiven, -⟩ := device_signal_read defaultConfig hs
    haccepted (Option.some.inj hsocket) (by decide) (Option.some.inj hto) (Option.some.inj hopen) ""
  exact ⟨s, hs, t, hstep, hlog, message, hread, hgiven⟩

end Signaling

end IpcMini
