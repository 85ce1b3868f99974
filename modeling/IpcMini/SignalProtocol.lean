/-
The messages of the signaling clients (`cloud/signaling/protocol.js`).

`parseClientMessage` reads a text message and validates it; a signal that it
returns is relayed with the ids of its sender and of its recipient.

* `validateSignalMessage`, `parseClientMessage` — what is accepted;
* `clientMessage` — an accepted message, as the server handles it;
* **`valid_clientMessage`** — its ids are valid;
* `relayText` — the text in which a signal is relayed.
-/
import IpcMini.Json
import IpcMini.SignalingServer

namespace IpcMini

open Json

namespace Signaling

/-! ### Validation -/

/-- `validIdentifier` of a property. -/
def isIdentifier (value : Option Value) (maximumLength : ℕ) : Bool :=
  match value with
  | some (.string s) => validIdentifier (text s) maximumLength
  | _ => false

/-- `validSignalString`. -/
def validSignalString (value : Option Value) (maximumLength : ℕ) : Bool :=
  match value with
  | some (.string s) => decide (0 < s.length) && decide (s.length ≤ maximumLength)
  | _ => false

/-- `value === expected`. -/
def isString (value : Option Value) (expected : String) : Bool :=
  match value with
  | some (.string s) => decide (s = units expected)
  | _ => false

def isUndefined (value : Option Value) : Bool := value.isNone

def isNull (value : Option Value) : Bool :=
  match value with
  | some .null => true
  | _ => false

/-- `Number.isInteger(value) && value >= 0 && value <= 64`. -/
def isLineIndex (value : Option Value) : Bool :=
  match value with
  | some (.number n) => n.integer.any fun i => decide (0 ≤ i ∧ i ≤ 64)
  | _ => false

/-- `validateSignalMessage` of an object with that type: its error, or `none`
for `null`. -/
def validateTyped (msg : Object) (type : Units) : Option Units :=
  let property (key : String) : Option Value := msg.field (units key)
  if type = units "join" then
    if !isIdentifier (property "room") 128 ||
        (!isString (property "role") "master" && !isString (property "role") "viewer") ||
        (!isUndefined (property "clientId") && !isIdentifier (property "clientId") 128) then
      some (units "invalid join")
    else none
  else if type = units "offer" ∨ type = units "answer" then
    if !validSignalString (property "sdp") (256 * 1024) ||
        (!isUndefined (property "to") && !isIdentifier (property "to") 128) then
      some (units "invalid " ++ type)
    else none
  else if type = units "candidate" then
    if !validSignalString (property "candidate") (16 * 1024) ||
        (!isUndefined (property "sdpMid") && !isNull (property "sdpMid") &&
          !isIdentifier (property "sdpMid") 64) ||
        (!isUndefined (property "sdpMLineIndex") && !isLineIndex (property "sdpMLineIndex")) ||
        (!isUndefined (property "to") && !isIdentifier (property "to") 128) then
      some (units "invalid candidate")
    else none
  else if type = units "leave" ∨ type = units "ping" then none
  else some (units "unknown type " ++ type)

/-- The object and its type, for a message that has both. -/
def typed : Value → Option (Object × Units)
  | .object msg =>
    match Object.field msg (units "type") with
    | some (.string type) => some (msg, type)
    | _ => none
  | _ => none

/-- `validateSignalMessage`. -/
def validateSignalMessage (msg : Value) : Option Units :=
  match typed msg with
  | some (msg, type) => validateTyped msg type
  | none => some (units "invalid message")

/-- A refused message: the error, and the code and reason of the close. -/
structure Refusal where
  error : Units
  close : Option (ℕ × String)
  deriving DecidableEq, Repr

/-- `parseClientMessage`; `parse` is `JSON.parse(String(data))`, which is `none`
when it throws. -/
def parseClientMessage (parse : List UInt8 → Option Value) (data : List UInt8)
    (isBinary : Bool) (maxBytes : ℕ) : Except Refusal Value :=
  if isBinary || decide (maxBytes < data.length) then
    .error ⟨units "message too large or binary", some (1009, "message too large")⟩
  else
    match parse data with
    | none => .error ⟨units "invalid json", none⟩
    | some msg =>
      match validateSignalMessage msg with
      | some error => .error ⟨error, none⟩
      | none => .ok msg

/-! ### Handling -/

/-- An identifier, or the empty string for `undefined`. -/
def identifier (value : Option Value) : String :=
  match value with
  | some (.string s) => text s
  | _ => ""

/-- An accepted message, as `handleClientMessage` takes it apart. -/
def clientMessage (msg : Object) (type : Units) : ClientMessage Object :=
  let property (key : String) : Option Value := msg.field (units key)
  if type = units "ping" then .ping
  else if type = units "join" then
    .join (identifier (property "room"))
      (if isString (property "role") "master" then .master else .viewer)
      (identifier (property "clientId"))
  else if type = units "leave" then .leave
  else .signal (identifier (property "to")) msg

/-- An id that is given is valid, or it is the empty string. -/
theorem valid_of_optional {value : Option Value} {maximumLength : ℕ}
    (h : (!isUndefined value && !isIdentifier value maximumLength) = false) :
    (decide (identifier value = "") || validIdentifier (identifier value) maximumLength) =
      true := by
  cases value with
  | none => rfl
  | some value =>
    have hid : isIdentifier (some value) maximumLength = true := by
      simpa [isUndefined] using h
    rw [Bool.or_eq_true]
    right
    cases value with
    | string s => exact hid
    | _ => simp [isIdentifier] at hid

/-- **What the server handles has valid ids.** -/
theorem valid_clientMessage {msg : Object} {type : Units}
    (h : validateTyped msg type = none) : (clientMessage msg type).valid = true := by
  unfold validateTyped at h
  unfold clientMessage
  by_cases hping : type = units "ping"
  · rw [if_pos hping]
    rfl
  rw [if_neg hping]
  by_cases hjoin : type = units "join"
  · rw [if_pos hjoin] at h ⊢
    split at h
    · cases h
    next hok =>
      have hroom : isIdentifier (msg.field (units "room")) 128 = true := by
        by_contra hn
        simp [hn] at hok
      have hclient : (!isUndefined (msg.field (units "clientId")) &&
          !isIdentifier (msg.field (units "clientId")) 128) = false := by
        by_contra hn
        rw [Bool.not_eq_false] at hn
        simp [hn] at hok
      have hname : validIdentifier (identifier (msg.field (units "room"))) 128 = true := by
        cases hf : msg.field (units "room") with
        | none => simp [hf, isIdentifier] at hroom
        | some value =>
          rw [hf] at hroom
          cases value with
          | string s => exact hroom
          | _ => simp [isIdentifier] at hroom
      simp only [ClientMessage.valid, hname, Bool.true_and]
      exact valid_of_optional hclient
  rw [if_neg hjoin] at h ⊢
  by_cases hleave : type = units "leave"
  · rw [if_pos hleave]
    rfl
  rw [if_neg hleave]
  -- what is left is a signal, whose `to` is checked in both branches
  have hto : (!isUndefined (msg.field (units "to")) &&
      !isIdentifier (msg.field (units "to")) 128) = false := by
    by_contra hn
    rw [Bool.not_eq_false] at hn
    simp [hn, hping, hleave] at h
    split_ifs at h
  exact valid_of_optional hto

/-- The text in which a signal is relayed: `{ ...message, from, to }`. -/
def relayText (sender toId : String) (message : Object) : List UInt8 :=
  bytes (.object ((message.setMember (units "from") (.string (units sender))).setMember
    (units "to") (.string (units toId))))

end Signaling

end IpcMini
