/-
The messages that the signaling client sends (`protocol/webrtc/signaling_json.cpp`,
`protocol/webrtc/signaling_client.cpp`).

The client writes JSON by hand: it puts escaped strings between pieces of text.

* `jsonEscapeString` — the bytes of a string between quotation marks;
* `sendJoin`, `sendAnswer`, `sendCandidate` — the bytes of the messages;
* `stands_escape` — what stands for a character is read as that character;
* **`messages_read`** — each message is the text of an object that has exactly
  the members it is meant to have, with the given strings.
-/
import IpcMini.JsonReader
import IpcMini.SignalingUrls

namespace IpcMini

open Endpoints

open Json hiding utf8

namespace SignalingTexts

/-! ### The messages -/

/-- `"0123456789abcdef"`. -/
def hex (n : UInt8) : UInt8 := if n < 10 then 48 + n else 87 + n

def appendHexEscape (value : UInt8) : List UInt8 :=
  [92, 117, 48, 48, hex (value >>> 4), hex (value &&& 0x0f)]

/-- One turn of the loop in `json_escape_string`. -/
def jsonEscapeByte (character : UInt8) : List UInt8 :=
  if character = 92 then [92, 92]
  else if character = 34 then [92, 34]
  else if character = 8 then [92, 98]
  else if character = 12 then [92, 102]
  else if character = 10 then [92, 110]
  else if character = 13 then [92, 114]
  else if character = 9 then [92, 116]
  else if character < 0x20 then appendHexEscape character
  else [character]

def jsonEscapeString (value : List UInt8) : List UInt8 := value.flatMap jsonEscapeByte

def sendJoin (room role clientId : List UInt8) : List UInt8 :=
  utf8 "\x7b\"type\":\"join\",\"room\":\"" ++ jsonEscapeString room ++
    utf8 "\",\"role\":\"" ++ jsonEscapeString role ++ utf8 "\"" ++
    (if clientId ≠ [] then
      utf8 ",\"clientId\":\"" ++ jsonEscapeString clientId ++ utf8 "\""
    else []) ++
    utf8 "\x7d"

/-- The recipient, which is left out if it is empty. -/
def recipient (toId : List UInt8) : List UInt8 :=
  if toId ≠ [] then utf8 ",\"to\":\"" ++ jsonEscapeString toId ++ utf8 "\"" else []

def sendAnswer (sdp toId : List UInt8) : List UInt8 :=
  utf8 "\x7b\"type\":\"answer\",\"sdp\":\"" ++ jsonEscapeString sdp ++ utf8 "\"" ++
    recipient toId ++ utf8 "\x7d"

def sendCandidate (candidate sdpMid : List UInt8) (sdpMlineIndex : Int32)
    (toId : List UInt8) : List UInt8 :=
  utf8 "\x7b\"type\":\"candidate\",\"candidate\":\"" ++ jsonEscapeString candidate ++
    utf8 "\",\"sdpMid\":\"" ++ jsonEscapeString sdpMid ++
    utf8 "\",\"sdpMLineIndex\":" ++
    (decimal sdpMlineIndex.toInt).flatMap String.utf8EncodeChar ++
    recipient toId ++ utf8 "\x7d"

/-! ### Characters -/

/-- What the client writes for a character. -/
def escaped (c : Char) : List Char :=
  if c.toNat < 128 then (jsonEscapeByte (.ofNat c.toNat)).map fun b => Char.ofNat b.toNat
  else [c]

/-- The bytes of a character that is not in ASCII are written as they are. -/
theorem json_escape_high {b : UInt8} (h : 128 ≤ b.toNat) : jsonEscapeByte b = [b] := by
  have hall : ∀ n < 256, 128 ≤ n → jsonEscapeByte (.ofNat n) = [.ofNat n] := by
    decide +kernel
  have hb := hall b.toNat b.toNat_lt h
  rwa [UInt8.ofNat_toNat] at hb

/-- The client works on bytes, and with that on characters. -/
theorem json_escape_utf8 (c : Char) :
    (String.utf8EncodeChar c).flatMap jsonEscapeByte =
      (escaped c).flatMap String.utf8EncodeChar := by
  by_cases hc : c.toNat < 128
  · have hall : ∀ n < 128, (String.utf8EncodeChar (Char.ofNat n)).flatMap jsonEscapeByte =
        (escaped (Char.ofNat n)).flatMap String.utf8EncodeChar := by decide +kernel
    have h := hall c.toNat hc
    rwa [Char.ofNat_toNat] at h
  · have hsame : (String.utf8EncodeChar c).flatMap jsonEscapeByte =
        (String.utf8EncodeChar c).flatMap fun b => [b] :=
      List.flatMap_congr fun b hb => json_escape_high (high_of_mem_utf8 (by omega) hb)
    rw [hsame, escaped, if_neg hc]
    simp

theorem json_escape_text (s : String) :
    jsonEscapeString (utf8 s) = (s.toList.flatMap escaped).flatMap String.utf8EncodeChar := by
  rw [jsonEscapeString, utf8, List.flatMap_assoc, List.flatMap_assoc]
  exact List.flatMap_congr fun c _ => json_escape_utf8 c

/-- **What is written for a character stands for it.** -/
theorem stands_escape (c : Char) : Stands (escaped c) c := by
  by_cases hc : c.toNat < 128
  · have hall : ∀ n < 128, standsFor (escaped (Char.ofNat n)) (Char.ofNat n) = true := by
      decide +kernel
    have h := hall c.toNat hc
    rw [Char.ofNat_toNat] at h
    exact stands_of_standsFor h
  · rw [escaped, if_neg hc]
    refine stands_self ?_ ?_ (by omega)
    · rintro rfl
      exact hc (by decide)
    · rintro rfl
      exact hc (by decide)

/-! ### What is read -/

/-- The bytes are JSON text for an object with these members, in this order. -/
def ReadsAs (message : List UInt8) (members : List (String × Value)) : Prop :=
  ∃ text : List Char, message = text.flatMap String.utf8EncodeChar ∧
    parse text = some (.object (members.map fun m => (units m.1, m.2)))

/-- A member with this string. -/
def stringMember (key value : String) : String × Value := (key, .string (units value))

/-- A member that is left out if its string is empty. -/
def optionalMember (key value : String) : List (String × Value) :=
  if value = "" then [] else [stringMember key value]

/-- A member as the client writes it. -/
def written (key value : String) : Member := ⟨key, quoted escaped value, .string (units value)⟩

def writtenOptional (key value : String) : List Member :=
  if value = "" then [] else [written key value]

theorem reads_written (key value : String) :
    Reads (written key value).text (written key value).value := reads_quoted stands_escape value

theorem reads_optional {key value : String} {m : Member} (h : m ∈ writtenOptional key value) :
    Reads m.text m.value := by
  rw [writtenOptional] at h
  split at h
  · cases h
  · obtain rfl := List.mem_singleton.mp h
    exact reads_written key value

theorem map_optional (key value : String) :
    (writtenOptional key value).map (fun m => (m.key, m.value)) = optionalMember key value := by
  rw [writtenOptional, optionalMember]
  split
  · rfl
  · rfl

/-- The text of an object of members that can be read. -/
theorem readsAs_members {ms : List Member} (hms : ∀ m ∈ ms, Reads m.text m.value) (hne : ms ≠ []) :
    ReadsAs (('\x7b' :: (membersText escaped ms ++ ['\x7d'])).flatMap String.utf8EncodeChar)
      (ms.map fun m => (m.key, m.value)) := by
  refine ⟨_, rfl, ?_⟩
  rw [parse_objectText stands_escape hms hne, List.map_map]
  rfl

theorem utf8_ne_nil_iff (s : String) : utf8 s ≠ [] ↔ s ≠ "" := by
  rw [utf8, ne_eq, ne_eq, List.flatMap_eq_nil_iff, not_iff_not]
  constructor
  · intro h
    have hnil : s.toList = [] :=
      List.eq_nil_iff_forall_not_mem.mpr fun c hc => String.utf8EncodeChar_ne_nil (h c hc)
    rw [← String.toList_inj, hnil]
    rfl
  · rintro rfl c hc
    cases hc

/-- What is written for a member that may be left out. -/
theorem optional_text {piece : String} {key : String} (hpiece : piece.toList =
    ',' :: (quoted escaped key ++ [':', '"'])) (value : String) :
    (if utf8 value ≠ [] then utf8 piece ++ jsonEscapeString (utf8 value) ++ utf8 "\""
      else []) =
      ((writtenOptional key value).flatMap fun m =>
        ',' :: (quoted escaped m.key ++ ':' :: m.text)).flatMap String.utf8EncodeChar := by
  rw [writtenOptional]
  by_cases hvalue : value = ""
  · rw [if_neg (by rw [utf8_ne_nil_iff]; exact fun h => h hvalue), if_pos hvalue]
    rfl
  · rw [if_pos ((utf8_ne_nil_iff value).mpr hvalue), if_neg hvalue, json_escape_text, utf8, utf8,
      hpiece, ← List.flatMap_append, ← List.flatMap_append]
    simp [written, quoted]

theorem sendJoin_text (room role clientId : String) :
    sendJoin (utf8 room) (utf8 role) (utf8 clientId) =
      ('\x7b' :: (membersText escaped (written "type" "join" :: written "room" room ::
        written "role" role :: writtenOptional "clientId" clientId) ++ ['\x7d'])).flatMap
          String.utf8EncodeChar := by
  have hfront : ("\x7b\"type\":\"join\",\"room\":\"").toList = '\x7b' :: (quoted escaped "type" ++
      ':' :: (quoted escaped "join" ++ ',' :: (quoted escaped "room" ++ [':', '"']))) := by
    decide +kernel
  have hmiddle : ("\",\"role\":\"").toList =
      '"' :: ',' :: (quoted escaped "role" ++ [':', '"']) := by decide +kernel
  have hoptional := @optional_text ",\"clientId\":\"" "clientId" (by decide +kernel) clientId
  rw [sendJoin, hoptional, json_escape_text, json_escape_text, utf8, utf8, utf8, utf8, hfront,
    hmiddle]
  simp only [← List.flatMap_append]
  refine congrArg (fun text : List Char => text.flatMap String.utf8EncodeChar) ?_
  rw [membersText_cons]
  simp [written, quoted]

theorem sendAnswer_text (sdp toId : String) :
    sendAnswer (utf8 sdp) (utf8 toId) =
      ('\x7b' :: (membersText escaped (written "type" "answer" :: written "sdp" sdp ::
        writtenOptional "to" toId) ++ ['\x7d'])).flatMap String.utf8EncodeChar := by
  have hfront : ("\x7b\"type\":\"answer\",\"sdp\":\"").toList = '\x7b' ::
      (quoted escaped "type" ++ ':' :: (quoted escaped "answer" ++
        ',' :: (quoted escaped "sdp" ++ [':', '"']))) := by decide +kernel
  have hoptional := @optional_text ",\"to\":\"" "to" (by decide +kernel) toId
  rw [sendAnswer, recipient, hoptional, json_escape_text, utf8, utf8, utf8, hfront]
  simp only [← List.flatMap_append]
  refine congrArg (fun text : List Char => text.flatMap String.utf8EncodeChar) ?_
  rw [membersText_cons]
  simp [written, quoted]

/-- The index as the client writes it. -/
def writtenIndex (n : ℤ) : Member :=
  ⟨"sdpMLineIndex", decimal n, .number ⟨(decimal n).flatMap charUnits, some n⟩⟩

theorem sendCandidate_text (candidate sdpMid : String) (sdpMlineIndex : Int32)
    (toId : String) :
    sendCandidate (utf8 candidate) (utf8 sdpMid) sdpMlineIndex (utf8 toId) =
      ('\x7b' :: (membersText escaped (written "type" "candidate" ::
        written "candidate" candidate :: written "sdpMid" sdpMid ::
        writtenIndex sdpMlineIndex.toInt :: writtenOptional "to" toId) ++ ['\x7d'])).flatMap
          String.utf8EncodeChar := by
  have hfront : ("\x7b\"type\":\"candidate\",\"candidate\":\"").toList = '\x7b' ::
      (quoted escaped "type" ++ ':' :: (quoted escaped "candidate" ++
        ',' :: (quoted escaped "candidate" ++ [':', '"']))) := by decide +kernel
  have hmid : ("\",\"sdpMid\":\"").toList =
      '"' :: ',' :: (quoted escaped "sdpMid" ++ [':', '"']) := by decide +kernel
  have hindex : ("\",\"sdpMLineIndex\":").toList =
      '"' :: ',' :: (quoted escaped "sdpMLineIndex" ++ [':']) := by decide +kernel
  have hoptional := @optional_text ",\"to\":\"" "to" (by decide +kernel) toId
  rw [sendCandidate, recipient, hoptional, json_escape_text, json_escape_text, utf8, utf8, utf8,
    utf8, hfront, hmid, hindex]
  simp only [← List.flatMap_append]
  refine congrArg (fun text : List Char => text.flatMap String.utf8EncodeChar) ?_
  rw [membersText_cons]
  simp [written, writtenIndex, quoted]

/-- **Each message is JSON text for an object that has exactly the members it is
meant to have**, in their order and with the given strings, whatever the strings
are. -/
theorem messages_read (room role clientId sdp candidate sdpMid toId : String)
    (sdpMlineIndex : Int32) :
    ReadsAs (sendJoin (utf8 room) (utf8 role) (utf8 clientId))
      (stringMember "type" "join" :: stringMember "room" room :: stringMember "role" role ::
        optionalMember "clientId" clientId) ∧
    ReadsAs (sendAnswer (utf8 sdp) (utf8 toId))
      (stringMember "type" "answer" :: stringMember "sdp" sdp :: optionalMember "to" toId) ∧
    ReadsAs (sendCandidate (utf8 candidate) (utf8 sdpMid) sdpMlineIndex (utf8 toId))
      (stringMember "type" "candidate" :: stringMember "candidate" candidate ::
        stringMember "sdpMid" sdpMid ::
        ("sdpMLineIndex", .number ⟨(decimal sdpMlineIndex.toInt).flatMap charUnits,
          some sdpMlineIndex.toInt⟩) :: optionalMember "to" toId) := by
  refine ⟨?_, ?_, ?_⟩
  · rw [sendJoin_text, ← map_optional]
    refine readsAs_members (fun m hm => ?_) (by simp)
    simp only [List.mem_cons] at hm
    rcases hm with rfl | rfl | rfl | hm
    · exact reads_written _ _
    · exact reads_written _ _
    · exact reads_written _ _
    · exact reads_optional hm
  · rw [sendAnswer_text, ← map_optional]
    refine readsAs_members (fun m hm => ?_) (by simp)
    simp only [List.mem_cons] at hm
    rcases hm with rfl | rfl | hm
    · exact reads_written _ _
    · exact reads_written _ _
    · exact reads_optional hm
  · rw [sendCandidate_text, ← map_optional]
    refine readsAs_members (fun m hm => ?_) (by simp)
    simp only [List.mem_cons] at hm
    rcases hm with rfl | rfl | rfl | rfl | hm
    · exact reads_written _ _
    · exact reads_written _ _
    · exact reads_written _ _
    · exact reads_decimal _
    · exact reads_optional hm

end SignalingTexts

end IpcMini
