/-
The reader of vendored JsonCpp (`3rdpart/jsoncpp/json_reader.cpp`).

The reader takes tokens off the text.  It is laxer than the grammar of JSON: comments are
skipped, almost any token passes for the comma of an array, and what follows the value is not
looked at.  Strings are kept as C strings, which end at the first NUL.

* `readToken` — the next token, and the rest of the text;
* `decodeString`, `decodeNumber` — what a token stands for;
* `readValue`, `readObject`, `readArray`, `parse` — values, with one step for each value
  that is nested in another and each member or item.

A member that cannot be read makes the whole text unreadable: what `recoverFromError` skips,
and the error texts, are left out.
-/
import Mathlib.Data.Nat.Notation
import IpcMini.Jsoncpp

namespace IpcMini

namespace Jsoncpp

/-! ### Strings of C -/

/-- The string of these bytes. -/
def stdString (bytes : List UInt8) : String :=
  String.ofList (bytes.map fun b => Char.ofNat b.toNat)

/-- What is left of a string that is copied with `strlen`. -/
def cStr (bytes : List UInt8) : List UInt8 := bytes.takeWhile (· ≠ 0)

/-- `value[key] = ...`, on a map with one entry for each key. -/
def setMember (members : List (String × Value)) (key : String) (value : Value) :
    List (String × Value) :=
  if members.any (·.1 = key) then
    members.map fun member => if member.1 = key then (key, value) else member
  else members ++ [(key, value)]

namespace Reader

/-! ### Tokens -/

/-- A token, with the part of the text that is decoded later: a string without its quotation
marks, or a number. -/
inductive Token
  | endOfStream
  | objectBegin
  | objectEnd
  | arrayBegin
  | arrayEnd
  | string (body : List UInt8)
  | number (text : List UInt8)
  | true
  | false
  | null
  | arraySeparator
  | memberSeparator
  | comment
  | error
  deriving DecidableEq, Repr

def isSpace (c : UInt8) : Bool := c = 32 || c = 9 || c = 13 || c = 10

def skipSpaces (text : List UInt8) : List UInt8 := text.dropWhile isSpace

/-- `readString`: the string up to the closing quotation mark, and the rest. -/
def readString : List UInt8 → Option (List UInt8 × List UInt8)
  | [] => none
  | c :: rest =>
    if c = 92 then
      match rest with
      | [] => none
      | escaped :: rest => (readString rest).map fun r => (c :: escaped :: r.1, r.2)
    else if c = 34 then some ([], rest)
    else (readString rest).map fun r => (c :: r.1, r.2)

/-- `readCStyleComment`, and the rest. -/
def readCStyleComment : List UInt8 → Bool × List UInt8
  | [] => (false, [])
  | c :: rest =>
    if c = 42 ∧ rest.head? = some 47 then (true, rest.drop 1) else readCStyleComment rest

/-- `readCppStyleComment`: the rest. -/
def readCppStyleComment (text : List UInt8) : List UInt8 :=
  (text.dropWhile fun c => c ≠ 13 && c ≠ 10).drop 1

/-- `readComment`. -/
def readComment (text : List UInt8) : Bool × List UInt8 :=
  match text with
  | [] => (false, [])
  | c :: rest =>
    if c = 42 then readCStyleComment rest
    else if c = 47 then (true, readCppStyleComment rest)
    else (false, rest)

def isDigit (c : UInt8) : Bool := decide (48 ≤ c ∧ c ≤ 57)

/-- The characters that `readNumber` takes. -/
def isNumberChar (c : UInt8) : Bool :=
  isDigit c || c = 46 || c = 101 || c = 69 || c = 43 || c = 45

/-- `match`: a token whose first character has been read. -/
def matching (pattern : List UInt8) (token : Token) (text : List UInt8) : Token × List UInt8 :=
  if pattern.isPrefixOf text then (token, text.drop pattern.length) else (.error, text)

/-- `readToken`.  A NUL is taken for the end of the text. -/
def readToken (text : List UInt8) : Token × List UInt8 :=
  match skipSpaces text with
  | [] => (.endOfStream, [])
  | c :: rest =>
    if c = 123 then (.objectBegin, rest)
    else if c = 125 then (.objectEnd, rest)
    else if c = 91 then (.arrayBegin, rest)
    else if c = 93 then (.arrayEnd, rest)
    else if c = 34 then
      match readString rest with
      | some (body, rest) => (.string body, rest)
      | none => (.error, [])
    else if c = 47 then
      (if (readComment rest).1 then .comment else .error, (readComment rest).2)
    else if isDigit c || c = 45 then
      (.number (c :: rest.takeWhile isNumberChar), rest.dropWhile isNumberChar)
    else if c = 116 then matching [114, 117, 101] .true rest
    else if c = 102 then matching [97, 108, 115, 101] .false rest
    else if c = 110 then matching [117, 108, 108] .null rest
    else if c = 44 then (.arraySeparator, rest)
    else if c = 58 then (.memberSeparator, rest)
    else if c = 0 then (.endOfStream, rest)
    else (.error, rest)

/-- `skipCommentTokens`; there are fewer comments than characters. -/
def skipCommentTokens : ℕ → List UInt8 → Token × List UInt8
  | 0, text => readToken text
  | fuel + 1, text =>
    if (readToken text).1 = .comment then skipCommentTokens fuel (readToken text).2
    else readToken text

/-- The next token that is not a comment. -/
def nextToken (text : List UInt8) : Token × List UInt8 := skipCommentTokens text.length text

/-! ### Strings and numbers -/

def hex (c : UInt8) : Option ℕ :=
  if 48 ≤ c ∧ c ≤ 57 then some (c.toNat - 48)
  else if 97 ≤ c ∧ c ≤ 102 then some (c.toNat - 97 + 10)
  else if 65 ≤ c ∧ c ≤ 70 then some (c.toNat - 65 + 10)
  else none

/-- `decodeUnicodeEscapeSequence`, of four characters. -/
def decodeUnicodeEscapeSequence (h₁ h₂ h₃ h₄ : UInt8) : Option ℕ :=
  (hex h₁).bind fun a => (hex h₂).bind fun b => (hex h₃).bind fun c => (hex h₄).map fun d =>
    ((a * 16 + b) * 16 + c) * 16 + d

/-- `codePointToUTF8`. -/
def codePointToUtf8 (cp : ℕ) : List UInt8 :=
  if cp ≤ 0x7f then [.ofNat cp]
  else if cp ≤ 0x7FF then [.ofNat (0xC0 + cp / 64 % 32), .ofNat (0x80 + cp % 64)]
  else if cp ≤ 0xFFFF then
    [.ofNat (0xE0 + cp / 4096 % 16), .ofNat (0x80 + cp / 64 % 64), .ofNat (0x80 + cp % 64)]
  else if cp ≤ 0x10FFFF then
    [.ofNat (0xF0 + cp / 262144 % 8), .ofNat (0x80 + cp / 4096 % 64),
      .ofNat (0x80 + cp / 64 % 64), .ofNat (0x80 + cp % 64)]
  else []

/-- The code point of two escapes, the first one a lead surrogate. -/
def surrogatePair (unicode second : ℕ) : ℕ :=
  0x10000 + unicode % 0x400 * 0x400 + second % 0x400

/-- The escapes of one character. -/
def unescape (escape : UInt8) : Option UInt8 :=
  if escape = 34 then some 34
  else if escape = 47 then some 47
  else if escape = 92 then some 92
  else if escape = 98 then some 8
  else if escape = 102 then some 12
  else if escape = 110 then some 10
  else if escape = 114 then some 13
  else if escape = 116 then some 9
  else none

/-- `decodeString`, with `decodeUnicodeCodePoint`: behind a lead surrogate any other escape is
taken for the trail surrogate. -/
def decodeString : List UInt8 → Option (List UInt8)
  | [] => some []
  | c :: rest =>
    if c = 34 then some []
    else if c = 92 then
      match rest with
      | [] => none
      | escape :: rest =>
        if escape = 117 then
          match rest with
          | h₁ :: h₂ :: h₃ :: h₄ :: rest =>
            (decodeUnicodeEscapeSequence h₁ h₂ h₃ h₄).bind fun unicode =>
              if 0xD800 ≤ unicode ∧ unicode ≤ 0xDBFF then
                match rest with
                | b :: u :: l₁ :: l₂ :: l₃ :: l₄ :: rest =>
                  if b = 92 ∧ u = 117 then
                    (decodeUnicodeEscapeSequence l₁ l₂ l₃ l₄).bind fun second =>
                      (decodeString rest).map
                        (codePointToUtf8 (surrogatePair unicode second) ++ ·)
                  else none
                | _ => none
              else (decodeString rest).map (codePointToUtf8 unicode ++ ·)
          | _ => none
        else (unescape escape).bind fun d => (decodeString rest).map (d :: ·)
    else (decodeString rest).map (c :: ·)

/-- `sscanf(text, "%lf", &value) == 1`: a number stands at the beginning, and no exponent is
broken off. -/
def scansDouble (text : List UInt8) : Bool :=
  let unsigned := if text.head? = some 43 ∨ text.head? = some 45 then text.drop 1 else text
  let whole := unsigned.takeWhile isDigit
  let behind := unsigned.dropWhile isDigit
  let point := decide (behind.head? = some 46)
  let fraction := if point then (behind.drop 1).takeWhile isDigit else []
  let behind := if point then (behind.drop 1).dropWhile isDigit else behind
  if whole = [] ∧ fraction = [] then false
  else if behind.head? = some 101 ∨ behind.head? = some 69 then
    let exponent := behind.drop 1
    let digits := if exponent.head? = some 43 ∨ exponent.head? = some 45 then exponent.drop 1
      else exponent
    digits.head?.any isDigit
  else true

/-- `decodeDouble`. -/
def decodeDouble (text : List UInt8) : Option Value :=
  if scansDouble text then some .real else none

/-- How the loop over the digits ends. -/
inductive Digits
  | integer (value : ℕ)
  | double
  | error
  deriving DecidableEq, Repr

def decodeDigits (threshold : ℕ) : ℕ → List UInt8 → Digits
  | value, [] => .integer value
  | value, c :: rest =>
    if !isDigit c then .error
    else if threshold ≤ value then .double
    else decodeDigits threshold (value * 10 + (c.toNat - 48)) rest

/-- `decodeNumber`. -/
def decodeNumber (text : List UInt8) : Option Value :=
  let isDouble := text.any (fun c => c = 46 || c = 101 || c = 69 || c = 43) ||
    (text.drop 1).contains 45
  if isDouble then decodeDouble text
  else
    let negative := decide (text.head? = some 45)
    let threshold := (if negative then 2147483648 else 4294967295) / 10
    match decodeDigits threshold 0 (if negative then text.drop 1 else text) with
    | .error => none
    | .double => decodeDouble text
    | .integer value =>
      if negative then some (.int (-.ofNat value))
      else if value ≤ 2147483647 then some (.int (.ofNat value))
      else some .uint

/-! ### Values -/

mutual

/-- `readValue`. -/
def readValue : ℕ → List UInt8 → Option (Value × List UInt8)
  | 0, _ => none
  | fuel + 1, text =>
    let token := nextToken text
    match token.1 with
    | .objectBegin => (readObject fuel [] [] token.2).map fun r => (.object r.1, r.2)
    | .arrayBegin =>
      if (skipSpaces token.2).head? = some 93 then
        some (.array [], (skipSpaces token.2).drop 1)
      else (readArray fuel (skipSpaces token.2)).map fun r => (.array r.1, r.2)
    | .number text => (decodeNumber text).map (·, token.2)
    | .string body =>
      (decodeString body).map fun decoded => (.string (stdString (cStr decoded)), token.2)
    | .true => some (.boolean true, token.2)
    | .false => some (.boolean false, token.2)
    | .null => some (.null, token.2)
    | _ => none

/-- `readObject`, with the members so far and the last name. -/
def readObject : ℕ → List (String × Value) → List UInt8 → List UInt8 →
    Option (List (String × Value) × List UInt8)
  | 0, _, _, _ => none
  | fuel + 1, members, name, text =>
    let token := nextToken text
    if token.1 = .objectEnd ∧ name = [] then some (members, token.2)
    else
      match token.1 with
      | .string body =>
        (decodeString body).bind fun name =>
          let colon := readToken token.2
          if colon.1 = .memberSeparator then
            (readValue fuel colon.2).bind fun value =>
              let comma := (readToken value.2).1
              if comma = .objectEnd ∨ comma = .arraySeparator ∨ comma = .comment then
                let members := setMember members (stdString (cStr name)) value.1
                -- behind a comment any token but the brace passes for the comma
                if (nextToken value.2).1 = .objectEnd then some (members, (nextToken value.2).2)
                else readObject fuel members name (nextToken value.2).2
              else none
          else none
      | _ => none

/-- `readArray`: any token but the bracket passes for the comma. -/
def readArray : ℕ → List UInt8 → Option (List Value × List UInt8)
  | 0, _ => none
  | fuel + 1, text =>
    (readValue fuel text).bind fun item =>
      let token := nextToken item.2
      if token.1 = .arrayEnd then some ([item.1], token.2)
      else (readArray fuel token.2).map fun r => (item.1 :: r.1, r.2)

end

/-- `Reader::parse`: there are fewer steps than characters. -/
def parse (text : List UInt8) : Option Value := (readValue (text.length + 1) text).map (·.1)

/-- `[1:2]x` is read. -/
example : parse [91, 49, 58, 50, 93, 120] = some (.array [.int 1, .int 2]) := by rfl

end Reader

end Jsoncpp

end IpcMini
