/-
Decoding of URI components, as `decodeURIComponent` does it.

An escape `%XX` stands for an octet; consecutive octets have to be the UTF-8
encoding of characters.  Everything else stands for itself.  A malformed escape
or encoding is an error, for which `decode` is `none`.

* `tokens`, `utf8`, `decode` — escapes, characters, and the two together;
* **`decode_append`** — text without escapes is decoded to itself.
-/
import Mathlib.Data.List.Basic
import Mathlib.Data.Nat.Notation
import Mathlib.Data.Option.Basic

namespace UriComponent

/-- The value of a hexadecimal digit. -/
def hex (c : Char) : Option ℕ :=
  if '0' ≤ c ∧ c ≤ '9' then some (c.toNat - '0'.toNat)
  else if 'a' ≤ c ∧ c ≤ 'f' then some (c.toNat - 'a'.toNat + 10)
  else if 'A' ≤ c ∧ c ≤ 'F' then some (c.toNat - 'A'.toNat + 10)
  else none

/-- A character that stands for itself, or the octet of an escape. -/
inductive Token
  | char (c : Char)
  | octet (b : ℕ)
  deriving DecidableEq, Repr

def tokens : List Char → Option (List Token)
  | [] => some []
  | '%' :: high :: low :: rest =>
    match hex high, hex low with
    | some h, some l => (tokens rest).map (.octet (16 * h + l) :: ·)
    | _, _ => none
  | '%' :: _ => none
  | c :: rest => (tokens rest).map (.char c :: ·)

/-- The payload of a continuation octet. -/
def continuation : Token → Option ℕ
  | .octet b => if 128 ≤ b ∧ b < 192 then some (b - 128) else none
  | .char _ => none

/-- The octets in the text are the encodings of characters: one octet below
128, or a lead octet with one to three continuations, in the shortest form and
no surrogate. -/
def utf8 : List Token → Option (List Char)
  | [] => some []
  | .char c :: rest => (utf8 rest).map (c :: ·)
  | .octet b :: rest =>
    if b < 128 then (utf8 rest).map (Char.ofNat b :: ·)
    else if 194 ≤ b ∧ b < 224 then
      match rest with
      | t₁ :: rest =>
        match continuation t₁ with
        | some c₁ => (utf8 rest).map (Char.ofNat ((b - 192) * 64 + c₁) :: ·)
        | none => none
      | [] => none
    else if 224 ≤ b ∧ b < 240 then
      match rest with
      | t₁ :: t₂ :: rest =>
        match continuation t₁, continuation t₂ with
        | some c₁, some c₂ =>
          let code := ((b - 224) * 64 + c₁) * 64 + c₂
          if 2048 ≤ code ∧ ¬ (55296 ≤ code ∧ code < 57344) then
            (utf8 rest).map (Char.ofNat code :: ·)
          else none
        | _, _ => none
      | _ => none
    else if 240 ≤ b ∧ b < 245 then
      match rest with
      | t₁ :: t₂ :: t₃ :: rest =>
        match continuation t₁, continuation t₂, continuation t₃ with
        | some c₁, some c₂, some c₃ =>
          let code := (((b - 240) * 64 + c₁) * 64 + c₂) * 64 + c₃
          if 65536 ≤ code ∧ code < 1114112 then (utf8 rest).map (Char.ofNat code :: ·) else none
        | _, _, _ => none
      | _ => none
    else none

/-- `decodeURIComponent`; `none` is its `URIError`. -/
def decode (text : List Char) : Option (List Char) := (tokens text).bind utf8

theorem tokens_cons_of_ne {c : Char} (hc : c ≠ '%') (rest : List Char) :
    tokens (c :: rest) = (tokens rest).map (.char c :: ·) := by
  rw [tokens]
  · exact fun _ _ _ heq => absurd heq hc
  · exact hc

theorem decode_cons_of_ne {c : Char} (hc : c ≠ '%') (rest : List Char) :
    decode (c :: rest) = (decode rest).map (c :: ·) := by
  rw [decode, decode, tokens_cons_of_ne hc]
  cases tokens rest with
  | none => rfl
  | some ts => simp [utf8]

/-- **Text without escapes is decoded to itself.** -/
theorem decode_append {plain : List Char} (h : '%' ∉ plain) (rest : List Char) :
    decode (plain ++ rest) = (decode rest).map (plain ++ ·) := by
  induction plain with
  | nil => simp
  | cons c plain ih =>
    simp only [List.mem_cons, not_or] at h
    rw [List.cons_append, decode_cons_of_ne (Ne.symm h.1), ih h.2, Option.map_map]
    rfl

example : decode ['%', 'C', '3', '%', 'a', '9', '/', 'a'] = some ['é', '/', 'a'] := by decide

example : decode ['%', 'C', '0', '%', '8', '0'] = none := by decide

end UriComponent
