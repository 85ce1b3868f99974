/-
Encoding of URI components, as `encodeURIComponent` does it.

Letters, digits and some marks stand for themselves; every other character is written as the
escapes of its UTF-8 encoding.

* `encode` — of a text without lone surrogates;
* **`decode_encode`** — `decodeURIComponent` gives the text back, whatever is in it;
* `special_not_mem_encode` — no separator of a URL is left.
-/
import Mathlib.Tactic.Common
import IpcMini.UriComponent

namespace UriComponent

/-- A character that is not escaped. -/
def isUnreserved (c : Char) : Bool :=
  c.isAlphanum || ['-', '_', '.', '!', '~', '*', '\'', '(', ')'].contains c

def upperDigit (n : ℕ) : Char := Char.ofNat (if n < 10 then 48 + n else 55 + n)

def escape (b : UInt8) : List Char := ['%', upperDigit (b.toNat / 16), upperDigit (b.toNat % 16)]

def encodeChar (c : Char) : List Char :=
  if isUnreserved c then [c] else (String.utf8EncodeChar c).flatMap escape

/-- `encodeURIComponent`. -/
def encode (text : List Char) : List Char := text.flatMap encodeChar

@[simp] theorem encode_nil : encode [] = [] := rfl

theorem encode_cons (c : Char) (text : List Char) :
    encode (c :: text) = encodeChar c ++ encode text :=
  List.flatMap_cons

/-! ### The octets of a character -/

/-- The encoding of a character, by its number. -/
theorem utf8EncodeChar_eq (c : Char) :
    String.utf8EncodeChar c =
      if c.toNat ≤ 0x7f then [.ofNat c.toNat]
      else if c.toNat ≤ 0x7ff then
        [.ofNat (c.toNat / 64 % 0x20 + 0xc0), .ofNat (c.toNat % 0x40 + 0x80)]
      else if c.toNat ≤ 0xffff then
        [.ofNat (c.toNat / 4096 % 0x10 + 0xe0), .ofNat (c.toNat / 64 % 0x40 + 0x80),
          .ofNat (c.toNat % 0x40 + 0x80)]
      else
        [.ofNat (c.toNat / 262144 % 0x08 + 0xf0), .ofNat (c.toNat / 4096 % 0x40 + 0x80),
          .ofNat (c.toNat / 64 % 0x40 + 0x80), .ofNat (c.toNat % 0x40 + 0x80)] := rfl

theorem toNat_octet {n : ℕ} (h : n < 256) : (UInt8.ofNat n).toNat = n :=
  UInt8.toNat_ofNat_of_lt' h

theorem continuation_octet {n : ℕ} (h : n < 64) : continuation (.octet (n + 128)) = some n := by
  rw [continuation, if_pos (by omega), Nat.add_sub_cancel]

/-- The octets of a character are read as the character. -/
theorem utf8_octets (c : Char) (rest : List Token) :
    utf8 ((String.utf8EncodeChar c).map (fun b => Token.octet b.toNat) ++ rest) =
      (utf8 rest).map (c :: ·) := by
  have hvalid := c.valid
  have hnat : c.val.toNat = c.toNat := rfl
  rw [UInt32.isValidChar, hnat, Nat.isValidChar] at hvalid
  have hself : ∀ n, n = c.toNat → Char.ofNat n = c := fun n hn => hn ▸ Char.ofNat_toNat c
  rw [utf8EncodeChar_eq]
  split_ifs with h₁ h₂ h₃
  · simp only [List.map_cons, List.map_nil, List.cons_append, List.nil_append]
    rw [toNat_octet (by omega), utf8.eq_def]
    dsimp only
    rw [if_pos (by omega), hself _ rfl]
  · simp only [List.map_cons, List.map_nil, List.cons_append, List.nil_append]
    rw [toNat_octet (by omega), toNat_octet (by omega), utf8, if_neg (by omega),
      if_pos (by omega)]
    simp only [continuation_octet (Nat.mod_lt c.toNat (by decide : 0 < 64))]
    rw [hself _ (by omega)]
  · simp only [List.map_cons, List.map_nil, List.cons_append, List.nil_append]
    rw [toNat_octet (by omega), toNat_octet (by omega), toNat_octet (by omega), utf8,
      if_neg (by omega), if_neg (by omega), if_pos (by omega)]
    simp only [continuation_octet (Nat.mod_lt c.toNat (by decide : 0 < 64)),
      continuation_octet (Nat.mod_lt (c.toNat / 64) (by decide : 0 < 64))]
    rw [if_pos (by omega), hself _ (by omega)]
  · simp only [List.map_cons, List.map_nil, List.cons_append, List.nil_append]
    rw [toNat_octet (by omega), toNat_octet (by omega), toNat_octet (by omega),
      toNat_octet (by omega), utf8, if_neg (by omega), if_neg (by omega), if_neg (by omega),
      if_pos (by omega)]
    simp only [continuation_octet (Nat.mod_lt c.toNat (by decide : 0 < 64)),
      continuation_octet (Nat.mod_lt (c.toNat / 64) (by decide : 0 < 64)),
      continuation_octet (Nat.mod_lt (c.toNat / 4096) (by decide : 0 < 64))]
    rw [if_pos (by omega), hself _ (by omega)]

/-! ### Escapes -/

theorem hex_upperDigit {n : ℕ} (h : n < 16) : hex (upperDigit n) = some n := by
  have hall : ∀ m < 16, hex (upperDigit m) = some m := by decide
  exact hall n h

theorem tokens_escape (b : UInt8) (rest : List Char) :
    tokens (escape b ++ rest) = (tokens rest).map (.octet b.toNat :: ·) := by
  have hb := b.toNat_lt
  rw [escape, List.cons_append, List.cons_append, List.cons_append, List.nil_append, tokens,
    hex_upperDigit (by omega), hex_upperDigit (by omega)]
  have hdiv : 16 * (b.toNat / 16) + b.toNat % 16 = b.toNat := Nat.div_add_mod ..
  simp only [hdiv]

theorem tokens_escapes (bytes : List UInt8) (rest : List Char) :
    tokens (bytes.flatMap escape ++ rest) =
      (tokens rest).map (bytes.map (fun b => Token.octet b.toNat) ++ ·) := by
  induction bytes with
  | nil => simp
  | cons b bytes ih =>
    rw [List.flatMap_cons, List.append_assoc, tokens_escape, ih, Option.map_map]
    rfl

theorem not_percent {c : Char} (h : isUnreserved c = true) : c ≠ '%' := by
  rintro rfl
  exact absurd h (by decide)

theorem decode_encodeChar (c : Char) (rest : List Char) :
    decode (encodeChar c ++ rest) = (decode rest).map (c :: ·) := by
  rw [encodeChar]
  split
  next h => exact decode_cons_of_ne (not_percent h) rest
  · rw [decode, decode, tokens_escapes]
    cases tokens rest with
    | none => rfl
    | some ts => exact utf8_octets c ts

/-- **What is encoded is decoded to itself**, before whatever follows. -/
theorem decode_encode_append (text rest : List Char) :
    decode (encode text ++ rest) = (decode rest).map (text ++ ·) := by
  induction text with
  | nil => simp
  | cons c text ih =>
    rw [encode_cons, List.append_assoc, decode_encodeChar, ih, Option.map_map]
    rfl

theorem decode_encode (text : List Char) : decode (encode text) = some text := by
  have h := decode_encode_append text []
  rw [List.append_nil] at h
  rw [h, show decode [] = some [] from rfl, Option.map_some, List.append_nil]

/-! ### Encoded text in a URL -/

theorem unreserved_of_mem_encode {text : List Char} {d : Char} (h : d ∈ encode text) :
    isUnreserved d = true ∨ d = '%' := by
  obtain ⟨c, -, hd⟩ := List.mem_flatMap.mp h
  rw [encodeChar] at hd
  split at hd
  next hc => exact .inl (List.mem_singleton.mp hd ▸ hc)
  · obtain ⟨b, -, hb⟩ := List.mem_flatMap.mp hd
    have hdigit : ∀ n < 16, isUnreserved (upperDigit n) = true := by decide
    have hlt := b.toNat_lt
    simp only [escape, List.mem_cons, List.not_mem_nil, or_false] at hb
    rcases hb with rfl | rfl | rfl
    · exact .inr rfl
    · exact .inl (hdigit _ (by omega))
    · exact .inl (hdigit _ (by omega))

/-- Nothing that separates the parts of a URL is left. -/
theorem special_not_mem_encode (text : List Char) :
    ∀ d ∈ ['/', '?', '#'], d ∉ encode text := by
  intro d hd h
  simp only [List.mem_cons, List.not_mem_nil, or_false] at hd
  rcases unreserved_of_mem_encode h with hd' | hd'
  · rcases hd with rfl | rfl | rfl <;> exact absurd hd' (by decide)
  · rcases hd with rfl | rfl | rfl <;> exact absurd hd' (by decide)

theorem encode_ne_nil {text : List Char} (h : text ≠ []) : encode text ≠ [] := by
  intro hnil
  have hdecode := decode_encode text
  rw [hnil] at hdecode
  exact h (Option.some.inj hdecode).symm

end UriComponent
