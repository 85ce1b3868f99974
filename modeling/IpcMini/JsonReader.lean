/-
Reading JSON text (RFC 8259).

The reader follows the grammar, with one step for each value that is nested in
another; a text has fewer of them than characters.

* `readString`, `readNumber`, `readValue` — what stands at the beginning of a
  text, and the rest;
* `parse` — a whole text;
* `Stands`, `Reads` — what stands for a character in a string, and a value that
  is read up to a separator;
* `membersText` — the members of an object between commas, with any way to
  write the characters of the keys;
* **`parse_objectText`** — an object of such members is read with exactly these,
  in order.
-/
import Mathlib.Algebra.Group.Int.Defs
import Mathlib.Algebra.Group.Nat.Defs
import Mathlib.Data.Int.Notation
import IpcMini.Decimals
import IpcMini.Json
import IpcMini.UriComponent

namespace Json

open Decimals (isDigit_toDigits takeWhile_digits dropWhile_digits)

/-! ### Strings and numbers -/

/-- `ws`. -/
def isWs (c : Char) : Bool := c = ' ' || c = '\t' || c = '\n' || c = '\r'

def skipWs (text : List Char) : List Char := text.dropWhile isWs

def charUnits (c : Char) : Units :=
  if c.toNat < 0x10000 then [.ofNat c.toNat]
  else [.ofNat (0xD800 + (c.toNat - 0x10000) / 0x400),
    .ofNat (0xDC00 + (c.toNat - 0x10000) % 0x400)]

/-- The code unit of four hexadecimal digits. -/
def readHex (a b c d : Char) : Option UInt16 :=
  match UriComponent.hex a, UriComponent.hex b, UriComponent.hex c, UriComponent.hex d with
  | some a, some b, some c, some d => some (.ofNat (((a * 16 + b) * 16 + c) * 16 + d))
  | _, _, _, _ => none

/-- What a character behind a backslash stands for. -/
def unescape (c : Char) : Option UInt16 :=
  if c = '"' then some 34
  else if c = '\\' then some 92
  else if c = '/' then some 47
  else if c = 'b' then some 8
  else if c = 'f' then some 12
  else if c = 'n' then some 10
  else if c = 'r' then some 13
  else if c = 't' then some 9
  else none

/-- A string behind its first quotation mark. -/
def readString : List Char → Option (Units × List Char)
  | [] => none
  | c :: rest =>
    if c = '"' then some ([], rest)
    else if c = '\\' then
      match rest with
      | [] => none
      | e :: rest =>
        if e = 'u' then
          match rest with
          | h₁ :: h₂ :: h₃ :: h₄ :: rest =>
            (readHex h₁ h₂ h₃ h₄).bind fun u => (readString rest).map fun r => (u :: r.1, r.2)
          | _ => none
        else (unescape e).bind fun u => (readString rest).map fun r => (u :: r.1, r.2)
    else if c.toNat < 0x20 then none
    else (readString rest).map fun r => (charUnits c ++ r.1, r.2)

/-- `1*DIGIT`. -/
def readDigits (text : List Char) : Option (List Char × List Char) :=
  if text.takeWhile Char.isDigit = [] then none
  else some (text.takeWhile Char.isDigit, text.dropWhile Char.isDigit)

/-- `int`: no digit before which a zero stands. -/
def readInt (text : List Char) : Option (List Char × List Char) :=
  if text.head? = some '0' then some (['0'], text.drop 1) else readDigits text

/-- `[ frac ]`. -/
def readFrac (text : List Char) : Option (List Char × List Char) :=
  if text.head? = some '.' then readDigits (text.drop 1) else some ([], text)

/-- `[ exp ]`, and the exponent. -/
def readExp (text : List Char) : Option (ℤ × List Char) :=
  if text.head? = some 'e' ∨ text.head? = some 'E' then
    let sign := (text.drop 1).head?
    let digits := if sign = some '+' ∨ sign = some '-' then text.drop 2 else text.drop 1
    (readDigits digits).map fun r =>
      (if sign = some '-' then -(Nat.ofDigitChars 10 r.1 0 : ℤ) else Nat.ofDigitChars 10 r.1 0, r.2)
  else some (0, text)

/-- `n` times a power of ten, if it is an integer. -/
def scaled (n exponent : ℤ) : Option ℤ :=
  if 0 ≤ exponent then some (n * 10 ^ exponent.toNat)
  else if n % 10 ^ (-exponent).toNat = 0 then some (n / 10 ^ (-exponent).toNat)
  else none

/-- The magnitude of a number: its digits, its exponent, and the rest. -/
def readMagnitude (text : List Char) : Option (ℕ × ℤ × List Char) :=
  (readInt text).bind fun int => (readFrac int.2).bind fun frac =>
    (readExp frac.2).map fun exp =>
      (Nat.ofDigitChars 10 (int.1 ++ frac.1) 0, exp.1 - frac.1.length, exp.2)

def readNumber (text : List Char) : Option (Number × List Char) :=
  let negative := decide (text.head? = some '-')
  (readMagnitude (if negative then text.drop 1 else text)).map fun r =>
    (⟨(text.take (text.length - r.2.2.length)).flatMap charUnits,
      scaled (if negative then -(r.1 : ℤ) else r.1) r.2.1⟩, r.2.2)

/-! ### Values -/

/-- One of the three literal names. -/
def readName (name : List Char) (value : Value) (text : List Char) :
    Option (Value × List Char) :=
  if name.isPrefixOf text then some (value, text.drop name.length) else none

/-- The key of a member, up to its value. -/
def readKey (text : List Char) : Option (Units × List Char) :=
  if text.head? = some '"' then
    (readString (text.drop 1)).bind fun r =>
      if (skipWs r.2).head? = some ':' then some (r.1, skipWs ((skipWs r.2).drop 1)) else none
  else none

mutual

def readValue : ℕ → List Char → Option (Value × List Char)
  | 0, _ => none
  | fuel + 1, text =>
    let inside := skipWs (text.drop 1)
    match text.head? with
    | some '"' => (readString (text.drop 1)).map fun r => (.string r.1, r.2)
    | some '[' =>
      if inside.head? = some ']' then some (.array [], inside.drop 1)
      else (readItems fuel inside).map fun r => (.array r.1, r.2)
    | some '\x7b' =>
      if inside.head? = some '\x7d' then some (.object [], inside.drop 1)
      else (readMembers fuel inside).map fun r => (.object r.1, r.2)
    | some 'n' => readName ['n', 'u', 'l', 'l'] .null text
    | some 't' => readName ['t', 'r', 'u', 'e'] (.bool true) text
    | some 'f' => readName ['f', 'a', 'l', 's', 'e'] (.bool false) text
    | _ => (readNumber text).map fun r => (.number r.1, r.2)

/-- Items up to the closing bracket. -/
def readItems : ℕ → List Char → Option (List Value × List Char)
  | 0, _ => none
  | fuel + 1, text =>
    (readValue fuel text).bind fun item =>
      let rest := skipWs item.2
      if rest.head? = some ']' then some ([item.1], rest.drop 1)
      else if rest.head? = some ',' then
        (readItems fuel (skipWs (rest.drop 1))).map fun r => (item.1 :: r.1, r.2)
      else none

/-- Members up to the closing brace. -/
def readMembers : ℕ → List Char → Option (List (Units × Value) × List Char)
  | 0, _ => none
  | fuel + 1, text =>
    (readKey text).bind fun key => (readValue fuel key.2).bind fun item =>
      let rest := skipWs item.2
      if rest.head? = some '\x7d' then some ([(key.1, item.1)], rest.drop 1)
      else if rest.head? = some ',' then
        (readMembers fuel (skipWs (rest.drop 1))).map fun r => ((key.1, item.1) :: r.1, r.2)
      else none

end

/-- `JSON-text`. -/
def parse (text : List Char) : Option Value :=
  (readValue (text.length + 1) (skipWs text)).bind fun r =>
    if skipWs r.2 = [] then some r.1 else none

example : parse ['[', '-', '1', '.', '5', 'e', '1', ',', 'n', 'u', 'l', 'l', ' ', ']'] =
    some (.array [.number ⟨[45, 49, 46, 53, 101, 49], some (-15)⟩, .null]) := by rfl

example : parse ['[', '0', '1', ']'] = none := by rfl

/-! ### Strings that were written -/

/-- In a string the text stands for the character. -/
def Stands (text : List Char) (c : Char) : Prop :=
  ∀ rest, readString (text ++ rest) = (readString rest).map fun r => (charUnits c ++ r.1, r.2)

theorem stands_self {c : Char} (hquote : c ≠ '"') (hslash : c ≠ '\\') (hctl : 0x20 ≤ c.toNat) :
    Stands [c] c := by
  intro rest
  rw [List.singleton_append, readString.eq_def]
  dsimp only
  rw [if_neg hquote, if_neg hslash, if_neg (by omega)]

theorem stands_unescape {c e : Char} {u : UInt16} (hu : e ≠ 'u') (he : unescape e = some u)
    (hc : charUnits c = [u]) : Stands ['\\', e] c := by
  intro rest
  rw [List.cons_append, List.singleton_append, readString.eq_def]
  dsimp only
  rw [if_neg (by decide), if_pos rfl, if_neg hu, he, hc]
  rfl

theorem stands_hex {c h₁ h₂ h₃ h₄ : Char} {u : UInt16} (hu : readHex h₁ h₂ h₃ h₄ = some u)
    (hc : charUnits c = [u]) : Stands ['\\', 'u', h₁, h₂, h₃, h₄] c := by
  intro rest
  rw [readString.eq_def]
  simp only [List.cons_append, List.nil_append]
  rw [if_neg (by decide), if_pos trivial, if_pos trivial, hu, hc]
  rfl

/-- A text of one of these forms for the character. -/
def standsFor (text : List Char) (c : Char) : Bool :=
  match text with
  | [d] => decide (d = c ∧ c ≠ '"' ∧ c ≠ '\\' ∧ 0x20 ≤ c.toNat)
  | [b, e] => decide (b = '\\' ∧ e ≠ 'u' ∧ (unescape e).map ([·]) = some (charUnits c))
  | [b, u, h₁, h₂, h₃, h₄] =>
    decide (b = '\\' ∧ u = 'u' ∧ (readHex h₁ h₂ h₃ h₄).map ([·]) = some (charUnits c))
  | _ => false

theorem stands_of_standsFor {text : List Char} {c : Char} (h : standsFor text c = true) :
    Stands text c := by
  rw [standsFor.eq_def] at h
  split at h
  · obtain ⟨rfl, hquote, hslash, hctl⟩ := of_decide_eq_true h
    exact stands_self hquote hslash hctl
  · obtain ⟨rfl, hu, hmap⟩ := of_decide_eq_true h
    obtain ⟨u, he, hc⟩ := Option.map_eq_some_iff.mp hmap
    exact stands_unescape hu he hc.symm
  · obtain ⟨rfl, rfl, hmap⟩ := of_decide_eq_true h
    obtain ⟨u, hu, hc⟩ := Option.map_eq_some_iff.mp hmap
    exact stands_hex hu hc.symm
  · cases h

theorem units_eq (s : String) : units s = s.toList.flatMap charUnits := rfl

section Written

-- how the characters of strings are written
variable {esc : Char → List Char}

/-- A string in quotation marks. -/
def quoted (esc : Char → List Char) (s : String) : List Char :=
  '"' :: (s.toList.flatMap esc ++ ['"'])

/-- **A string is read as it was written.** -/
theorem readString_flatMap (hesc : ∀ c, Stands (esc c) c) (chars rest : List Char) :
    readString (chars.flatMap esc ++ '"' :: rest) = some (chars.flatMap charUnits, rest) := by
  induction chars with
  | nil =>
    rw [List.flatMap_nil, List.nil_append, readString.eq_def]
    dsimp only
    rw [if_pos rfl]
    rfl
  | cons c chars ih =>
    rw [List.flatMap_cons, List.append_assoc, hesc c, ih, Option.map_some, List.flatMap_cons]

/-! ### Integers that were written -/

def decimal (n : ℤ) : List Char :=
  if n < 0 then '-' :: Nat.toDigits 10 n.natAbs else Nat.toDigits 10 n.natAbs

/-- No zero stands before another digit. -/
theorem head_toDigits {n : ℕ} (h : 0 < n) : (Nat.toDigits 10 n).head? ≠ some '0' := by
  induction n using Nat.strongRecOn with
  | ind n ih =>
    rw [Nat.toDigits_eq_if (by decide)]
    split
    next hlt =>
      rw [List.head?_cons, ne_eq, Option.some.injEq]
      have hdigit : ∀ k < 10, 0 < k → Nat.digitChar k ≠ '0' := by decide
      exact hdigit n hlt h
    next hlt =>
      have hne : Nat.toDigits 10 (n / 10) ≠ [] := Nat.toDigits_ne_nil
      rw [List.head?_append_of_ne_nil _ hne]
      exact ih (n / 10) (by omega) (by omega)

/-- What may follow a value inside an object or an array. -/
def isSeparator (c : Char) : Bool := c = ',' || c = '\x7d' || c = ']'

theorem separator_cases {c : Char} (h : isSeparator c = true) :
    c = ',' ∨ c = '\x7d' ∨ c = ']' := by
  simpa [isSeparator, or_assoc] using h

theorem readDigits_toDigits (n : ℕ) {c : Char} (hc : isSeparator c = true) (rest : List Char) :
    readDigits (Nat.toDigits 10 n ++ c :: rest) = some (Nat.toDigits 10 n, c :: rest) := by
  have hdigit : ∀ d ∈ (c :: rest).head?, d.isDigit = false := by
    rintro d ⟨⟩
    rcases separator_cases hc with rfl | rfl | rfl <;> rfl
  rw [readDigits, takeWhile_digits isDigit_toDigits hdigit,
    dropWhile_digits isDigit_toDigits hdigit, if_neg Nat.toDigits_ne_nil]

theorem readInt_toDigits (n : ℕ) {c : Char} (hc : isSeparator c = true) (rest : List Char) :
    readInt (Nat.toDigits 10 n ++ c :: rest) = some (Nat.toDigits 10 n, c :: rest) := by
  rcases Nat.eq_zero_or_pos n with rfl | hn
  · rw [Nat.toDigits_zero, readInt]
    rfl
  · rw [readInt, List.head?_append_of_ne_nil _ Nat.toDigits_ne_nil, if_neg (head_toDigits hn),
      readDigits_toDigits n hc]

theorem readMagnitude_toDigits (n : ℕ) {c : Char} (hc : isSeparator c = true)
    (rest : List Char) :
    readMagnitude (Nat.toDigits 10 n ++ c :: rest) = some (n, 0, c :: rest) := by
  have hfrac : readFrac (c :: rest) = some ([], c :: rest) := by
    rcases separator_cases hc with rfl | rfl | rfl <;> rfl
  have hexp : readExp (c :: rest) = some (0, c :: rest) := by
    rcases separator_cases hc with rfl | rfl | rfl <;> rfl
  rw [readMagnitude, readInt_toDigits n hc]
  simp [hfrac, hexp]

/-- **An integer is read as it was written.** -/
theorem readNumber_decimal (n : ℤ) {c : Char} (hc : isSeparator c = true) (rest : List Char) :
    readNumber (decimal n ++ c :: rest) =
      some (⟨(decimal n).flatMap charUnits, some n⟩, c :: rest) := by
  have htake : (decimal n ++ c :: rest).take
      ((decimal n ++ c :: rest).length - (c :: rest).length) = decimal n := by
    rw [List.length_append, Nat.add_sub_cancel, List.take_left]
  have hscaled : ∀ m : ℤ, scaled m 0 = some m := fun m => by simp [scaled]
  by_cases hn : n < 0
  · have hneg : (decimal n ++ c :: rest).head? = some '-' := by rw [decimal, if_pos hn]; rfl
    have hdrop : (decimal n ++ c :: rest).drop 1 = Nat.toDigits 10 n.natAbs ++ c :: rest := by
      rw [decimal, if_pos hn]
      rfl
    rw [readNumber, hneg, hdrop]
    simp only [decide_true, if_true]
    rw [readMagnitude_toDigits _ hc, Option.map_some, htake, hscaled]
    simp only [Option.some.injEq, Prod.mk.injEq, Number.mk.injEq, true_and, and_true]
    omega
  · have hpos : decimal n = Nat.toDigits 10 n.natAbs := if_neg hn
    have hneg : (decimal n ++ c :: rest).head? ≠ some '-' := by
      rw [hpos, List.head?_append_of_ne_nil _ Nat.toDigits_ne_nil]
      intro h
      exact absurd (isDigit_toDigits '-' (List.mem_of_head? h)) (by decide)
    have hmagnitude : readMagnitude (decimal n ++ c :: rest) = some (n.natAbs, 0, c :: rest) := by
      rw [hpos, readMagnitude_toDigits _ hc]
    rw [readNumber]
    simp only [hneg, decide_false, Bool.false_eq_true, if_false]
    rw [hmagnitude, Option.map_some, htake, hscaled]
    simp only [Option.some.injEq, Prod.mk.injEq, Number.mk.injEq, true_and, and_true]
    omega

/-! ### Members that were written -/

/-- The text is read as the value up to a separator, and does not begin with
white space. -/
structure Reads (text : List Char) (value : Value) : Prop where
  read : ∀ fuel c rest, isSeparator c = true →
    readValue (fuel + 1) (text ++ c :: rest) = some (value, c :: rest)
  head : ∃ c more, text = c :: more ∧ isWs c = false

theorem reads_quoted (hesc : ∀ c, Stands (esc c) c) (s : String) :
    Reads (quoted esc s) (.string (units s)) where
  read fuel c rest _ := by
    have htext : quoted esc s ++ c :: rest =
        '"' :: (s.toList.flatMap esc ++ '"' :: (c :: rest)) := by
      simp [quoted]
    rw [htext, readValue, List.head?_cons]
    simp only [List.drop_one, List.tail_cons]
    rw [readString_flatMap hesc, Option.map_some, units_eq]
  head := ⟨'"', _, rfl, rfl⟩

theorem digit_not_ws {c : Char} (h : Char.isDigit c = true) : isWs c = false := by
  rw [Bool.eq_false_iff]
  intro hc
  simp only [isWs, Bool.or_eq_true, decide_eq_true_eq] at hc
  rcases hc with ((rfl | rfl) | rfl) | rfl <;> exact absurd h (by decide)

theorem reads_decimal (n : ℤ) :
    Reads (decimal n) (.number ⟨(decimal n).flatMap charUnits, some n⟩) := by
  obtain ⟨c, more, hcons, hc⟩ : ∃ c more, decimal n = c :: more ∧
      (c = '-' ∨ Char.isDigit c = true) := by
    rw [decimal]
    split
    · exact ⟨_, _, rfl, .inl rfl⟩
    · obtain ⟨c, more, hcons⟩ := List.exists_cons_of_ne_nil (@Nat.toDigits_ne_nil n.natAbs 10)
      exact ⟨c, more, hcons, .inr (isDigit_toDigits c (hcons ▸ List.mem_cons_self))⟩
  constructor
  · intro fuel d rest hd
    have hread := readNumber_decimal n hd rest
    have hhead : (decimal n ++ d :: rest).head? = some c := by rw [hcons]; rfl
    -- no other kind of value begins with this character
    have hother : c ∉ ['"', '[', '\x7b', 'n', 't', 'f'] := by
      intro hmem
      simp only [List.mem_cons, List.not_mem_nil, or_false] at hmem
      rcases hc with rfl | hc
      · exact absurd hmem (by decide)
      · rcases hmem with rfl | rfl | rfl | rfl | rfl | rfl <;> exact absurd hc (by decide)
    simp only [List.mem_cons, not_or] at hother
    rw [readValue, hhead]
    split
    next heq => exact absurd (Option.some.inj heq) hother.1
    next heq => exact absurd (Option.some.inj heq) hother.2.1
    next heq => exact absurd (Option.some.inj heq) hother.2.2.1
    next heq => exact absurd (Option.some.inj heq) hother.2.2.2.1
    next heq => exact absurd (Option.some.inj heq) hother.2.2.2.2.1
    next heq => exact absurd (Option.some.inj heq) hother.2.2.2.2.2.1
    · rw [hread, Option.map_some]
  · refine ⟨c, more, hcons, ?_⟩
    rcases hc with rfl | hc
    · rfl
    · exact digit_not_ws hc

/-- A member: its key, the text of its value, and the value. -/
structure Member where
  key : String
  text : List Char
  value : Value

/-- Members with commas between them. -/
def membersText (esc : Char → List Char) : List Member → List Char
  | [] => []
  | [m] => quoted esc m.key ++ ':' :: m.text
  | m :: next :: ms => quoted esc m.key ++ ':' :: (m.text ++ ',' :: membersText esc (next :: ms))

/-- Every further member is written behind a comma. -/
theorem membersText_cons (m : Member) (ms : List Member) :
    membersText esc (m :: ms) = quoted esc m.key ++ ':' ::
      (m.text ++ ms.flatMap fun m => ',' :: (quoted esc m.key ++ ':' :: m.text)) := by
  induction ms generalizing m with
  | nil => simp [membersText]
  | cons next ms ih =>
    rw [membersText, ih, List.flatMap_cons]
    simp

theorem skipWs_of_head {text : List Char} {c : Char} {rest : List Char} (h : text = c :: rest)
    (hc : isWs c = false) : skipWs text = text := by
  rw [h, skipWs, List.dropWhile_cons_of_neg (by simp [hc])]

/-- A key and the colon are read. -/
theorem readKey_quoted (hesc : ∀ c, Stands (esc c) c) (key : String) {text : List Char} {c : Char}
    {rest : List Char} (h : text = c :: rest) (hc : isWs c = false) :
    readKey (quoted esc key ++ ':' :: text) = some (units key, text) := by
  have htext : quoted esc key ++ ':' :: text =
      '"' :: (key.toList.flatMap esc ++ '"' :: (':' :: text)) := by
    simp [quoted]
  have hcolon : skipWs (':' :: text) = ':' :: text := skipWs_of_head rfl rfl
  rw [htext, readKey, if_pos List.head?_cons, List.drop_one, List.tail_cons,
    readString_flatMap hesc, Option.bind_some]
  dsimp only
  rw [hcolon, if_pos List.head?_cons, List.drop_one, List.tail_cons, skipWs_of_head h hc, units_eq]

/-- **Members are read as they were written.** -/
theorem readMembers_text (hesc : ∀ c, Stands (esc c) c) {ms : List Member}
    (hms : ∀ m ∈ ms, Reads m.text m.value) (hne : ms ≠ []) (extra : ℕ) (rest : List Char) :
    readMembers (ms.length + 1 + extra) (membersText esc ms ++ '\x7d' :: rest) =
      some (ms.map fun m => (units m.key, m.value), rest) := by
  induction ms with
  | nil => exact absurd rfl hne
  | cons m ms ih =>
    have hm := hms m List.mem_cons_self
    obtain ⟨c, more, hhead, hc⟩ := hm.head
    have hfuel : (m :: ms).length + 1 + extra = (ms.length + extra + 1) + 1 := by
      rw [List.length_cons]
      omega
    -- a comma behind the member, or the closing brace
    cases ms with
    | nil =>
      have htext : membersText esc [m] ++ '\x7d' :: rest =
          quoted esc m.key ++ ':' :: (m.text ++ '\x7d' :: rest) := by
        simp [membersText]
      have hhead' : m.text ++ '\x7d' :: rest = c :: (more ++ '\x7d' :: rest) := by rw [hhead]; rfl
      rw [htext, hfuel, readMembers, readKey_quoted hesc m.key hhead' hc, Option.bind_some,
        hm.read _ _ _ rfl, Option.bind_some]
      rfl
    | cons next ms =>
      have htext : membersText esc (m :: next :: ms) ++ '\x7d' :: rest = quoted esc m.key ++
          ':' :: (m.text ++ ',' :: (membersText esc (next :: ms) ++ '\x7d' :: rest)) := by
        simp [membersText]
      have hhead' : m.text ++ ',' :: (membersText esc (next :: ms) ++ '\x7d' :: rest) =
          c :: (more ++ ',' :: (membersText esc (next :: ms) ++ '\x7d' :: rest)) := by
        rw [hhead]
        rfl
      have hrest := ih (fun m' hm' => hms m' (List.mem_cons_of_mem _ hm')) (by simp)
      obtain ⟨tail, htail⟩ : ∃ tail, membersText esc (next :: ms) ++ '\x7d' :: rest =
          '"' :: tail := by
        cases ms <;> exact ⟨_, by rw [membersText, quoted]; rfl⟩
      have hcomma : skipWs (',' :: (membersText esc (next :: ms) ++ '\x7d' :: rest)) =
          ',' :: (membersText esc (next :: ms) ++ '\x7d' :: rest) := skipWs_of_head rfl rfl
      rw [htext, hfuel, readMembers, readKey_quoted hesc m.key hhead' hc, Option.bind_some,
        hm.read _ _ _ rfl, Option.bind_some]
      dsimp only
      rw [hcomma, List.head?_cons, if_neg (by decide), if_pos rfl, List.drop_one, List.tail_cons,
        skipWs_of_head htail rfl]
      have hfuel' : (next :: ms).length + extra + 1 = (next :: ms).length + 1 + extra := by omega
      rw [hfuel', hrest]
      rfl

theorem length_membersText (ms : List Member) : ms.length ≤ (membersText esc ms).length := by
  induction ms with
  | nil => exact Nat.zero_le _
  | cons m ms ih =>
    cases ms with
    | nil => simp [membersText, quoted]
    | cons next ms =>
      rw [membersText]
      simp only [List.length_append, List.length_cons] at ih ⊢
      omega

/-- **The text of an object is read with exactly its members**, in their order. -/
theorem parse_objectText (hesc : ∀ c, Stands (esc c) c) {ms : List Member}
    (hms : ∀ m ∈ ms, Reads m.text m.value) (hne : ms ≠ []) :
    parse ('\x7b' :: (membersText esc ms ++ ['\x7d'])) =
      some (.object (ms.map fun m => (units m.key, m.value))) := by
  obtain ⟨tail, htail⟩ : ∃ tail, membersText esc ms ++ ['\x7d'] = '"' :: tail := by
    obtain ⟨m, ms, rfl⟩ := List.exists_cons_of_ne_nil hne
    cases ms <;> exact ⟨_, by rw [membersText, quoted]; rfl⟩
  have hlen := @length_membersText esc ms
  obtain ⟨extra, hextra⟩ : ∃ extra, (membersText esc ms ++ ['\x7d']).length + 1 =
      ms.length + 1 + extra := by
    refine ⟨(membersText esc ms).length + 1 - ms.length, ?_⟩
    rw [List.length_append, List.length_singleton]
    omega
  have hopen : skipWs ('\x7b' :: (membersText esc ms ++ ['\x7d'])) =
      '\x7b' :: (membersText esc ms ++ ['\x7d']) := skipWs_of_head rfl rfl
  rw [parse, hopen, readValue, List.head?_cons, List.drop_one, List.tail_cons,
    skipWs_of_head htail rfl]
  rw [htail, List.head?_cons, if_neg (by decide), ← htail, List.length_cons, hextra,
    readMembers_text hesc hms hne extra []]
  rfl

end Written

end Json
