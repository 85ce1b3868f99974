/-
JSON texts that are put together from the texts of their parts.

A part may also be a text that is not JSON, such as `nan`; then nothing is read.

* `Parses` — what a text is read as up to a separator, given a step for each character;
* `itemsText`, `arrayText`, `objectText` — parts between commas and brackets;
* **`parses_array`**, **`parses_object`** — they are read as their parts are, or not at all
  if one of these is not;
* `pointText` — a number with a fixed number of decimals, **`parses_point`** — how it is
  read, **`rational_point`** — and its value.
-/
import Mathlib.Algebra.Order.Field.Rat
import Mathlib.Tactic.FieldSimp
import Mathlib.Tactic.Ring
import IpcMini.JsonReader

namespace Json

open Decimals (isDigit_toDigits isDigit_leftpad takeWhile_digits dropWhile_digits length_leftpad)

/-! ### Texts that are read up to a separator -/

/-- The text is read as the value, or as none. -/
structure Parses (text : List Char) (result : Option Value) : Prop where
  read : ∀ fuel c rest, isSeparator c = true → text.length ≤ fuel →
    readValue (fuel + 1) (text ++ c :: rest) = result.map fun value => (value, c :: rest)
  head : ∃ c more, text = c :: more ∧ isWs c = false ∧ c ≠ ']'

theorem Reads.parses {text : List Char} {value : Value} (h : Reads text value) :
    Parses text (some value) where
  read fuel c rest hc _ := h.read fuel c rest hc
  head := by
    obtain ⟨c, more, rfl, hws⟩ := h.head
    refine ⟨c, more, rfl, hws, ?_⟩
    rintro rfl
    -- no value begins with a bracket that closes
    have hread := h.read 0 ',' [] rfl
    simp [readValue, readNumber, readMagnitude, readInt, readDigits] at hread

theorem parses_decimal (n : ℤ) :
    Parses (decimal n) (some (.number ⟨(decimal n).flatMap charUnits, some n⟩)) :=
  (reads_decimal n).parses

/-- Texts with commas between them. -/
def itemsText : List (List Char) → List Char
  | [] => []
  | [t] => t
  | t :: u :: ts => t ++ ',' :: itemsText (u :: ts)

theorem Parses.length_pos {text : List Char} {result : Option Value} (h : Parses text result) :
    0 < text.length := by
  obtain ⟨c, more, rfl, -⟩ := h.head
  exact Nat.succ_pos _

/-! ### Arrays -/

/-- Texts, and what they are read as. -/
abbrev Items := List (List Char × Option Value)

def arrayText (items : Items) : List Char := '[' :: (itemsText (items.map Prod.fst) ++ [']'])

theorem items_head {items : Items} (h : ∀ item ∈ items, Parses item.1 item.2) (hne : items ≠ [])
    (rest : List Char) : ∃ c more, itemsText (items.map Prod.fst) ++ rest = c :: more ∧
      isWs c = false ∧ c ≠ ']' := by
  obtain ⟨item, items, rfl⟩ := List.exists_cons_of_ne_nil hne
  obtain ⟨c, more, hhead, hc⟩ := (h item List.mem_cons_self).head
  cases items with
  | nil => exact ⟨c, more ++ rest, by simp [itemsText, hhead], hc⟩
  | cons next items =>
    exact ⟨c, _, by rw [List.map_cons, List.map_cons, itemsText, hhead]; rfl, hc⟩

/-- Items are read one after the other, up to the first that is not. -/
theorem readItems_text {items : Items} (h : ∀ item ∈ items, Parses item.1 item.2)
    (hne : items ≠ []) {fuel : ℕ} (hfuel : (itemsText (items.map Prod.fst)).length < fuel)
    (rest : List Char) :
    readItems (fuel + 1) (itemsText (items.map Prod.fst) ++ ']' :: rest) =
      (items.mapM Prod.snd).map fun values => (values, rest) := by
  induction items generalizing fuel with
  | nil => exact absurd rfl hne
  | cons item items ih =>
    have hitem := h item List.mem_cons_self
    obtain ⟨fuel, rfl⟩ : ∃ f, fuel = f + 1 := ⟨fuel - 1, by omega⟩
    cases items with
    | nil =>
      have hlen : item.1.length ≤ fuel := by
        simp only [List.map_cons, List.map_nil, itemsText] at hfuel
        omega
      simp only [List.map_cons, List.map_nil, itemsText]
      rw [readItems, hitem.read _ _ _ rfl hlen, List.mapM_cons, List.mapM_nil]
      cases item.2 <;> rfl
    | cons next items =>
      have hlen : item.1.length + (itemsText (next.1 :: items.map Prod.fst)).length < fuel := by
        simp only [List.map_cons, itemsText, List.length_append, List.length_cons] at hfuel
        omega
      have htext : itemsText ((item :: next :: items).map Prod.fst) ++ ']' :: rest = item.1 ++
          ',' :: (itemsText ((next :: items).map Prod.fst) ++ ']' :: rest) := by
        simp [itemsText]
      have hcomma : skipWs (',' :: (itemsText ((next :: items).map Prod.fst) ++ ']' :: rest)) =
          ',' :: (itemsText ((next :: items).map Prod.fst) ++ ']' :: rest) :=
        skipWs_of_head rfl rfl
      have hrest := fun item' hmem => h item' (List.mem_cons_of_mem _ hmem)
      obtain ⟨c, more, hhead, hc, -⟩ := items_head hrest (by simp) (']' :: rest)
      rw [htext, readItems, hitem.read _ _ _ rfl (by omega), List.mapM_cons]
      cases item.2 with
      | none => rfl
      | some value =>
        rw [Option.map_some, Option.bind_some]
        dsimp only
        rw [hcomma, List.head?_cons, if_neg (by decide), if_pos rfl, List.drop_one, List.tail_cons,
          skipWs_of_head hhead hc,
          ih hrest (by simp) (by have := hitem.length_pos; simp only [List.map_cons]; omega)]
        simp only [Option.map_map, Option.pure_def, Option.bind_eq_bind, Option.bind_some]
        cases (next :: items).mapM Prod.snd <;> rfl

/-- **An array is read as its items are.** -/
theorem parses_array {items : Items} (h : ∀ item ∈ items, Parses item.1 item.2) :
    Parses (arrayText items) ((items.mapM Prod.snd).map .array) where
  read := by
    intro fuel c rest _ hfuel
    rw [arrayText, List.length_cons, List.length_append, List.length_singleton] at hfuel
    rcases eq_or_ne items [] with rfl | hne
    · simp [arrayText, itemsText, readValue, skipWs, isWs]
    · have htext : arrayText items ++ c :: rest =
          '[' :: (itemsText (items.map Prod.fst) ++ ']' :: (c :: rest)) := by
        simp [arrayText]
      obtain ⟨d, more, hhead, hd, hbracket⟩ := items_head h hne (']' :: (c :: rest))
      obtain ⟨fuel, rfl⟩ : ∃ f, fuel = f + 1 := ⟨fuel - 1, by omega⟩
      rw [htext, readValue, List.head?_cons, List.drop_one, List.tail_cons,
        skipWs_of_head hhead hd]
      rw [hhead, List.head?_cons, if_neg (by simpa using hbracket), ← hhead,
        readItems_text h hne (by omega)]
      cases items.mapM Prod.snd <;> rfl
  head := ⟨'[', _, rfl, rfl, by decide⟩

/-! ### Objects -/

/-- The character stands for itself in a string. -/
def isPlain (c : Char) : Bool := decide (c ≠ '"' ∧ c ≠ '\\' ∧ 0x20 ≤ c.toNat)

theorem readString_plain {chars : List Char} (h : ∀ c ∈ chars, isPlain c = true)
    (rest : List Char) :
    readString (chars ++ '"' :: rest) = some (chars.flatMap charUnits, rest) := by
  induction chars with
  | nil =>
    rw [List.nil_append, readString.eq_def]
    dsimp only
    rw [if_pos rfl]
    rfl
  | cons c chars ih =>
    obtain ⟨hquote, hslash, hctl⟩ := of_decide_eq_true (h c List.mem_cons_self)
    have hstands := stands_self hquote hslash hctl (chars ++ '"' :: rest)
    rw [List.singleton_append] at hstands
    rw [List.cons_append, hstands, ih fun d hd => h d (List.mem_cons_of_mem _ hd), Option.map_some,
      List.flatMap_cons]

/-- A member: its key, as it is written and as it is read, the text of its value, and what
that is read as. -/
structure MemberText where
  key : Units
  keyText : List Char
  text : List Char
  result : Option Value
  readsKey : ∀ rest, readString (keyText ++ '"' :: rest) = some (key, rest)

/-- A member with a key that is written as it is. -/
def plainMember (key : String) (text : List Char) (result : Option Value)
    (h : key.toList.all isPlain = true) : MemberText where
  key := units key
  keyText := key.toList
  text := text
  result := result
  readsKey := readString_plain (List.all_eq_true.mp h)

namespace MemberText

/-- The text of a member. -/
def textOf (keyText text : List Char) : List Char := '"' :: (keyText ++ '"' :: ':' :: text)

def memberText (m : MemberText) : List Char := textOf m.keyText m.text

def member (m : MemberText) : Option (Units × Value) := m.result.map fun value => (m.key, value)

/-- A key and the colon are read. -/
theorem readKey (m : MemberText) (h : Parses m.text m.result) (rest : List Char) :
    readKey (m.memberText ++ rest) = some (m.key, m.text ++ rest) := by
  obtain ⟨c, more, htext, hc, -⟩ := h.head
  have hhead : m.text ++ rest = c :: (more ++ rest) := by rw [htext]; rfl
  have hcolon : skipWs (':' :: (m.text ++ rest)) = ':' :: (m.text ++ rest) :=
    skipWs_of_head rfl rfl
  have happend : m.memberText ++ rest =
      '"' :: (m.keyText ++ '"' :: (':' :: (m.text ++ rest))) := by
    simp [memberText, textOf]
  rw [happend, Json.readKey, if_pos List.head?_cons, List.drop_one, List.tail_cons, m.readsKey,
    Option.bind_some]
  dsimp only
  rw [hcolon, if_pos List.head?_cons, List.drop_one, List.tail_cons, skipWs_of_head hhead hc]

theorem length_text_lt (m : MemberText) : m.text.length < m.memberText.length := by
  rw [memberText, textOf]
  simp only [List.length_cons, List.length_append]
  omega

end MemberText

def objectText (ms : List MemberText) : List Char :=
  '\x7b' :: (itemsText (ms.map MemberText.memberText) ++ ['\x7d'])

/-- Members are read one after the other, up to the first that is not. -/
theorem readMembers_entries {ms : List MemberText} (h : ∀ m ∈ ms, Parses m.text m.result)
    (hne : ms ≠ []) {fuel : ℕ}
    (hfuel : (itemsText (ms.map MemberText.memberText)).length < fuel) (rest : List Char) :
    readMembers (fuel + 1) (itemsText (ms.map MemberText.memberText) ++ '\x7d' :: rest) =
      (ms.mapM MemberText.member).map fun members => (members, rest) := by
  induction ms generalizing fuel with
  | nil => exact absurd rfl hne
  | cons m ms ih =>
    have hm := h m List.mem_cons_self
    have hlt := m.length_text_lt
    obtain ⟨fuel, rfl⟩ : ∃ f, fuel = f + 1 := ⟨fuel - 1, by omega⟩
    cases ms with
    | nil =>
      have hlen : m.text.length ≤ fuel := by
        simp only [List.map_cons, List.map_nil, itemsText] at hfuel
        omega
      simp only [List.map_cons, List.map_nil, itemsText]
      rw [readMembers, m.readKey hm, Option.bind_some, hm.read _ _ _ rfl hlen, List.mapM_cons,
        MemberText.member]
      cases m.result <;> rfl
    | cons next ms =>
      have hlen : m.memberText.length +
          (itemsText (next.memberText :: ms.map MemberText.memberText)).length < fuel := by
        simp only [List.map_cons, itemsText, List.length_append, List.length_cons] at hfuel
        omega
      have htext : itemsText ((m :: next :: ms).map MemberText.memberText) ++ '\x7d' :: rest =
          m.memberText ++
            ',' :: (itemsText ((next :: ms).map MemberText.memberText) ++ '\x7d' :: rest) := by
        simp [itemsText]
      have hcomma : skipWs
          (',' :: (itemsText ((next :: ms).map MemberText.memberText) ++ '\x7d' :: rest)) =
            ',' :: (itemsText ((next :: ms).map MemberText.memberText) ++ '\x7d' :: rest) :=
        skipWs_of_head rfl rfl
      -- the next key begins with a quotation mark
      obtain ⟨tail, htail⟩ : ∃ tail,
          itemsText ((next :: ms).map MemberText.memberText) ++ '\x7d' :: rest = '"' :: tail := by
        cases ms <;> exact ⟨_, by rw [List.map_cons]; rfl⟩
      rw [htext, readMembers, m.readKey hm, Option.bind_some, hm.read _ _ _ rfl (by omega),
        List.mapM_cons, MemberText.member]
      cases m.result with
      | none => rfl
      | some value =>
        rw [Option.map_some, Option.bind_some]
        dsimp only
        rw [hcomma, List.head?_cons, if_neg (by decide), if_pos rfl, List.drop_one, List.tail_cons,
          skipWs_of_head htail rfl, ih (fun m' hm' => h m' (List.mem_cons_of_mem _ hm')) (by simp)
            (by simp only [List.map_cons]; omega)]
        simp only [Option.map_map, Option.pure_def, Option.bind_eq_bind, Option.bind_some,
          Option.map_some]
        cases (next :: ms).mapM MemberText.member <;> rfl

/-- An object is read whatever stands behind it. -/
theorem readObject_text {ms : List MemberText} (h : ∀ m ∈ ms, Parses m.text m.result) {fuel : ℕ}
    (hfuel : (objectText ms).length ≤ fuel) (rest : List Char) :
    readValue (fuel + 1) (objectText ms ++ rest) =
      ((ms.mapM MemberText.member).map Value.object).map fun value => (value, rest) := by
  rw [objectText, List.length_cons, List.length_append, List.length_singleton] at hfuel
  have htext : objectText ms ++ rest =
      '\x7b' :: (itemsText (ms.map MemberText.memberText) ++ '\x7d' :: rest) := by
    simp [objectText]
  rw [htext, readValue, List.head?_cons, List.drop_one, List.tail_cons]
  cases ms with
  | nil => simp [itemsText, skipWs, isWs]
  | cons m ms =>
    obtain ⟨tail, htail⟩ : ∃ tail,
        itemsText ((m :: ms).map MemberText.memberText) ++ '\x7d' :: rest = '"' :: tail := by
      cases ms <;> exact ⟨_, by rw [List.map_cons]; rfl⟩
    obtain ⟨fuel, rfl⟩ : ∃ f, fuel = f + 1 := ⟨fuel - 1, by omega⟩
    rw [skipWs_of_head htail rfl, htail, List.head?_cons, if_neg (by decide), ← htail,
      readMembers_entries h (by simp) (by omega)]
    cases (m :: ms).mapM MemberText.member <;> rfl

/-- **An object is read as its members are.** -/
theorem parses_object {ms : List MemberText} (h : ∀ m ∈ ms, Parses m.text m.result) :
    Parses (objectText ms) ((ms.mapM MemberText.member).map .object) where
  read _ c rest _ hfuel := readObject_text h hfuel (c :: rest)
  head := ⟨'\x7b', _, rfl, rfl, by decide⟩

theorem parse_object {ms : List MemberText} (h : ∀ m ∈ ms, Parses m.text m.result) :
    parse (objectText ms) = (ms.mapM MemberText.member).map .object := by
  have hopen : skipWs (objectText ms) = objectText ms := skipWs_of_head rfl rfl
  have hread := readObject_text h le_rfl []
  rw [List.append_nil] at hread
  rw [parse, hopen, hread]
  cases ms.mapM MemberText.member <;> rfl

/-! ### Numbers with decimals -/

/-- The value of a number. -/
def Number.rational (n : Number) : Option ℚ :=
  let chars := n.text.map fun u => Char.ofNat u.toNat
  let negative := decide (chars.head? = some '-')
  (readMagnitude (if negative then chars.drop 1 else chars)).map fun r =>
    (if negative then -(r.1 : ℚ) else r.1) * (10 : ℚ) ^ r.2.1

/-- A number with `width` decimals, which stand for `n`. -/
def pointText (negative : Bool) (m n width : ℕ) : List Char :=
  (if negative then ['-'] else []) ++
    (Nat.toDigits 10 m ++ '.' :: List.leftpad width '0' (Nat.toDigits 10 n))

def pointNumber (negative : Bool) (m n width : ℕ) : Number :=
  let digits : ℤ := m * 10 ^ width + n
  ⟨(pointText negative m n width).flatMap charUnits,
    scaled (if negative then -digits else digits) (-width)⟩

/-- A number ends before the text. -/
def Ends (rest : List Char) : Prop :=
  ∀ c ∈ rest.head?, c.isDigit = false ∧ c ≠ 'e' ∧ c ≠ 'E'

theorem ends_separator {c : Char} (hc : isSeparator c = true) (rest : List Char) :
    Ends (c :: rest) := by
  rintro d ⟨⟩
  rcases separator_cases hc with rfl | rfl | rfl <;> decide

variable {n width : ℕ} {rest : List Char}

theorem readMagnitude_point (m : ℕ) (h : n < 10 ^ width) (hwidth : 0 < width)
    (hrest : Ends rest) :
    readMagnitude (Nat.toDigits 10 m ++
        '.' :: (List.leftpad width '0' (Nat.toDigits 10 n) ++ rest)) =
      some (m * 10 ^ width + n, -(width : ℤ), rest) := by
  have hlen := length_leftpad h hwidth
  have hpoint : ∀ c ∈ ('.' :: (List.leftpad width '0' (Nat.toDigits 10 n) ++ rest)).head?,
      c.isDigit = false := by
    rintro c ⟨⟩
    rfl
  have hint : readInt (Nat.toDigits 10 m ++
      '.' :: (List.leftpad width '0' (Nat.toDigits 10 n) ++ rest)) =
        some (Nat.toDigits 10 m, '.' :: (List.leftpad width '0' (Nat.toDigits 10 n) ++ rest)) := by
    rcases Nat.eq_zero_or_pos m with rfl | hm
    · rw [Nat.toDigits_zero, readInt]
      rfl
    · rw [readInt, List.head?_append_of_ne_nil _ Nat.toDigits_ne_nil, if_neg (head_toDigits hm),
        readDigits, takeWhile_digits isDigit_toDigits hpoint,
        dropWhile_digits isDigit_toDigits hpoint, if_neg Nat.toDigits_ne_nil]
  have hfrac : readFrac ('.' :: (List.leftpad width '0' (Nat.toDigits 10 n) ++ rest)) =
      some (List.leftpad width '0' (Nat.toDigits 10 n), rest) := by
    have hne : List.leftpad width '0' (Nat.toDigits 10 n) ≠ [] := by
      intro he
      rw [he] at hlen
      exact hwidth.ne hlen
    have hdigit : ∀ c ∈ rest.head?, c.isDigit = false := fun c hc => (hrest c hc).1
    rw [readFrac, if_pos List.head?_cons, List.drop_one, List.tail_cons, readDigits,
      takeWhile_digits isDigit_leftpad hdigit, dropWhile_digits isDigit_leftpad hdigit, if_neg hne]
  have hexp : readExp rest = some (0, rest) := by
    refine if_neg ?_
    rintro (he | he)
    · exact (hrest _ he).2.1 rfl
    · exact (hrest _ he).2.2 rfl
  have hdigits : Nat.ofDigitChars 10
      (Nat.toDigits 10 m ++ List.leftpad width '0' (Nat.toDigits 10 n)) 0 = m * 10 ^ width + n := by
    have hpad : Nat.ofDigitChars 10 (List.leftpad width '0' (Nat.toDigits 10 n)) 0 = n := by
      rw [List.leftpad, Nat.ofDigitChars_append, Nat.ofDigitChars_replicate_zero, Nat.mul_zero]
      exact Nat.ofDigitChars_ten_toDigits
    rw [Nat.ofDigitChars_append, Nat.ofDigitChars_ten_toDigits,
      Nat.ofDigitChars_eq_ofDigitChars_zero, hpad, hlen, Nat.mul_comm]
  rw [readMagnitude, hint, Option.bind_some]
  dsimp only
  rw [hfrac, Option.bind_some]
  dsimp only
  rw [hexp, Option.map_some, hdigits, hlen]
  simp

theorem head_pointText (m : ℕ) (rest : List Char) :
    (Nat.toDigits 10 m ++ rest).head? ≠ some '-' := by
  rw [List.head?_append_of_ne_nil _ Nat.toDigits_ne_nil]
  intro h
  exact absurd (isDigit_toDigits '-' (List.mem_of_head? h)) (by decide)

theorem readNumber_point (negative : Bool) (m : ℕ) (h : n < 10 ^ width) (hwidth : 0 < width)
    (hrest : Ends rest) :
    readNumber (pointText negative m n width ++ rest) =
      some (pointNumber negative m n width, rest) := by
  have hmagnitude := readMagnitude_point m h hwidth hrest
  have htake : (pointText negative m n width ++ rest).take
      ((pointText negative m n width ++ rest).length - rest.length) =
        pointText negative m n width := by
    rw [List.length_append, Nat.add_sub_cancel, List.take_left]
  cases negative with
  | true =>
    have htext : pointText true m n width ++ rest = '-' :: (Nat.toDigits 10 m ++
        '.' :: (List.leftpad width '0' (Nat.toDigits 10 n) ++ rest)) := by
      simp [pointText]
    rw [readNumber, htext, List.head?_cons, decide_eq_true rfl, if_pos rfl, List.drop_one,
      List.tail_cons, hmagnitude, Option.map_some]
    dsimp only
    rw [← htext, htake]
    simp [pointNumber]
  | false =>
    have htext : pointText false m n width ++ rest = Nat.toDigits 10 m ++
        '.' :: (List.leftpad width '0' (Nat.toDigits 10 n) ++ rest) := by
      simp [pointText]
    rw [readNumber, htext, decide_eq_false (head_pointText _ _), if_neg (by decide), hmagnitude,
      Option.map_some]
    dsimp only
    rw [← htext, htake]
    simp [pointNumber]

/-- What a number with decimals begins with. -/
theorem pointText_head (negative : Bool) (m n width : ℕ) :
    ∃ c more, pointText negative m n width = c :: more ∧ (c = '-' ∨ Char.isDigit c = true) := by
  cases negative with
  | true => exact ⟨'-', _, rfl, .inl rfl⟩
  | false =>
    obtain ⟨c, more, hcons⟩ := List.exists_cons_of_ne_nil (@Nat.toDigits_ne_nil m 10)
    refine ⟨c, more ++ '.' :: List.leftpad width '0' (Nat.toDigits 10 n), ?_, .inr ?_⟩
    · simp [pointText, hcons]
    · exact isDigit_toDigits c (hcons ▸ List.mem_cons_self)

/-- **A number with decimals is read.** -/
theorem parses_point (negative : Bool) (m : ℕ) (h : n < 10 ^ width) (hwidth : 0 < width) :
    Parses (pointText negative m n width) (some (.number (pointNumber negative m n width))) := by
  obtain ⟨c, more, hcons, hc⟩ := pointText_head negative m n width
  have hother : ∀ d ∈ ['"', '[', '\x7b', 'n', 't', 'f', ']'], c ≠ d := by
    rcases hc with rfl | hc
    · simp only [List.mem_cons, List.not_mem_nil, or_false]
      rintro d (rfl | rfl | rfl | rfl | rfl | rfl | rfl) <;> decide
    · rintro d hd rfl
      have hnone : ['"', '[', '\x7b', 'n', 't', 'f', ']'].all (fun d => !d.isDigit) = true := by
        decide
      have hdigit := List.all_eq_true.mp hnone c hd
      rw [hc] at hdigit
      cases hdigit
  constructor
  · intro fuel d rest hd _
    have hread := readNumber_point negative m h hwidth (ends_separator hd rest)
    have hhead : (pointText negative m n width ++ d :: rest).head? = some c := by
      rw [hcons]
      rfl
    rw [readValue, hhead]
    -- no other kind of value begins with this character
    split
    next heq => exact absurd (Option.some.inj heq) (hother _ (by decide))
    next heq => exact absurd (Option.some.inj heq) (hother _ (by decide))
    next heq => exact absurd (Option.some.inj heq) (hother _ (by decide))
    next heq => exact absurd (Option.some.inj heq) (hother _ (by decide))
    next heq => exact absurd (Option.some.inj heq) (hother _ (by decide))
    next heq => exact absurd (Option.some.inj heq) (hother _ (by decide))
    · rw [hread]
      rfl
  · refine ⟨c, more, hcons, ?_, hother _ (by decide)⟩
    rcases hc with rfl | hc
    · rfl
    · exact digit_not_ws hc

/-- Characters of one code unit each are read back. -/
theorem map_units {chars : List Char} (h : ∀ c ∈ chars, c.toNat < 0x10000) :
    ((chars.flatMap charUnits).map fun u => Char.ofNat u.toNat) = chars := by
  induction chars with
  | nil => rfl
  | cons c chars ih =>
    have hc := h c List.mem_cons_self
    have hunits : charUnits c = [.ofNat c.toNat] := if_pos hc
    have hunit : (UInt16.ofNat c.toNat).toNat = c.toNat := UInt16.toNat_ofNat_of_lt hc
    rw [List.flatMap_cons, hunits, List.singleton_append, List.map_cons, hunit, Char.ofNat_toNat,
      ih fun d hd => h d (List.mem_cons_of_mem _ hd)]

theorem digit_lt {c : Char} (h : c.isDigit = true) : c.toNat < 0x10000 := by
  have hle : c.toNat ≤ 57 := by
    simp only [Char.isDigit, Bool.and_eq_true, decide_eq_true_eq] at h
    exact h.2
  omega

/-- **The value of a number with decimals.** -/
theorem rational_point (negative : Bool) (m : ℕ) (h : n < 10 ^ width) (hwidth : 0 < width) :
    (pointNumber negative m n width).rational =
      some ((if negative then -1 else 1) * ((m : ℚ) + n / 10 ^ width)) := by
  have hchars : ∀ c ∈ pointText negative m n width, c.toNat < 0x10000 := by
    intro c hc
    rw [pointText, List.mem_append, List.mem_append, List.mem_cons] at hc
    rcases hc with hsign | hdigit | rfl | hdigit
    · cases negative with
      | true => exact List.mem_singleton.mp hsign ▸ by decide
      | false => cases hsign
    · exact digit_lt (isDigit_toDigits c hdigit)
    · decide
    · exact digit_lt (isDigit_leftpad c hdigit)
  have hends : Ends [] := fun c hc => by cases hc
  have hmagnitude := readMagnitude_point m h hwidth hends
  have hpow : (10 : ℚ) ^ width ≠ 0 := pow_ne_zero _ (by norm_num)
  rw [Number.rational, pointNumber]
  dsimp only
  rw [map_units hchars]
  rw [List.append_nil] at hmagnitude
  cases negative with
  | true =>
    have htext : pointText true m n width = '-' :: (Nat.toDigits 10 m ++
        '.' :: List.leftpad width '0' (Nat.toDigits 10 n)) := rfl
    rw [htext, List.head?_cons, decide_eq_true rfl, if_pos rfl, List.drop_one, List.tail_cons,
      hmagnitude, Option.map_some, if_pos rfl, if_pos rfl, zpow_neg, zpow_natCast]
    push_cast
    congr 1
    field_simp
  | false =>
    have htext : pointText false m n width = Nat.toDigits 10 m ++
        '.' :: List.leftpad width '0' (Nat.toDigits 10 n) := rfl
    rw [htext, decide_eq_false (head_pointText _ _), if_neg (by decide), hmagnitude,
      Option.map_some, if_neg (by decide), if_neg (by decide), zpow_neg, zpow_natCast]
    push_cast
    congr 1
    field_simp

end Json
