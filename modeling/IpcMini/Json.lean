/-
JSON as JavaScript writes it.

Strings are lists of UTF-16 code units, which need not be well formed.
`JSON.stringify` escapes a surrogate that stands alone, so that its text can be
encoded in UTF-8.

* `Value` — what `JSON.parse` returns, with the members of an object in their
  order;
* `stringify`, `utf8` — the text of a value, and its bytes;
* `setMember` — a property of an object literal;
* **`length_le_bytes`**, **`member_le_stringify`** — the bytes of a text are at
  least as many as the code units of every string in it.
-/
import Mathlib.Data.Int.Notation
import Mathlib.Data.List.Basic
import Mathlib.Data.Nat.Notation
import Mathlib.Tactic.Common

namespace Json

/-- A string of JavaScript. -/
abbrev Units := List UInt16

/-- A number, as the text that stands for it, and its value if it is an
integer. -/
structure Number where
  text : Units
  integer : Option ℤ
  deriving DecidableEq, Repr

inductive Value
  | null
  | bool (b : Bool)
  | number (n : Number)
  | string (s : Units)
  | array (items : List Value)
  | object (members : List (Units × Value))

/-- The members of an object, in order. -/
abbrev Object := List (Units × Value)

/-! ### Strings -/

/-- A lead surrogate. -/
def isLead (u : UInt16) : Bool := decide (0xD800 ≤ u.toNat ∧ u.toNat ≤ 0xDBFF)

/-- A trail surrogate. -/
def isTrail (u : UInt16) : Bool := decide (0xDC00 ≤ u.toNat ∧ u.toNat ≤ 0xDFFF)

/-- The code units of a text. -/
def units (s : String) : Units :=
  s.toList.flatMap fun c =>
    if c.toNat < 0x10000 then [.ofNat c.toNat]
    else [.ofNat (0xD800 + (c.toNat - 0x10000) / 0x400),
      .ofNat (0xDC00 + (c.toNat - 0x10000) % 0x400)]

/-- Code units that are characters, as a text. -/
def text (s : Units) : String := String.ofList (s.map fun u => Char.ofNat u.toNat)

/-- A hexadecimal digit, in lower case. -/
def hexDigit (n : ℕ) : UInt16 := .ofNat (if n < 10 then 48 + n else 87 + n)

/-- `\\u` and four hexadecimal digits. -/
def unicodeEscape (u : UInt16) : Units :=
  [92, 117, hexDigit (u.toNat / 4096), hexDigit (u.toNat / 256 % 16),
    hexDigit (u.toNat / 16 % 16), hexDigit (u.toNat % 16)]

/-- A code unit that is not part of a surrogate pair. -/
def escape (u : UInt16) : Units :=
  if u = 8 then [92, 98]
  else if u = 9 then [92, 116]
  else if u = 10 then [92, 110]
  else if u = 12 then [92, 102]
  else if u = 13 then [92, 114]
  else if u = 34 then [92, 34]
  else if u = 92 then [92, 92]
  else if u < 32 || isLead u || isTrail u then unicodeEscape u
  else [u]

/-- `QuoteJSONString`, without the quotation marks. -/
def quoteBody : Units → Units
  | [] => []
  | [u] => escape u
  | u :: v :: rest =>
    if isLead u && isTrail v then u :: v :: quoteBody rest
    else escape u ++ quoteBody (v :: rest)

def quote (s : Units) : Units := 34 :: quoteBody s ++ [34]

/-! ### Values -/

mutual

/-- `JSON.stringify`. -/
def stringify : Value → Units
  | .null => units "null"
  | .bool true => units "true"
  | .bool false => units "false"
  | .number n => n.text
  | .string s => quote s
  | .array items => 91 :: stringifyItems items ++ [93]
  | .object members => 123 :: stringifyMembers members ++ [125]

def stringifyItems : List Value → Units
  | [] => []
  | [item] => stringify item
  | item :: next :: items => stringify item ++ 44 :: stringifyItems (next :: items)

def stringifyMembers : List (Units × Value) → Units
  | [] => []
  | [(key, value)] => quote key ++ 58 :: stringify value
  | (key, value) :: next :: members =>
    quote key ++ 58 :: stringify value ++ 44 :: stringifyMembers (next :: members)

end

/-- The value of a property; `none` is `undefined`. -/
def Object.field (members : Object) (key : Units) : Option Value := members.lookup key

/-- `{ ...members, key: value }`. -/
def Object.setMember (members : Object) (key : Units) (value : Value) : Object :=
  if members.any (·.1 = key) then
    members.map fun member => if member.1 = key then (key, value) else member
  else members ++ [(key, value)]

/-! ### Bytes -/

/-- The UTF-8 encoding of a code unit that is not part of a pair; a surrogate is
replaced. -/
def utf8Unit (u : UInt16) : List UInt8 :=
  let n := u.toNat
  if n < 0x80 then [.ofNat n]
  else if n < 0x800 then [.ofNat (0xC0 + n / 64), .ofNat (0x80 + n % 64)]
  else if isLead u || isTrail u then [0xEF, 0xBF, 0xBD]
  else [.ofNat (0xE0 + n / 4096), .ofNat (0x80 + n / 64 % 64), .ofNat (0x80 + n % 64)]

def utf8 : Units → List UInt8
  | [] => []
  | [u] => utf8Unit u
  | u :: v :: rest =>
    if isLead u && isTrail v then
      let n := 0x10000 + (u.toNat - 0xD800) * 0x400 + (v.toNat - 0xDC00)
      .ofNat (0xF0 + n / 0x40000) :: .ofNat (0x80 + n / 4096 % 64) ::
        .ofNat (0x80 + n / 64 % 64) :: .ofNat (0x80 + n % 64) :: utf8 rest
    else utf8Unit u ++ utf8 (v :: rest)

/-- The bytes of the text of a value. -/
def bytes (value : Value) : List UInt8 := utf8 (stringify value)

/-- Other members stay. -/
theorem Object.mem_setMember {members : Object} {other : Units} {v : Value} (key : Units)
    (value : Value) (h : (other, v) ∈ members) (hne : other ≠ key) :
    (other, v) ∈ members.setMember key value := by
  rw [setMember]
  split
  · exact List.mem_map.mpr ⟨(other, v), h, by rw [if_neg hne]⟩
  · exact List.mem_append_left _ h

/-! ### Lengths -/

theorem one_le_escape (u : UInt16) : 1 ≤ (escape u).length := by
  unfold escape
  split_ifs <;> simp [unicodeEscape]

theorem one_le_utf8Unit (u : UInt16) : 1 ≤ (utf8Unit u).length := by
  unfold utf8Unit
  dsimp only
  split_ifs <;> simp

/-- No code unit is lost when a string is quoted. -/
theorem length_le_quoteBody (s : Units) : s.length ≤ (quoteBody s).length := by
  induction s using quoteBody.induct with
  | case1 => simp [quoteBody]
  | case2 u => simpa [quoteBody] using one_le_escape u
  | case3 u v rest h ih =>
    rw [quoteBody, if_pos h]
    simp only [List.length_cons]
    omega
  | case4 u v rest h ih =>
    have hu := one_le_escape u
    rw [quoteBody, if_neg h, List.length_append]
    simp only [List.length_cons] at ih ⊢
    omega

/-- **Every code unit of a text is encoded in one byte or more.** -/
theorem length_le_utf8 (s : Units) : s.length ≤ (utf8 s).length := by
  induction s using utf8.induct with
  | case1 => simp [utf8]
  | case2 u => simpa [utf8] using one_le_utf8Unit u
  | case3 u v rest h ih =>
    rw [utf8, if_pos h]
    simp only [List.length_cons]
    omega
  | case4 u v rest h ih =>
    have hu := one_le_utf8Unit u
    rw [utf8, if_neg h, List.length_append]
    simp only [List.length_cons] at ih ⊢
    omega

theorem member_le_stringifyMembers {members : Object} {key : Units} {value : Value}
    (h : (key, value) ∈ members) :
    (stringify value).length ≤ (stringifyMembers members).length := by
  induction members with
  | nil => cases h
  | cons member members ih =>
    obtain ⟨key', value'⟩ := member
    cases members with
    | nil =>
      obtain ⟨rfl, rfl⟩ := Prod.mk.inj (List.mem_singleton.mp h)
      simp only [stringifyMembers, List.length_append, List.length_cons]
      omega
    | cons next members =>
      rw [stringifyMembers]
      simp only [List.length_append, List.length_cons]
      rcases List.mem_cons.mp h with h | h
      · obtain ⟨rfl, rfl⟩ := Prod.mk.inj h
        omega
      · have := ih h
        omega

/-- **A string in an object is no longer than the bytes of the object.** -/
theorem string_le_bytes {members : Object} {key s : Units} (h : (key, .string s) ∈ members) :
    s.length ≤ (bytes (.object members)).length := by
  have hquote : s.length ≤ (stringify (.string s)).length := by
    have := length_le_quoteBody s
    simp only [stringify, quote, List.length_cons, List.length_append]
    omega
  have hobject : (stringifyMembers members).length ≤ (stringify (.object members)).length := by
    simp only [stringify, List.length_cons, List.length_append]
    omega
  calc s.length
      ≤ (stringify (.string s)).length := hquote
    _ ≤ (stringifyMembers members).length := member_le_stringifyMembers h
    _ ≤ (stringify (.object members)).length := hobject
    _ ≤ (bytes (.object members)).length := length_le_utf8 _

end Json
