/-
A value that was written with `JSON.stringify` is read back with `JSON.parse`.

The text is a list of UTF-16 code units.  A surrogate that stands alone is escaped, so the
text can be encoded in UTF-8, and the reader puts it back.

* `chars` — the characters of code units; `utf8_eq` — their encoding;
* `read_escape`, `readString_quoteBody` — a string is read back, whatever its code units;
* `Value.Plain` — the numbers of a value are read as themselves;
* `parses_stringify` — every part of a text is read back, by induction on the value;
* **`bytes_read`** — so the bytes of an object are those of a text for that object.
-/
import IpcMini.JsonTexts
import IpcMini.UriEncoding

namespace Json

/-! ### Characters -/

def unitChar (u : UInt16) : Char :=
  if isLead u || isTrail u then Char.ofNat 0xFFFD else Char.ofNat u.toNat

def pairChar (u v : UInt16) : Char :=
  Char.ofNat (0x10000 + (u.toNat - 0xD800) * 0x400 + (v.toNat - 0xDC00))

/-- The characters of code units; a surrogate that stands alone is replaced. -/
def chars : Units → List Char
  | [] => []
  | [u] => [unitChar u]
  | u :: v :: rest =>
    if isLead u && isTrail v then pairChar u v :: chars rest
    else unitChar u :: chars (v :: rest)

theorem isLead_iff {u : UInt16} : isLead u = true ↔ 0xD800 ≤ u.toNat ∧ u.toNat ≤ 0xDBFF :=
  decide_eq_true_iff

theorem isTrail_iff {u : UInt16} : isTrail u = true ↔ 0xDC00 ≤ u.toNat ∧ u.toNat ≤ 0xDFFF :=
  decide_eq_true_iff

theorem toNat_of_valid {n : ℕ} (h : n.isValidChar) : (Char.ofNat n).toNat = n := by
  rw [Char.ofNat, dif_pos h]
  rfl

theorem toNat_unitChar {u : UInt16} (h : (isLead u || isTrail u) = false) :
    (unitChar u).toNat = u.toNat := by
  rw [unitChar, h, if_neg (by decide), toNat_of_valid]
  rw [Bool.or_eq_false_iff, ← Bool.not_eq_true, ← Bool.not_eq_true, isLead_iff, isTrail_iff] at h
  have hlt := u.toNat_lt
  unfold Nat.isValidChar
  omega

theorem toNat_pairChar {u v : UInt16} (hu : isLead u = true) (hv : isTrail v = true) :
    (pairChar u v).toNat = 0x10000 + (u.toNat - 0xD800) * 0x400 + (v.toNat - 0xDC00) := by
  rw [isLead_iff] at hu
  rw [isTrail_iff] at hv
  rw [pairChar, toNat_of_valid]
  unfold Nat.isValidChar
  omega

theorem utf8Unit_eq (u : UInt16) : utf8Unit u = String.utf8EncodeChar (unitChar u) := by
  by_cases h : (isLead u || isTrail u) = true
  · have hchar : unitChar u = Char.ofNat 0xFFFD := if_pos h
    have hrange : 0x800 ≤ u.toNat := by
      rw [Bool.or_eq_true, isLead_iff, isTrail_iff] at h
      omega
    rw [hchar, utf8Unit, if_neg (by omega), if_neg (by omega), if_pos h]
    rfl
  · rw [Bool.not_eq_true] at h
    have hlt := u.toNat_lt
    rw [UriComponent.utf8EncodeChar_eq, toNat_unitChar h, utf8Unit, h]
    by_cases h₁ : u.toNat < 0x80
    · rw [if_pos h₁, if_pos (by omega)]
    by_cases h₂ : u.toNat < 0x800
    · rw [if_neg h₁, if_pos h₂, if_neg (by omega), if_pos (by omega),
        Nat.mod_eq_of_lt (by omega : u.toNat / 64 < 0x20), Nat.add_comm, Nat.add_comm 0x80]
    · rw [if_neg h₁, if_neg h₂, if_neg (by decide), if_neg (by omega), if_neg (by omega),
        if_pos (by omega), Nat.mod_eq_of_lt (by omega : u.toNat / 4096 < 0x10), Nat.add_comm,
        Nat.add_comm 0x80 (u.toNat / 64 % 64), Nat.add_comm 0x80]

/-- **The bytes of code units are those of their characters.** -/
theorem utf8_eq (s : Units) : utf8 s = (chars s).flatMap String.utf8EncodeChar := by
  induction s using utf8.induct with
  | case1 => rfl
  | case2 u => simp [utf8, chars, utf8Unit_eq]
  | case3 u v rest h ih =>
    obtain ⟨hu, hv⟩ := Bool.and_eq_true _ _ ▸ h
    have hpair := toNat_pairChar hu hv
    have hu' := isLead_iff.mp hu
    have hv' := isTrail_iff.mp hv
    rw [utf8, if_pos h, chars, if_pos h, List.flatMap_cons, ← ih, UriComponent.utf8EncodeChar_eq,
      hpair, if_neg (by omega), if_neg (by omega), if_neg (by omega)]
    rw [Nat.mod_eq_of_lt (by omega : (0x10000 + (u.toNat - 0xD800) * 0x400 +
      (v.toNat - 0xDC00)) / 262144 < 0x08)]
    simp only [Nat.add_comm _ 0xf0, Nat.add_comm _ 0x80, List.cons_append, List.nil_append]
  | case4 u v rest h ih =>
    rw [utf8, if_neg h, chars, if_neg h, List.flatMap_cons, ← ih, utf8Unit_eq]

/-- No pair is made where the text is cut. -/
theorem chars_append (s : Units) {u : UInt16} (h : isTrail u = false) (t : Units) :
    chars (s ++ u :: t) = chars s ++ chars (u :: t) := by
  induction s using chars.induct with
  | case1 => rfl
  | case2 v =>
    have hcut : chars (v :: u :: t) = unitChar v :: chars (u :: t) := by
      rw [chars, h, Bool.and_false, if_neg (by decide)]
    exact hcut
  | case3 v w rest hpair ih =>
    rw [List.cons_append, List.cons_append, chars, if_pos hpair, ih, chars, if_pos hpair,
      List.cons_append]
  | case4 v w rest hpair ih =>
    rw [List.cons_append, List.cons_append, chars, if_neg hpair, ← List.cons_append, ih, chars,
      if_neg hpair, List.cons_append]

theorem chars_cons {u : UInt16} (h : isLead u = false) (t : Units) :
    chars (u :: t) = unitChar u :: chars t := by
  cases t with
  | nil => rfl
  | cons v t => rw [chars, h, Bool.false_and, if_neg (by decide)]

/-- Code units none of which begins a pair. -/
theorem chars_map {s : Units} (h : ∀ u ∈ s, isLead u = false) (t : Units) :
    chars (s ++ t) = s.map unitChar ++ chars t := by
  induction s with
  | nil => rfl
  | cons u s ih =>
    rw [List.cons_append, chars_cons (h u List.mem_cons_self),
      ih fun v hv => h v (List.mem_cons_of_mem _ hv), List.map_cons, List.cons_append]

/-! ### Strings -/

theorem not_lead_pair {u v : UInt16} (hu : isLead u = false) (hv : isLead v = false) :
    ∀ w ∈ [u, v], isLead w = false := by
  simpa using ⟨hu, hv⟩

/-- An escape is made of characters of their own. -/
theorem not_lead_escape (u : UInt16) : ∀ v ∈ escape u, isLead v = false := by
  have hdigit : ∀ n < 16, isLead (hexDigit n) = false := by decide
  have hlt := u.toNat_lt
  unfold escape
  split_ifs with h₁ h₂ h₃ h₄ h₅ h₆ h₇ h₈
  · exact not_lead_pair (by decide) (by decide)
  · exact not_lead_pair (by decide) (by decide)
  · exact not_lead_pair (by decide) (by decide)
  · exact not_lead_pair (by decide) (by decide)
  · exact not_lead_pair (by decide) (by decide)
  · exact not_lead_pair (by decide) (by decide)
  · exact not_lead_pair (by decide) (by decide)
  · intro v hv
    simp only [unicodeEscape, List.mem_cons, List.not_mem_nil, or_false] at hv
    rcases hv with rfl | rfl | rfl | rfl | rfl | rfl
    · decide
    · decide
    all_goals exact hdigit _ (by omega)
  · intro v hv
    obtain rfl := List.mem_singleton.mp hv
    simp only [Bool.or_eq_true, not_or, Bool.not_eq_true] at h₈
    exact h₈.1.2

theorem readHex_escape (u : UInt16) :
    readHex (unitChar (hexDigit (u.toNat / 4096))) (unitChar (hexDigit (u.toNat / 256 % 16)))
      (unitChar (hexDigit (u.toNat / 16 % 16))) (unitChar (hexDigit (u.toNat % 16))) =
        some u := by
  have hdigit : ∀ n < 16, UriComponent.hex (unitChar (hexDigit n)) = some n := by decide +kernel
  have hlt := u.toNat_lt
  rw [readHex, hdigit _ (by omega), hdigit _ (by omega), hdigit _ (by omega), hdigit _ (by omega)]
  have hvalue : ((u.toNat / 4096 * 16 + u.toNat / 256 % 16) * 16 + u.toNat / 16 % 16) * 16 +
      u.toNat % 16 = u.toNat := by omega
  dsimp only
  rw [hvalue, UInt16.ofNat_toNat]

/-- **An escape is read as its code unit.** -/
theorem read_escape (u : UInt16) (rest : List Char) :
    readString ((escape u).map unitChar ++ rest) =
      (readString rest).map fun r => (u :: r.1, r.2) := by
  have hshort : ∀ (e : Char) (v : UInt16), e ≠ 'u' → unescape e = some v →
      readString ('\\' :: e :: rest) = (readString rest).map fun r => (v :: r.1, r.2) := by
    intro e v hu he
    rw [readString.eq_def]
    dsimp only
    rw [if_neg (by decide), if_pos rfl, if_neg hu, he]
    rfl
  unfold escape
  split_ifs with h₁ h₂ h₃ h₄ h₅ h₆ h₇ h₈
  · subst h₁
    exact hshort 'b' 8 (by decide) rfl
  · subst h₂
    exact hshort 't' 9 (by decide) rfl
  · subst h₃
    exact hshort 'n' 10 (by decide) rfl
  · subst h₄
    exact hshort 'f' 12 (by decide) rfl
  · subst h₅
    exact hshort 'r' 13 (by decide) rfl
  · subst h₆
    exact hshort '"' 34 (by decide) rfl
  · subst h₇
    exact hshort '\\' 92 (by decide) rfl
  · have htext : (unicodeEscape u).map unitChar ++ rest =
        '\\' :: 'u' :: unitChar (hexDigit (u.toNat / 4096)) ::
          unitChar (hexDigit (u.toNat / 256 % 16)) ::
            unitChar (hexDigit (u.toNat / 16 % 16)) ::
              unitChar (hexDigit (u.toNat % 16)) :: rest := rfl
    rw [htext, readString.eq_def]
    dsimp only
    rw [if_neg (by decide), if_pos rfl, if_pos rfl, readHex_escape]
    rfl
  · -- the code unit stands for itself
    simp only [Bool.or_eq_true, decide_eq_true_eq, not_or, Bool.not_eq_true] at h₈
    obtain ⟨⟨hctl, hlead⟩, htrail⟩ := h₈
    have hnat : (unitChar u).toNat = u.toNat := toNat_unitChar (by rw [hlead, htrail]; rfl)
    have hctl' : 32 ≤ u.toNat := by
      rw [UInt16.lt_iff_toNat_lt] at hctl
      exact Nat.not_lt.mp hctl
    have hchar : ∀ n : ℕ, u ≠ .ofNat n → n < 0x10000 → ∀ c : Char, c.toNat = n →
        unitChar u ≠ c := by
      rintro n hne hn c hc rfl
      have hofNat : (UInt16.ofNat n).toNat = n := UInt16.toNat_ofNat_of_lt hn
      exact hne (UInt16.toNat_inj.mp ((hnat.symm.trans hc).trans hofNat.symm))
    have hunits : charUnits (unitChar u) = [u] := by
      rw [charUnits, hnat, if_pos u.toNat_lt, UInt16.ofNat_toNat]
    have hstands := stands_self (hchar 34 h₆ (by decide) '"' rfl)
      (hchar 92 h₇ (by decide) '\\' rfl) (by rw [hnat]; exact hctl') rest
    rw [List.map_singleton, hstands, hunits]
    rfl

/-- **A string is read back**, whatever its code units. -/
theorem readString_quoteBody (s : Units) (rest : List Char) :
    readString (chars (quoteBody s) ++ '"' :: rest) = some (s, rest) := by
  induction s using quoteBody.induct with
  | case1 =>
    rw [quoteBody, chars, List.nil_append, readString.eq_def]
    dsimp only
    rw [if_pos rfl]
  | case2 u =>
    have hend : chars (escape u) = (escape u).map unitChar := by
      have h := chars_map (not_lead_escape u) []
      rwa [List.append_nil, chars, List.append_nil] at h
    rw [quoteBody, hend, read_escape, readString.eq_def]
    dsimp only
    rw [if_pos rfl]
    rfl
  | case3 u v rest' hpair ih =>
    obtain ⟨hu, hv⟩ := Bool.and_eq_true _ _ ▸ hpair
    have hnat := toNat_pairChar hu hv
    have hu' := isLead_iff.mp hu
    have hv' := isTrail_iff.mp hv
    have hunits : charUnits (pairChar u v) = [u, v] := by
      have hhigh : 0xD800 + ((pairChar u v).toNat - 0x10000) / 0x400 = u.toNat := by omega
      have hlow : 0xDC00 + ((pairChar u v).toNat - 0x10000) % 0x400 = v.toNat := by omega
      rw [charUnits, if_neg (by omega), hhigh, hlow, UInt16.ofNat_toNat, UInt16.ofNat_toNat]
    have hne : ∀ c : Char, c.toNat < 0x10000 → pairChar u v ≠ c := by
      rintro c hc rfl
      omega
    have hstands := stands_self (hne '"' (by decide)) (hne '\\' (by decide)) (by omega)
      (chars (quoteBody rest') ++ '"' :: rest)
    rw [quoteBody, if_pos hpair, chars, if_pos hpair, List.cons_append, ← List.singleton_append,
      hstands, ih, hunits]
    rfl
  | case4 u v rest' hpair ih =>
    rw [quoteBody, if_neg hpair, chars_map (not_lead_escape u), List.append_assoc, read_escape, ih]
    rfl

/-! ### Values -/

mutual

/-- The numbers in the value are read as themselves. -/
def Value.Plain : Value → Prop
  | .number n => Parses (chars n.text) (some (.number n))
  | .array items => PlainItems items
  | .object members => PlainMembers members
  | _ => True

def PlainItems : List Value → Prop
  | [] => True
  | item :: items => item.Plain ∧ PlainItems items

def PlainMembers : List (Units × Value) → Prop
  | [] => True
  | (_, value) :: members => value.Plain ∧ PlainMembers members

end

theorem plainMembers_iff {members : List (Units × Value)} :
    PlainMembers members ↔ ∀ m ∈ members, m.2.Plain := by
  induction members with
  | nil => simp [PlainMembers]
  | cons m members ih => rw [PlainMembers, ih, List.forall_mem_cons]

theorem chars_items (items : List Value) :
    chars (stringifyItems items) = itemsText (items.map fun item => chars (stringify item)) := by
  induction items with
  | nil => simp [stringifyItems, chars, itemsText]
  | cons item items ih =>
    cases items with
    | nil => simp [stringifyItems, itemsText]
    | cons next items =>
      rw [stringifyItems, chars_append _ (by decide), chars_cons (by decide), ih, List.map_cons,
        List.map_cons]
      rfl

/-- The text of a member. -/
theorem chars_member (key : Units) (text : Units) :
    chars (quote key ++ 58 :: text) = MemberText.textOf (chars (quoteBody key)) (chars text) := by
  have happend : quote key ++ 58 :: text = 34 :: (quoteBody key ++ 34 :: 58 :: text) := by
    simp [quote]
  rw [happend, chars_cons (by decide), chars_append _ (by decide), chars_cons (by decide),
    chars_cons (by decide)]
  rfl

theorem chars_members (members : List (Units × Value)) :
    chars (stringifyMembers members) = itemsText (members.map fun m =>
      MemberText.textOf (chars (quoteBody m.1)) (chars (stringify m.2))) := by
  induction members with
  | nil => simp [stringifyMembers, chars, itemsText]
  | cons m members ih =>
    obtain ⟨key, value⟩ := m
    cases members with
    | nil => rw [stringifyMembers, chars_member, List.map_cons, List.map_nil, itemsText]
    | cons next members =>
      have happend : stringifyMembers ((key, value) :: next :: members) =
          (quote key ++ 58 :: stringify value) ++ 44 :: stringifyMembers (next :: members) := by
        simp [stringifyMembers]
      rw [happend, chars_append _ (by decide), chars_cons (by decide), ih, chars_member,
        List.map_cons, List.map_cons]
      rfl

/-- A member that was written. -/
def memberText (m : Units × Value) : MemberText where
  key := m.1
  keyText := chars (quoteBody m.1)
  text := chars (stringify m.2)
  result := some m.2
  readsKey := readString_quoteBody m.1

theorem mapM_memberText (members : List (Units × Value)) :
    (members.map memberText).mapM MemberText.member = some members := by
  induction members with
  | nil => rfl
  | cons m members ih =>
    rw [List.map_cons, List.mapM_cons, ih]
    rfl

/-- Every item is read as itself. -/
theorem mapM_items (items : List Value) :
    (items.map fun item => (chars (stringify item), some item)).mapM Prod.snd = some items := by
  induction items with
  | nil => rfl
  | cons item items ih =>
    rw [List.map_cons, List.mapM_cons, ih]
    rfl

theorem chars_object (members : List (Units × Value)) :
    chars (stringify (.object members)) = objectText (members.map memberText) := by
  rw [stringify, List.cons_append, chars_cons (by decide), chars_append _ (by decide),
    chars_members, objectText, List.map_map]
  rfl

theorem parses_null : Parses (chars (stringify .null)) (some .null) where
  read fuel c rest _ _ := by
    have htext : chars (stringify .null) = ['n', 'u', 'l', 'l'] := rfl
    simp [htext, readValue, readName]
  head := ⟨'n', _, rfl, rfl, by decide⟩

theorem parses_bool (b : Bool) : Parses (chars (stringify (.bool b))) (some (.bool b)) := by
  cases b with
  | true =>
    have htext : chars (stringify (.bool true)) = ['t', 'r', 'u', 'e'] := rfl
    exact ⟨fun fuel c rest _ _ => by simp [htext, readValue, readName],
      ⟨'t', _, rfl, rfl, by decide⟩⟩
  | false =>
    have htext : chars (stringify (.bool false)) = ['f', 'a', 'l', 's', 'e'] := rfl
    exact ⟨fun fuel c rest _ _ => by simp [htext, readValue, readName],
      ⟨'f', _, rfl, rfl, by decide⟩⟩

theorem parses_string (s : Units) : Parses (chars (stringify (.string s))) (some (.string s)) := by
  have htext : chars (stringify (.string s)) = '"' :: (chars (quoteBody s) ++ ['"']) := by
    rw [stringify, quote, List.cons_append, chars_cons (by decide), chars_append _ (by decide)]
    rfl
  rw [htext]
  constructor
  · intro fuel c rest _ _
    rw [List.cons_append, List.append_assoc, List.singleton_append, readValue, List.head?_cons,
      List.drop_one, List.tail_cons, readString_quoteBody]
    rfl
  · exact ⟨'"', _, rfl, rfl, by decide⟩

mutual

/-- **Every part of a text is read back.** -/
theorem parses_stringify : ∀ value : Value, value.Plain →
    Parses (chars (stringify value)) (some value)
  | .null, _ => parses_null
  | .bool b, _ => parses_bool b
  | .number n, h => by
    rw [Value.Plain] at h
    rwa [stringify]
  | .string s, _ => parses_string s
  | .array items, h => by
    rw [Value.Plain] at h
    have hparses : ∀ item ∈ items.map fun item => (chars (stringify item), some item),
        Parses item.1 item.2 := by
      intro item hitem
      obtain ⟨value, hvalue, rfl⟩ := List.mem_map.mp hitem
      exact parses_items items h value hvalue
    have hitems := parses_array hparses
    have htext : chars (stringify (.array items)) =
        arrayText (items.map fun item => (chars (stringify item), some item)) := by
      rw [stringify, List.cons_append, chars_cons (by decide), chars_append _ (by decide),
        chars_items, arrayText, List.map_map]
      rfl
    rwa [mapM_items, Option.map_some, ← htext] at hitems
  | .object members, h => by
    rw [Value.Plain] at h
    have hparses : ∀ m ∈ members.map memberText, Parses m.text m.result := by
      intro m hm
      obtain ⟨member, hmember, rfl⟩ := List.mem_map.mp hm
      exact parses_members members h member hmember
    have hmembers := parses_object hparses
    rwa [mapM_memberText, Option.map_some, ← chars_object] at hmembers

theorem parses_items : ∀ items : List Value, PlainItems items →
    ∀ item ∈ items, Parses (chars (stringify item)) (some item)
  | [], _ => by simp
  | first :: items, h => by
    rw [PlainItems] at h
    intro item hitem
    rcases List.mem_cons.mp hitem with hfirst | hitem
    · rw [hfirst]
      exact parses_stringify first h.1
    · exact parses_items items h.2 item hitem

theorem parses_members : ∀ members : List (Units × Value), PlainMembers members →
    ∀ m ∈ members, Parses (memberText m).text (memberText m).result
  | [], _ => by simp
  | (key, value) :: members, h => by
    rw [PlainMembers] at h
    intro m hm
    rcases List.mem_cons.mp hm with rfl | hm
    · exact parses_stringify value h.1
    · exact parses_members members h.2 m hm

end

/-- **The bytes of an object are read back** as that object. -/
theorem bytes_read {members : List (Units × Value)} (h : PlainMembers members) :
    ∃ text : List Char, bytes (.object members) = text.flatMap String.utf8EncodeChar ∧
      parse text = some (.object members) := by
  refine ⟨chars (stringify (.object members)), by rw [bytes, utf8_eq], ?_⟩
  rw [chars_object, parse_object, mapM_memberText]
  · rfl
  · intro m hm
    obtain ⟨member, hmember, rfl⟩ := List.mem_map.mp hm
    exact parses_members members h member hmember

/-- The characters of a text are those of its code units. -/
theorem chars_units (text : List Char) : chars (text.flatMap charUnits) = text := by
  induction text with
  | nil => rfl
  | cons c text ih =>
    have hvalid : c.toNat < 0xD800 ∨ 0xDFFF < c.toNat ∧ c.toNat < 0x110000 := c.valid
    have hsize : UInt16.size = 65536 := rfl
    rw [List.flatMap_cons, charUnits]
    split
    next hc =>
      have hnat : (UInt16.ofNat c.toNat).toNat = c.toNat := UInt16.toNat_ofNat_of_lt hc
      have hlead : isLead (UInt16.ofNat c.toNat) = false := by
        rw [← Bool.not_eq_true, isLead_iff, hnat]
        omega
      have htrail : isTrail (UInt16.ofNat c.toNat) = false := by
        rw [← Bool.not_eq_true, isTrail_iff, hnat]
        omega
      rw [List.singleton_append, chars_cons hlead, ih, unitChar, hlead, htrail,
        if_neg (by decide), hnat, Char.ofNat_toNat]
    next hc =>
      have hhigh : (UInt16.ofNat (0xD800 + (c.toNat - 0x10000) / 0x400)).toNat =
          0xD800 + (c.toNat - 0x10000) / 0x400 := UInt16.toNat_ofNat_of_lt (by omega)
      have hlow : (UInt16.ofNat (0xDC00 + (c.toNat - 0x10000) % 0x400)).toNat =
          0xDC00 + (c.toNat - 0x10000) % 0x400 := UInt16.toNat_ofNat_of_lt (by omega)
      have hpair : (isLead (UInt16.ofNat (0xD800 + (c.toNat - 0x10000) / 0x400)) &&
          isTrail (UInt16.ofNat (0xDC00 + (c.toNat - 0x10000) % 0x400))) = true := by
        rw [Bool.and_eq_true, isLead_iff, isTrail_iff, hhigh, hlow]
        omega
      have hchar : 0x10000 + (0xD800 + (c.toNat - 0x10000) / 0x400 - 0xD800) * 0x400 +
          (0xDC00 + (c.toNat - 0x10000) % 0x400 - 0xDC00) = c.toNat := by omega
      rw [List.cons_append, List.cons_append, List.nil_append, chars, if_pos hpair, ih, pairChar,
        hhigh, hlow, hchar, Char.ofNat_toNat]

theorem plain_string (s : Units) : (Value.string s).Plain := by
  unfold Value.Plain
  trivial

/-- An integer that was written is read as itself. -/
theorem plain_decimal (n : ℤ) :
    (Value.number ⟨(decimal n).flatMap charUnits, some n⟩).Plain := by
  rw [Value.Plain, chars_units]
  exact parses_decimal n

/-- `JSON.parse` of the text that the bytes encode. -/
def parseData (data : List UInt8) : Option Value :=
  data.toByteArray.utf8Decode?.bind fun text => parse text.toList

theorem parseData_utf8 (text : List Char) :
    parseData (text.flatMap String.utf8EncodeChar) = parse text := by
  have hdecode := @List.utf8Decode?_utf8Encode text
  rw [List.utf8Encode] at hdecode
  rw [parseData, hdecode, Option.bind_some]

/-! ### Properties -/

theorem Object.mem_or_of_mem_setMember {members : Object} {key : Units} {value : Value}
    {m : Units × Value} (h : m ∈ members.setMember key value) :
    m ∈ members ∨ m = (key, value) := by
  rw [setMember] at h
  split at h
  · obtain ⟨m', hm', rfl⟩ := List.mem_map.mp h
    split
    · exact .inr rfl
    · exact .inl hm'
  · simpa using h

theorem Object.plain_setMember {members : Object} (h : PlainMembers members) (key : Units)
    {value : Value} (hvalue : value.Plain) : PlainMembers (members.setMember key value) := by
  rw [plainMembers_iff] at h ⊢
  intro m hm
  rcases mem_or_of_mem_setMember hm with hm | rfl
  · exact h m hm
  · exact hvalue

/-- What was set in place or at the end is found, and the others are as before. -/
theorem lookup_set {α β : Type} [DecidableEq α] [BEq α] [LawfulBEq α] (members : List (α × β))
    (key other : α) (value : β) :
    List.lookup other (if members.any (·.1 = key) then
        members.map fun m => if m.1 = key then (key, value) else m
      else members ++ [(key, value)]) =
      if other = key then some value else members.lookup other := by
  have hmap : (members.map fun m => if m.1 = key then (key, value) else m).lookup other =
      if other = key then (members.lookup key).map fun _ => value else members.lookup other := by
    induction members with
    | nil => simp
    | cons m members ih =>
      obtain ⟨k, v⟩ := m
      rw [List.map_cons]
      by_cases hk : k = key
      · subst hk
        by_cases ho : other = k
        · subst ho
          simp
        · have hb : (other == k) = false := beq_false_of_ne ho
          rw [if_pos rfl, if_neg ho, List.lookup_cons, ih, if_neg ho, List.lookup_cons, hb]
      · by_cases ho : other = k
        · subst ho
          rw [if_neg hk, List.lookup_cons_self, List.lookup_cons_self, if_neg hk]
        · rw [if_neg hk, List.lookup_cons, ih, List.lookup_cons, List.lookup_cons]
          have hb : (other == k) = false := beq_false_of_ne ho
          have hk' : (key == k) = false := beq_false_of_ne (Ne.symm hk)
          rw [hb, hk']
  have hnone : (members.any fun m => decide (m.1 = key)) = false → members.lookup key = none := by
    intro h
    rw [List.lookup_eq_none_iff]
    intro m hm
    have hne : m.1 ≠ key := by simpa using List.any_eq_false.mp h m hm
    exact bne_iff_ne.mpr hne.symm
  have hsome : (members.any fun m => decide (m.1 = key)) = true →
      ∃ v, members.lookup key = some v := by
    intro h
    by_contra hno
    obtain ⟨m, hm, hkey⟩ := List.any_eq_true.mp h
    have hlookup : members.lookup key = none := by
      cases hl : members.lookup key with
      | none => rfl
      | some v => exact absurd ⟨v, hl⟩ hno
    have hne := List.lookup_eq_none_iff.mp hlookup m hm
    simp [of_decide_eq_true hkey] at hne
  by_cases hany : (members.any fun m => decide (m.1 = key)) = true
  · obtain ⟨v, hv⟩ := hsome hany
    rw [if_pos hany, hmap, hv]
    rfl
  · have hkey := hnone ((Bool.not_eq_true _).mp hany)
    rw [if_neg hany, List.lookup_append]
    by_cases ho : other = key
    · subst ho
      simp [hkey]
    · rw [if_neg ho, List.lookup_cons, beq_false_of_ne ho]
      simp

/-- A property that was set is found, and the others are as before. -/
theorem Object.field_setMember (members : Object) (key other : Units) (value : Value) :
    (members.setMember key value).field other =
      if other = key then some value else members.field other := lookup_set members key other value

end Json
