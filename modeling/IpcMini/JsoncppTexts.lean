/-
What the reader of JsonCpp makes of a text of `JSON.stringify`.

In a string a surrogate that stands alone is written as an escape.  The reader takes whatever
escape follows a lead surrogate for its partner, and where none follows it refuses the text.

* `taken` — the bytes that the reader decodes from a string, if it decodes it;
* `decode_escape`, `decode_pair`, `decode_lead_escape`, `decode_lead_none` — what is decoded
  from the escapes of one code unit or two;
* **`decode_quoteBody`** — a written string is decoded to exactly these bytes;
* **`taken_units`**, **`kept_ascii`** — a text is decoded to its bytes, and ASCII stays as it
  was;
* `image` — the value that the reader makes of a value, if it decodes all of it;
* **`parse_bytes`** — what was written is read as exactly that.
-/
import IpcMini.JsonRoundTrip
import IpcMini.JsoncppReader

namespace IpcMini

open Json (Units isLead isTrail utf8 utf8Unit escape unicodeEscape quote quoteBody stringify
  stringifyItems stringifyMembers hexDigit isLead_iff isTrail_iff units charUnits)

namespace Jsoncpp

namespace Reader

/-! ### Bytes of code units -/

theorem utf8_append_of_not_lead {s : Units} (h : ∀ u ∈ s, isLead u = false) (t : Units) :
    utf8 (s ++ t) = utf8 s ++ utf8 t := by
  have happend := Json.chars_map h t
  have hself := Json.chars_map h []
  rw [List.append_nil, Json.chars, List.append_nil] at hself
  rw [Json.utf8_eq, Json.utf8_eq, Json.utf8_eq, happend, hself, List.flatMap_append]

theorem utf8_append (s : Units) {u : UInt16} (h : isTrail u = false) (t : Units) :
    utf8 (s ++ u :: t) = utf8 s ++ utf8 (u :: t) := by
  rw [Json.utf8_eq, Json.chars_append s h, List.flatMap_append, ← Json.utf8_eq, ← Json.utf8_eq]

theorem utf8_cons {u : UInt16} (h : isLead u = false) (t : Units) :
    utf8 (u :: t) = utf8Unit u ++ utf8 t := by
  cases t with
  | nil => rw [utf8, utf8, List.append_nil]
  | cons v t => rw [utf8, h, Bool.false_and, if_neg (by decide)]

/-- ASCII stands for itself. -/
theorem utf8_ascii {u : UInt16} (h : u.toNat < 0x80) (t : Units) :
    utf8 (u :: t) = UInt8.ofNat u.toNat :: utf8 t := by
  have hlead : isLead u = false := by
    rw [← Bool.not_eq_true, isLead_iff]
    omega
  rw [utf8_cons hlead, utf8Unit, if_pos h]
  rfl

/-! ### Escapes -/

/-- The bytes of `\\u` and four digits. -/
def escapeBytes (u : UInt16) : List UInt8 :=
  [92, 117, .ofNat (hexDigit (u.toNat / 4096)).toNat,
    .ofNat (hexDigit (u.toNat / 256 % 16)).toNat,
    .ofNat (hexDigit (u.toNat / 16 % 16)).toNat, .ofNat (hexDigit (u.toNat % 16)).toNat]

theorem utf8_unicodeEscape (u : UInt16) : utf8 (unicodeEscape u) = escapeBytes u := by
  have hdigit : ∀ n < 16, (hexDigit n).toNat < 0x80 := by decide
  have hlt := u.toNat_lt
  rw [unicodeEscape, utf8_ascii (by decide), utf8_ascii (by decide),
    utf8_ascii (hdigit _ (by omega)), utf8_ascii (hdigit _ (by omega)),
    utf8_ascii (hdigit _ (by omega)), utf8_ascii (hdigit _ (by omega))]
  rfl

theorem hex_hexDigit {n : ℕ} (h : n < 16) : hex (.ofNat (hexDigit n).toNat) = some n := by
  have hall : ∀ m < 16, hex (.ofNat (hexDigit m).toNat) = some m := by decide
  exact hall n h

/-- The four digits are read as the code unit. -/
theorem decodeDigits_of_unit (u : UInt16) :
    decodeUnicodeEscapeSequence (.ofNat (hexDigit (u.toNat / 4096)).toNat)
      (.ofNat (hexDigit (u.toNat / 256 % 16)).toNat)
      (.ofNat (hexDigit (u.toNat / 16 % 16)).toNat)
      (.ofNat (hexDigit (u.toNat % 16)).toNat) = some u.toNat := by
  have hlt := u.toNat_lt
  rw [decodeUnicodeEscapeSequence, hex_hexDigit (by omega), hex_hexDigit (by omega),
    hex_hexDigit (by omega), hex_hexDigit (by omega)]
  have hvalue : ((u.toNat / 4096 * 16 + u.toNat / 256 % 16) * 16 + u.toNat / 16 % 16) * 16 +
      u.toNat % 16 = u.toNat := by omega
  simp only [Option.bind_some, Option.map_some, hvalue]

/-- Code units that are written as `\\u` and digits, where they are no part of a pair. -/
def isUnicodeEscaped (u : UInt16) : Bool :=
  decide (u < 32 ∧ u ∉ [8, 9, 10, 12, 13]) || isLead u || isTrail u

/-! ### Strings that are decoded -/

/-- The bytes that the reader decodes from a written string.  A lead surrogate is put together
with what is written as an escape behind it. -/
def taken : Units → Option (List UInt8)
  | [] => some []
  | u :: rest =>
    if isLead u then
      match rest with
      | [] => none
      | v :: rest =>
        -- the surrogates of a pair are written as they are
        if isUnicodeEscaped v && !(isLead v && rest.head?.any isTrail) then
          (taken rest).map (codePointToUtf8 (surrogatePair u.toNat v.toNat) ++ ·)
        else none
    else (taken rest).map (codePointToUtf8 u.toNat ++ ·)

/-- A byte that neither ends a string nor begins an escape. -/
def isPlain (b : UInt8) : Bool := b ≠ 34 && b ≠ 92

theorem decode_plain {bytes : List UInt8} (h : ∀ b ∈ bytes, isPlain b = true)
    (text : List UInt8) :
    decodeString (bytes ++ text) = (decodeString text).map (bytes ++ ·) := by
  induction bytes with
  | nil => simp
  | cons b bytes ih =>
    have hb := h b List.mem_cons_self
    simp only [isPlain, ne_eq, decide_not, Bool.and_eq_true, Bool.not_eq_true',
      decide_eq_false_iff_not] at hb
    rw [List.cons_append, decodeString.eq_def]
    dsimp only
    rw [if_neg hb.1, if_neg hb.2, ih fun c hc => h c (List.mem_cons_of_mem _ hc),
      Option.map_map]
    rfl

theorem plain_of_high {n : ℕ} (h : 128 ≤ n) (hn : n < 256) : isPlain (.ofNat n) = true := by
  have hall : ∀ m < 256, 128 ≤ m → isPlain (.ofNat m) = true := by decide +kernel
  exact hall n hn h

/-- The bytes of a code unit other than these two. -/
theorem plain_utf8Unit {u : UInt16} (hquote : u ≠ 34) (hslash : u ≠ 92) :
    ∀ b ∈ utf8Unit u, isPlain b = true := by
  have hlt := u.toNat_lt
  unfold utf8Unit
  dsimp only
  split_ifs with h₁ h₂ h₃
  · have hall : ∀ n < 128, n ≠ 34 → n ≠ 92 → isPlain (.ofNat n) = true := by decide +kernel
    intro b hb
    rw [List.mem_singleton.mp hb]
    refine hall _ h₁ (fun h => hquote ?_) fun h => hslash ?_
    · exact UInt16.toNat_inj.mp h
    · exact UInt16.toNat_inj.mp h
  · simp only [List.forall_mem_cons, List.not_mem_nil, false_imp_iff, implies_true, and_true]
    exact ⟨plain_of_high (by omega) (by omega), plain_of_high (by omega) (by omega)⟩
  · simp only [List.forall_mem_cons, List.not_mem_nil, false_imp_iff, implies_true, and_true]
    exact ⟨rfl, rfl, rfl⟩
  · simp only [List.forall_mem_cons, List.not_mem_nil, false_imp_iff, implies_true, and_true]
    exact ⟨plain_of_high (by omega) (by omega), plain_of_high (by omega) (by omega),
      plain_of_high (by omega) (by omega)⟩

/-- The reader encodes code points as the server does. -/
theorem codePointToUtf8_unit {u : UInt16} (h : (isLead u || isTrail u) = false) :
    codePointToUtf8 u.toNat = utf8Unit u := by
  have hlt := u.toNat_lt
  rw [codePointToUtf8, utf8Unit, h]
  by_cases h₁ : u.toNat < 0x80
  · rw [if_pos h₁, if_pos (by omega)]
  by_cases h₂ : u.toNat < 0x800
  · rw [if_neg h₁, if_pos h₂, if_neg (by omega), if_pos (by omega),
      Nat.mod_eq_of_lt (by omega : u.toNat / 64 < 32)]
  · rw [if_neg (by omega), if_neg (by omega), if_pos (by omega), if_neg h₁, if_neg h₂,
      if_neg Bool.false_ne_true, Nat.mod_eq_of_lt (by omega : u.toNat / 4096 < 16)]

/-- An escape of one character is decoded. -/
theorem decode_short {e d : UInt8} (hu : e ≠ 117) (h : unescape e = some d)
    (text : List UInt8) :
    decodeString (92 :: e :: text) = (decodeString text).map (d :: ·) := by
  rw [decodeString.eq_def]
  dsimp only
  rw [if_neg (by decide), if_pos rfl, if_neg hu, h]
  rfl

/-- An escape that is no lead surrogate is decoded. -/
theorem decode_escapeBytes {u : UInt16} (h : isLead u = false) (text : List UInt8) :
    decodeString (escapeBytes u ++ text) =
      (decodeString text).map (codePointToUtf8 u.toNat ++ ·) := by
  rw [← Bool.not_eq_true, isLead_iff] at h
  rw [escapeBytes, decodeString.eq_def]
  simp only [List.cons_append, List.nil_append]
  rw [if_neg (by decide), if_pos trivial, if_pos trivial, decodeDigits_of_unit, Option.bind_some,
    if_neg h]

/-- **What is written for a code unit is decoded**, if it is no lead surrogate. -/
theorem decode_escape {u : UInt16} (h : isLead u = false) (text : List UInt8) :
    decodeString (utf8 (escape u) ++ text) =
      (decodeString text).map (codePointToUtf8 u.toNat ++ ·) := by
  unfold escape
  split_ifs with h₁ h₂ h₃ h₄ h₅ h₆ h₇ h₈
  · subst h₁
    exact decode_short (by decide) rfl text
  · subst h₂
    exact decode_short (by decide) rfl text
  · subst h₃
    exact decode_short (by decide) rfl text
  · subst h₄
    exact decode_short (by decide) rfl text
  · subst h₅
    exact decode_short (by decide) rfl text
  · subst h₆
    exact decode_short (by decide) rfl text
  · subst h₇
    exact decode_short (by decide) rfl text
  · rw [utf8_unicodeEscape, decode_escapeBytes h]
  · simp only [Bool.or_eq_true, not_or, Bool.not_eq_true] at h₈
    rw [utf8_cons h, utf8, List.append_nil, decode_plain (plain_utf8Unit h₆ h₇),
      codePointToUtf8_unit (by rw [h, h₈.2]; rfl)]

/-! ### Lead surrogates -/

/-- What follows a lead surrogate is no escape. -/
theorem decode_lead_none {u : UInt16} (h : isLead u = true) {text : List UInt8}
    (htext : ¬ [92, 117] <+: text) : decodeString (escapeBytes u ++ text) = none := by
  rw [isLead_iff] at h
  rw [escapeBytes, decodeString.eq_def]
  simp only [List.cons_append, List.nil_append]
  rw [if_neg (by decide), if_pos trivial, if_pos trivial, decodeDigits_of_unit, Option.bind_some,
    if_pos h]
  split
  next b e l₁ l₂ l₃ l₄ rest =>
    refine if_neg ?_
    rintro ⟨rfl, rfl⟩
    exact htext ⟨l₁ :: l₂ :: l₃ :: l₄ :: rest, rfl⟩
  · rfl

/-- The escape behind a lead surrogate is taken for its partner. -/
theorem decode_lead_escape {u v : UInt16} (h : isLead u = true) (text : List UInt8) :
    decodeString (escapeBytes u ++ (escapeBytes v ++ text)) =
      (decodeString text).map (codePointToUtf8 (surrogatePair u.toNat v.toNat) ++ ·) := by
  rw [isLead_iff] at h
  rw [escapeBytes, escapeBytes, decodeString.eq_def]
  simp only [List.cons_append, List.nil_append]
  rw [if_neg (by decide), if_pos trivial, if_pos trivial, decodeDigits_of_unit, Option.bind_some,
    if_pos h, if_pos ⟨trivial, trivial⟩, decodeDigits_of_unit, Option.bind_some]

theorem surrogatePair_eq {u v : UInt16} (hu : isLead u = true) (hv : isTrail v = true) :
    surrogatePair u.toNat v.toNat =
      0x10000 + (u.toNat - 0xD800) * 0x400 + (v.toNat - 0xDC00) := by
  rw [isLead_iff] at hu
  rw [isTrail_iff] at hv
  rw [surrogatePair]
  omega

/-- The bytes of a surrogate pair. -/
theorem utf8_pair {u v : UInt16} (hu : isLead u = true) (hv : isTrail v = true) (rest : Units) :
    utf8 (u :: v :: rest) =
      codePointToUtf8 (surrogatePair u.toNat v.toNat) ++ utf8 rest := by
  have hpair : (isLead u && isTrail v) = true := by rw [hu, hv]; rfl
  rw [utf8, if_pos hpair, surrogatePair_eq hu hv]
  rw [isLead_iff] at hu
  rw [isTrail_iff] at hv
  rw [codePointToUtf8, if_neg (by omega), if_neg (by omega), if_neg (by omega),
    if_pos (by omega)]
  dsimp only
  rw [Nat.mod_eq_of_lt (by omega : (0x10000 + (u.toNat - 0xD800) * 0x400 +
    (v.toNat - 0xDC00)) / 262144 < 8)]
  rfl

theorem plain_pair {u v : UInt16} (hu : isLead u = true) (hv : isTrail v = true) :
    ∀ b ∈ codePointToUtf8 (surrogatePair u.toNat v.toNat), isPlain b = true := by
  rw [surrogatePair_eq hu hv]
  rw [isLead_iff] at hu
  rw [isTrail_iff] at hv
  rw [codePointToUtf8, if_neg (by omega), if_neg (by omega), if_neg (by omega),
    if_pos (by omega)]
  simp only [List.forall_mem_cons, List.not_mem_nil, false_imp_iff, implies_true, and_true]
  exact ⟨plain_of_high (by omega) (by omega), plain_of_high (by omega) (by omega),
    plain_of_high (by omega) (by omega), plain_of_high (by omega) (by omega)⟩

/-- The bytes of a surrogate pair stand for themselves. -/
theorem decode_pair {u v : UInt16} (hu : isLead u = true) (hv : isTrail v = true) (rest : Units) :
    decodeString (utf8 (u :: v :: rest)) = (decodeString (utf8 rest)).map
      (codePointToUtf8 (surrogatePair u.toNat v.toNat) ++ ·) := by
  rw [utf8_pair hu hv, decode_plain (plain_pair hu hv)]

/-! ### Strings that were written -/

/-- Code units that begin no pair are written one by one. -/
theorem quoteBody_cons {u : UInt16} {rest : Units}
    (h : (isLead u && rest.head?.any isTrail) = false) :
    quoteBody (u :: rest) = escape u ++ quoteBody rest := by
  cases rest with
  | nil => rw [quoteBody, quoteBody, List.append_nil]
  | cons v rest =>
    rw [quoteBody, if_neg]
    exact Bool.not_eq_true _ ▸ h

theorem utf8_quoteBody_cons {u : UInt16} {rest : Units}
    (h : (isLead u && rest.head?.any isTrail) = false) :
    utf8 (quoteBody (u :: rest)) = utf8 (escape u) ++ utf8 (quoteBody rest) := by
  rw [quoteBody_cons h, utf8_append_of_not_lead (Json.not_lead_escape u)]

theorem escape_of_unicode {u : UInt16} (h : isUnicodeEscaped u = true) :
    utf8 (escape u) = escapeBytes u := by
  have hshort : ∀ v : UInt16, v ∈ [8, 9, 10, 12, 13, 34, 92] → isUnicodeEscaped v = false := by
    intro v hv
    simp only [List.mem_cons, List.not_mem_nil, or_false] at hv
    rcases hv with rfl | rfl | rfl | rfl | rfl | rfl | rfl <;> rfl
  have hne : ∀ v : UInt16, v ∈ [8, 9, 10, 12, 13, 34, 92] → u ≠ v := by
    rintro v hv rfl
    rw [hshort u hv] at h
    cases h
  have hlast : (decide (u < 32) || isLead u || isTrail u) = true := by
    rw [isUnicodeEscaped, Bool.or_eq_true, Bool.or_eq_true, decide_eq_true_iff] at h
    rw [Bool.or_eq_true, Bool.or_eq_true, decide_eq_true_iff]
    exact h.imp_left fun h => h.imp_left And.left
  rw [escape, if_neg (hne _ (by decide)), if_neg (hne _ (by decide)), if_neg (hne _ (by decide)),
    if_neg (hne _ (by decide)), if_neg (hne _ (by decide)), if_neg (hne _ (by decide)),
    if_neg (hne _ (by decide)), if_pos hlast, utf8_unicodeEscape]

/-- What is not written so begins otherwise. -/
theorem not_escape_of_not_unicode {u : UInt16} (h : isUnicodeEscaped u = false)
    (text : List UInt8) : ¬ [92, 117] <+: utf8 (escape u) ++ text := by
  have hshort : ∀ e : UInt8, e ≠ 117 → ∀ more : List UInt8, ¬ [92, 117] <+: 92 :: e :: more := by
    rintro e he more ⟨rest, heq⟩
    exact he (List.cons.inj (List.cons.inj heq).2).1.symm
  unfold escape
  split_ifs with h₁ h₂ h₃ h₄ h₅ h₆ h₇ h₈
  · exact hshort 98 (by decide) text
  · exact hshort 116 (by decide) text
  · exact hshort 110 (by decide) text
  · exact hshort 102 (by decide) text
  · exact hshort 114 (by decide) text
  · exact hshort 34 (by decide) text
  · exact hshort 92 (by decide) text
  · exfalso
    rw [isUnicodeEscaped] at h
    simp only [Bool.or_eq_true, decide_eq_true_eq, Bool.or_eq_false_iff, decide_eq_false_iff_not,
      not_and, List.mem_cons, List.not_mem_nil, or_false, not_not] at h h₈
    rcases h₈ with (h₈ | h₈) | h₈
    · have := h.1.1 h₈
      tauto
    · rw [h.1.2] at h₈
      cases h₈
    · rw [h.2] at h₈
      cases h₈
  · simp only [Bool.or_eq_true, not_or, Bool.not_eq_true] at h₈
    rw [utf8_cons h₈.1.2, utf8, List.append_nil]
    rintro ⟨rest, heq⟩
    obtain ⟨b, more, hb⟩ : ∃ b more, utf8Unit u = b :: more := by
      unfold utf8Unit
      dsimp only
      split_ifs <;> exact ⟨_, _, rfl⟩
    have hplain := plain_utf8Unit h₆ h₇ b (hb ▸ List.mem_cons_self)
    rw [hb] at heq
    rw [← (List.cons.inj heq).1] at hplain
    exact absurd hplain (by decide)

/-- **A written string is decoded to its bytes.** -/
theorem decode_quoteBody (s : Units) : decodeString (utf8 (quoteBody s)) = taken s := by
  induction s using taken.induct with
  | case1 => rfl
  | case2 u hu =>
    have hnone : ¬ [92, 117] <+: ([] : List UInt8) := by decide
    have hescaped : isUnicodeEscaped u = true := by simp [isUnicodeEscaped, hu]
    have h := decode_lead_none hu hnone
    rw [List.append_nil] at h
    rw [quoteBody, escape_of_unicode hescaped, h, taken, if_pos hu]
  | case3 u hu v rest hv ih =>
    rw [taken, if_pos hu]
    rw [if_pos hv, ← ih]
    by_cases htrail : isTrail v = true
    · rw [quoteBody, if_pos (by rw [hu, htrail]; rfl), decode_pair hu htrail]
    · have hescaped : isUnicodeEscaped u = true := by simp [isUnicodeEscaped, hu]
      have hfirst : (isLead u && (v :: rest).head?.any isTrail) = false := by
        simpa using fun _ => Bool.not_eq_true _ ▸ htrail
      obtain ⟨hv, hsecond⟩ := Bool.and_eq_true _ _ ▸ hv
      rw [utf8_quoteBody_cons hfirst, utf8_quoteBody_cons (Bool.not_eq_true' _ ▸ hsecond),
        escape_of_unicode hescaped, escape_of_unicode hv, decode_lead_escape hu]
  | case4 u hu v rest hv =>
    have hescaped : isUnicodeEscaped u = true := by simp [isUnicodeEscaped, hu]
    have htrail : isTrail v = false := by
      rw [← Bool.not_eq_true]
      intro htrail
      have hlead : isLead v = false := by
        rw [← Bool.not_eq_true, isLead_iff]
        rw [isTrail_iff] at htrail
        omega
      exact hv (by simp [isUnicodeEscaped, htrail, hlead])
    have hfirst : (isLead u && (v :: rest).head?.any isTrail) = false := by
      simpa using fun _ => htrail
    rw [taken, if_pos hu]
    rw [if_neg hv, utf8_quoteBody_cons hfirst, escape_of_unicode hescaped]
    refine decode_lead_none hu ?_
    -- a pair, or a code unit that is written otherwise
    by_cases hpair : (isLead v && rest.head?.any isTrail) = true
    · obtain ⟨hlead, hany⟩ := Bool.and_eq_true _ _ ▸ hpair
      cases rest with
      | nil => cases hany
      | cons w rest =>
        have hw : isTrail w = true := hany
        rw [quoteBody, if_pos (by rw [hlead, hw]; rfl), utf8, if_pos (by rw [hlead, hw]; rfl)]
        rintro ⟨more, heq⟩
        have hhead := (List.cons.inj heq).1
        rw [isLead_iff] at hlead
        rw [isTrail_iff] at hw
        have hhigh := plain_of_high (n := 0xF0 + (0x10000 + (v.toNat - 0xD800) * 0x400 +
          (w.toNat - 0xDC00)) / 0x40000) (by omega) (by omega)
        rw [← hhead] at hhigh
        exact absurd hhigh (by decide)
    · rw [utf8_quoteBody_cons (Bool.not_eq_true _ ▸ hpair)]
      refine not_escape_of_not_unicode ?_ _
      rw [← Bool.not_eq_true]
      intro hunicode
      rw [Bool.not_eq_true] at hpair
      exact hv (by rw [hunicode, hpair]; rfl)
  | case5 u rest hu ih =>
    have hu' : isLead u = false := Bool.not_eq_true _ ▸ hu
    have htaken : taken (u :: rest) = (taken rest).map (codePointToUtf8 u.toNat ++ ·) := by
      rw [taken.eq_def]
      exact if_neg hu
    rw [utf8_quoteBody_cons (by rw [hu']; rfl), decode_escape hu', ih, htaken]

/-! ### Texts -/

/-- What is written for a character is decoded to its bytes. -/
theorem taken_char (c : Char) (rest : Units) :
    taken (charUnits c ++ rest) = (taken rest).map (String.utf8EncodeChar c ++ ·) := by
  have hvalid : c.toNat < 0xD800 ∨ 0xDFFF < c.toNat ∧ c.toNat < 0x110000 := c.valid
  have hsize : UInt16.size = 65536 := rfl
  rw [charUnits]
  split_ifs with hlow
  · have hnat : (UInt16.ofNat c.toNat).toNat = c.toNat := UInt16.toNat_ofNat_of_lt (by omega)
    have hlead : isLead (.ofNat c.toNat) = false := by
      rw [← Bool.not_eq_true, isLead_iff, hnat]
      omega
    have htrail : isTrail (.ofNat c.toNat) = false := by
      rw [← Bool.not_eq_true, isTrail_iff, hnat]
      omega
    have hplain : (isLead (.ofNat c.toNat) || isTrail (.ofNat c.toNat)) = false := by
      rw [hlead, htrail]
      rfl
    have hchar : Json.unitChar (.ofNat c.toNat) = c := by
      rw [Json.unitChar, if_neg (by rw [hplain]; decide), hnat, Char.ofNat_toNat]
    rw [List.singleton_append, taken.eq_def]
    dsimp only
    rw [if_neg (by rw [hlead]; decide), codePointToUtf8_unit hplain, Json.utf8Unit_eq, hchar]
  · have hu : (UInt16.ofNat (0xD800 + (c.toNat - 0x10000) / 0x400)).toNat =
        0xD800 + (c.toNat - 0x10000) / 0x400 := UInt16.toNat_ofNat_of_lt (by omega)
    have hv : (UInt16.ofNat (0xDC00 + (c.toNat - 0x10000) % 0x400)).toNat =
        0xDC00 + (c.toNat - 0x10000) % 0x400 := UInt16.toNat_ofNat_of_lt (by omega)
    have hlead : isLead (.ofNat (0xD800 + (c.toNat - 0x10000) / 0x400)) = true := by
      rw [isLead_iff, hu]
      omega
    have htrail : isTrail (.ofNat (0xDC00 + (c.toNat - 0x10000) % 0x400)) = true := by
      rw [isTrail_iff, hv]
      omega
    have hnot : isLead (.ofNat (0xDC00 + (c.toNat - 0x10000) % 0x400)) = false := by
      rw [← Bool.not_eq_true, isLead_iff, hv]
      omega
    have hescaped : (isUnicodeEscaped (.ofNat (0xDC00 + (c.toNat - 0x10000) % 0x400)) &&
        !(isLead (.ofNat (0xDC00 + (c.toNat - 0x10000) % 0x400)) &&
          rest.head?.any isTrail)) = true := by
      rw [isUnicodeEscaped, htrail, hnot, Bool.or_true]
      rfl
    have hchar : utf8 [.ofNat (0xD800 + (c.toNat - 0x10000) / 0x400),
        .ofNat (0xDC00 + (c.toNat - 0x10000) % 0x400)] = String.utf8EncodeChar c := by
      have hself : Json.chars ([c].flatMap charUnits) = [c] := Json.chars_units [c]
      rw [List.flatMap_singleton, charUnits, if_neg hlow] at hself
      rw [Json.utf8_eq, hself, List.flatMap_singleton]
    have hpair := utf8_pair hlead htrail []
    rw [hchar, utf8, List.append_nil] at hpair
    rw [List.cons_append, List.singleton_append, taken, if_pos hlead]
    rw [if_pos hescaped, ← hpair]

theorem taken_text (s : String) (rest : Units) :
    taken (units s ++ rest) =
      (taken rest).map (s.toList.flatMap String.utf8EncodeChar ++ ·) := by
  rw [Json.units_eq]
  induction s.toList with
  | nil => simp
  | cons c chars ih =>
    rw [List.flatMap_cons, List.append_assoc, taken_char, ih, List.flatMap_cons, Option.map_map]
    simp only [Function.comp_def, List.append_assoc]

/-- **A text is decoded to its bytes.** -/
theorem taken_units (s : String) :
    taken (units s) = some (s.toList.flatMap String.utf8EncodeChar) := by
  have htext := taken_text s []
  rw [List.append_nil, taken, Option.map_some, List.append_nil] at htext
  exact htext

/-- The string that is kept of a string in the text. -/
def kept (s : Units) : Option String := (taken s).map fun decoded => stdString (cStr decoded)

/-- A character of one byte, other than NUL. -/
def isAscii (c : Char) : Bool := decide (0 < c.toNat ∧ c.toNat < 128)

/-- ASCII before the end of a C string stands for itself. -/
theorem stdString_ascii {s : String} (h : s.toList.all isAscii = true)
    {rest : List UInt8} (hrest : cStr rest = []) :
    stdString (cStr (s.toList.flatMap String.utf8EncodeChar ++ rest)) = s := by
  have hlist : ∀ chars : List Char, (∀ c ∈ chars, isAscii c = true) →
      (cStr (chars.flatMap String.utf8EncodeChar ++ rest)).map (fun b => Char.ofNat b.toNat) =
        chars := by
    intro chars hchars
    induction chars with
    | nil => rw [List.flatMap_nil, List.nil_append, hrest, List.map_nil]
    | cons c chars ih =>
      obtain ⟨hpos, hlt⟩ : 0 < c.toNat ∧ c.toNat < 128 :=
        of_decide_eq_true (hchars c List.mem_cons_self)
      have hnat : (UInt8.ofNat c.toNat).toNat = c.toNat :=
        UInt8.toNat_ofNat_of_lt' (by rw [UInt8.size]; omega)
      have hne : UInt8.ofNat c.toNat ≠ 0 := by
        intro hzero
        rw [hzero, UInt8.toNat_zero] at hnat
        omega
      have hcstr : ∀ bytes : List UInt8,
          cStr (.ofNat c.toNat :: bytes) = .ofNat c.toNat :: cStr bytes :=
        fun _ => List.takeWhile_cons_of_pos (decide_eq_true hne)
      rw [List.flatMap_cons, UriComponent.utf8EncodeChar_eq, if_pos (by omega),
        List.singleton_append, List.cons_append, hcstr, List.map_cons,
        ih fun d hd => hchars d (List.mem_cons_of_mem _ hd), hnat, Char.ofNat_toNat]
  rw [stdString, hlist s.toList (List.all_eq_true.mp h), String.ofList_toList]

/-- **ASCII is kept as it was.** -/
theorem kept_ascii {s : String} (h : s.toList.all isAscii = true) :
    kept (units s) = some s := by
  have hself := stdString_ascii h (show cStr [] = [] from rfl)
  rw [List.append_nil] at hself
  rw [kept, taken_units, Option.map_some, hself]

/-- It is kept up to a NUL. -/
theorem kept_nul {s : String} (h : s.toList.all isAscii = true) :
    kept (units s ++ [0]) = some s := by
  have hnul : taken [0] = some [0] := rfl
  rw [kept, taken_text, hnul, Option.map_some, Option.map_some, stdString_ascii h rfl]

/-! ### Strings in a text -/

/-- Bytes that neither end a string nor begin an escape are taken off one by one. -/
theorem read_plain {bytes : List UInt8} (h : ∀ b ∈ bytes, isPlain b = true) (text : List UInt8) :
    readString (bytes ++ text) = (readString text).map fun r => (bytes ++ r.1, r.2) := by
  induction bytes with
  | nil => simp
  | cons b bytes ih =>
    have hb := h b List.mem_cons_self
    simp only [isPlain, ne_eq, decide_not, Bool.and_eq_true, Bool.not_eq_true',
      decide_eq_false_iff_not] at hb
    rw [List.cons_append, readString.eq_def]
    dsimp only
    rw [if_neg hb.2, if_neg hb.1, ih fun c hc => h c (List.mem_cons_of_mem _ hc),
      Option.map_map]
    rfl

/-- A backslash and what it escapes are taken off together. -/
theorem read_backslash (e : UInt8) (text : List UInt8) :
    readString (92 :: e :: text) = (readString text).map fun r => (92 :: e :: r.1, r.2) := by
  rw [readString.eq_def]
  dsimp only
  rw [if_pos rfl]

theorem read_escapeBytes (u : UInt16) (text : List UInt8) :
    readString (escapeBytes u ++ text) =
      (readString text).map fun r => (escapeBytes u ++ r.1, r.2) := by
  have hdigit : ∀ n < 16, isPlain (.ofNat (hexDigit n).toNat) = true := by decide
  have hlt := u.toNat_lt
  rw [escapeBytes, List.cons_append, List.cons_append, read_backslash, read_plain, Option.map_map]
  · rfl
  · simp only [List.forall_mem_cons, List.not_mem_nil, false_imp_iff, implies_true, and_true]
    exact ⟨hdigit _ (by omega), hdigit _ (by omega), hdigit _ (by omega), hdigit _ (by omega)⟩

/-- What is written for a code unit is taken off the text. -/
theorem read_escape (u : UInt16) (text : List UInt8) :
    readString (utf8 (escape u) ++ text) =
      (readString text).map fun r => (utf8 (escape u) ++ r.1, r.2) := by
  unfold escape
  split_ifs with h₁ h₂ h₃ h₄ h₅ h₆ h₇ h₈
  · exact read_backslash 98 text
  · exact read_backslash 116 text
  · exact read_backslash 110 text
  · exact read_backslash 102 text
  · exact read_backslash 114 text
  · exact read_backslash 34 text
  · exact read_backslash 92 text
  · rw [utf8_unicodeEscape, read_escapeBytes]
  · simp only [Bool.or_eq_true, not_or, Bool.not_eq_true] at h₈
    rw [utf8_cons h₈.1.2, utf8, List.append_nil, read_plain (plain_utf8Unit h₆ h₇)]

theorem read_quote_end (rest : List UInt8) : readString (34 :: rest) = some ([], rest) := by
  rw [readString.eq_def]
  dsimp only
  rw [if_neg (by decide), if_pos rfl]

/-- **A written string is taken off the text** up to its quotation mark. -/
theorem read_quoteBody : ∀ (s : Units) (rest : List UInt8),
    readString (utf8 (quoteBody s) ++ 34 :: rest) = some (utf8 (quoteBody s), rest)
  | [], rest => by rw [quoteBody, utf8, List.nil_append, read_quote_end]
  | [u], rest => by
    rw [quoteBody, read_escape, read_quote_end, Option.map_some, List.append_nil]
  | u :: v :: s, rest => by
    by_cases hpair : (isLead u && isTrail v) = true
    · obtain ⟨hu, hv⟩ := Bool.and_eq_true _ _ ▸ hpair
      rw [quoteBody, if_pos hpair, utf8_pair hu hv, List.append_assoc,
        read_plain (plain_pair hu hv), read_quoteBody s rest, Option.map_some]
    · rw [quoteBody, if_neg hpair, utf8_append_of_not_lead (Json.not_lead_escape u),
        List.append_assoc, read_escape, read_quoteBody (v :: s) rest, Option.map_some]

/-! ### Tokens -/

theorem nextToken_eq {text : List UInt8} (h : (readToken text).1 ≠ .comment) :
    nextToken text = readToken text := by
  rw [nextToken]
  cases text.length with
  | zero => rfl
  | succ n => rw [skipCommentTokens, if_neg h]

/-- The token of a written string. -/
theorem token_quote (s : Units) (rest : List UInt8) :
    readToken (34 :: (utf8 (quoteBody s) ++ 34 :: rest)) =
      (.string (utf8 (quoteBody s)), rest) := by
  have hskip : skipSpaces (34 :: (utf8 (quoteBody s) ++ 34 :: rest)) =
      34 :: (utf8 (quoteBody s) ++ 34 :: rest) := List.dropWhile_cons_of_neg (by decide)
  rw [readToken, hskip]
  dsimp only
  rw [if_neg (by decide), if_neg (by decide), if_neg (by decide), if_neg (by decide), if_pos rfl,
    read_quoteBody]

/-! ### Values -/

mutual

/-- The value that is read, if all of its strings and numbers are decoded. -/
def image : Json.Value → Option Value
  | .null => some .null
  | .bool b => some (.boolean b)
  | .number n => decodeNumber (utf8 n.text)
  | .string s => (taken s).map fun decoded => .string (stdString (cStr decoded))
  | .array items => (imageItems items).map .array
  | .object members => (imageMembers [] members).map .object

def imageItems : List Json.Value → Option (List Value)
  | [] => some []
  | item :: items => (image item).bind fun value => (imageItems items).map (value :: ·)

/-- A member replaces one that has the same name up to the first NUL. -/
def imageMembers : List (String × Value) → List (Units × Json.Value) →
    Option (List (String × Value))
  | members, [] => some members
  | members, (key, item) :: rest =>
    (taken key).bind fun name => (image item).bind fun value =>
      imageMembers (setMember members (stdString (cStr name)) value) rest

end

/-- A text that is read as one number. -/
structure NumberText (text : Units) : Prop where
  head : ∃ c more, utf8 text = c :: more ∧ (isDigit c || c = 45) = true
  chars : ∀ b ∈ utf8 text, isNumberChar b = true

mutual

/-- The numbers in the value are written as numbers. -/
def Numbered : Json.Value → Prop
  | .number n => NumberText n.text
  | .array items => NumberedItems items
  | .object members => NumberedMembers members
  | _ => True

def NumberedItems : List Json.Value → Prop
  | [] => True
  | item :: items => Numbered item ∧ NumberedItems items

def NumberedMembers : List (Units × Json.Value) → Prop
  | [] => True
  | (_, value) :: members => Numbered value ∧ NumberedMembers members

end

/-- What follows is no part of a number. -/
def Ends (rest : List UInt8) : Prop := ∀ c ∈ rest.head?, isNumberChar c = false

theorem ends_cons {c : UInt8} (h : isNumberChar c = false) (rest : List UInt8) :
    Ends (c :: rest) := by
  intro d hd
  obtain rfl := Option.some.inj hd
  exact h

/-- A value begins with none of these. -/
theorem head_stringify {value : Json.Value} (h : Numbered value) :
    ∃ c more, utf8 (stringify value) = c :: more ∧ isSpace c = false ∧ c ≠ 93 := by
  cases value with
  | null => exact ⟨110, _, rfl, rfl, by decide⟩
  | bool b =>
    cases b with
    | true => exact ⟨116, _, rfl, rfl, by decide⟩
    | false => exact ⟨102, _, rfl, rfl, by decide⟩
  | number n =>
    rw [Numbered] at h
    obtain ⟨c, more, heq, hc⟩ := h.head
    have hall : ∀ m < 256, (isDigit (.ofNat m) || (.ofNat m : UInt8) = 45) = true →
        isSpace (.ofNat m) = false ∧ (.ofNat m : UInt8) ≠ 93 := by decide +kernel
    have hself := hall c.toNat c.toNat_lt
    rw [UInt8.ofNat_toNat] at hself
    exact ⟨c, more, heq, hself hc⟩
  | string s =>
    refine ⟨34, utf8 (quoteBody s ++ [34]), ?_, rfl, by decide⟩
    rw [stringify, quote, List.cons_append, utf8_ascii (by decide)]
    rfl
  | array items =>
    refine ⟨91, utf8 (stringifyItems items ++ [93]), ?_, rfl, by decide⟩
    rw [stringify, List.cons_append, utf8_ascii (by decide)]
    rfl
  | object members =>
    refine ⟨123, utf8 (stringifyMembers members ++ [125]), ?_, rfl, by decide⟩
    rw [stringify, List.cons_append, utf8_ascii (by decide)]
    rfl

/-- The text between brackets. -/
theorem utf8_enclosed {first last : UInt16} (hfirst : first.toNat < 0x80)
    (hlast : last.toNat < 0x80) (s : Units) :
    utf8 (first :: s ++ [last]) = .ofNat first.toNat :: (utf8 s ++ [.ofNat last.toNat]) := by
  have htrail : isTrail last = false := by
    rw [← Bool.not_eq_true, isTrail_iff]
    omega
  rw [List.cons_append, utf8_ascii hfirst, utf8_append s htrail, utf8_ascii hlast, utf8]

theorem utf8_items_cons (item next : Json.Value) (items : List Json.Value) :
    utf8 (stringifyItems (item :: next :: items)) =
      utf8 (stringify item) ++ 44 :: utf8 (stringifyItems (next :: items)) := by
  rw [stringifyItems, utf8_append _ (by decide), utf8_ascii (by decide)]
  rfl

/-- The text of a member, before whatever follows. -/
theorem utf8_member (key : Units) (value : Json.Value) (tail : Units) :
    utf8 (quote key ++ 58 :: (stringify value ++ tail)) =
      34 :: (utf8 (quoteBody key) ++ 34 :: 58 :: utf8 (stringify value ++ tail)) := by
  rw [quote, List.cons_append, List.cons_append, List.append_assoc, List.singleton_append,
    utf8_ascii (by decide), utf8_append _ (by decide), utf8_ascii (by decide),
    utf8_ascii (by decide)]
  rfl

theorem readValue_number {n : Json.Number} (h : NumberText n.text) (fuel : ℕ)
    {rest : List UInt8} (hrest : Ends rest) :
    readValue (fuel + 1) (utf8 n.text ++ rest) =
      (decodeNumber (utf8 n.text)).map (·, rest) := by
  obtain ⟨c, more, heq, hc⟩ := h.head
  have hmore : ∀ b ∈ more, isNumberChar b = true :=
    fun b hb => h.chars b (heq ▸ List.mem_cons_of_mem _ hb)
  have htake : (more ++ rest).takeWhile isNumberChar = more := by
    rw [List.takeWhile_append_of_pos hmore]
    cases rest with
    | nil => simp
    | cons d rest => rw [List.takeWhile_cons_of_neg (by simp [hrest d rfl]), List.append_nil]
  have hdrop : (more ++ rest).dropWhile isNumberChar = rest := by
    rw [List.dropWhile_append_of_pos hmore]
    cases rest with
    | nil => rfl
    | cons d rest => exact List.dropWhile_cons_of_neg (by simp [hrest d rfl])
  have hall : ∀ m < 256, (isDigit (.ofNat m) || (.ofNat m : UInt8) = 45) = true →
      isSpace (.ofNat m) = false ∧ (.ofNat m : UInt8) ∉ [123, 125, 91, 93, 34, 47] := by
    decide +kernel
  have hself := hall c.toNat c.toNat_lt
  rw [UInt8.ofNat_toNat] at hself
  obtain ⟨hspace, hne⟩ := hself hc
  simp only [List.mem_cons, List.not_mem_nil, or_false, not_or] at hne
  obtain ⟨h₁, h₂, h₃, h₄, h₅, h₆⟩ := hne
  have htoken : readToken (utf8 n.text ++ rest) = (.number (utf8 n.text), rest) := by
    have hskip : skipSpaces (c :: (more ++ rest)) = c :: (more ++ rest) :=
      List.dropWhile_cons_of_neg (by simp [hspace])
    rw [heq, List.cons_append, readToken, hskip]
    dsimp only
    rw [if_neg h₁, if_neg h₂, if_neg h₃, if_neg h₄, if_neg h₅, if_neg h₆, if_pos hc, htake, hdrop]
  have hnext : nextToken (utf8 n.text ++ rest) = (.number (utf8 n.text), rest) := by
    rw [nextToken_eq (by rw [htoken]; exact Token.noConfusion), htoken]
  rw [readValue, hnext]

theorem readValue_string (s : Units) (fuel : ℕ) (rest : List UInt8) :
    readValue (fuel + 1) (34 :: (utf8 (quoteBody s) ++ 34 :: rest)) =
      (image (.string s)).map (·, rest) := by
  have hnext : nextToken (34 :: (utf8 (quoteBody s) ++ 34 :: rest)) =
      (.string (utf8 (quoteBody s)), rest) := by
    rw [nextToken_eq (by rw [token_quote]; exact Token.noConfusion), token_quote]
  rw [readValue, hnext]
  dsimp only
  rw [decode_quoteBody, image, Option.map_map]
  rfl

theorem token_array (text : List UInt8) : readToken (91 :: text) = (.arrayBegin, text) := rfl

theorem token_array_end (text : List UInt8) : readToken (93 :: text) = (.arrayEnd, text) := rfl

theorem token_object (text : List UInt8) : readToken (123 :: text) = (.objectBegin, text) := rfl

theorem token_object_end (text : List UInt8) : readToken (125 :: text) = (.objectEnd, text) := rfl

theorem token_comma (text : List UInt8) : readToken (44 :: text) = (.arraySeparator, text) := rfl

theorem token_colon (text : List UInt8) : readToken (58 :: text) = (.memberSeparator, text) := rfl

/-- A token that is no comment is the next one. -/
theorem nextToken_of {text rest : List UInt8} {token : Token} (h : readToken text = (token, rest))
    (hne : token ≠ .comment) : nextToken text = (token, rest) := by
  rw [nextToken_eq (by rw [h]; exact hne), h]

theorem head_items {item : Json.Value} (h : Numbered item) (items : List Json.Value) :
    ∃ c more, utf8 (stringifyItems (item :: items)) = c :: more ∧ isSpace c = false ∧ c ≠ 93 := by
  obtain ⟨c, more, heq, hc⟩ := head_stringify h
  cases items with
  | nil => exact ⟨c, more, by rw [stringifyItems, heq], hc⟩
  | cons next items => exact ⟨c, _, by rw [utf8_items_cons, heq]; rfl, hc⟩

/-- One member is read, and what follows it decides how the reader goes on. -/
theorem readObject_member (fuel : ℕ) (members : List (String × Value)) (name : List UInt8)
    (key : Units) {value : Json.Value} {text tail : List UInt8}
    (hread : readValue fuel text = (image value).map (·, tail)) :
    readObject (fuel + 1) members name (34 :: (utf8 (quoteBody key) ++ 34 :: 58 :: text)) =
      (taken key).bind fun name => (image value).bind fun item =>
        if (readToken tail).1 = .objectEnd ∨ (readToken tail).1 = .arraySeparator ∨
            (readToken tail).1 = .comment then
          if (nextToken tail).1 = .objectEnd then
            some (setMember members (stdString (cStr name)) item, (nextToken tail).2)
          else readObject fuel (setMember members (stdString (cStr name)) item) name
            (nextToken tail).2
        else none := by
  have hnext := nextToken_of (token_quote key (58 :: text)) Token.noConfusion
  rw [readObject, hnext]
  dsimp only
  rw [if_neg (fun h => Token.noConfusion h.1), decode_quoteBody]
  cases taken key with
  | none => rfl
  | some name =>
    rw [Option.bind_some, Option.bind_some, token_colon]
    dsimp only
    rw [if_pos rfl, hread]
    cases image value with
    | none => rfl
    | some item => rfl

mutual

/-- **The reader gives the image of a value**, whatever follows it. -/
theorem readValue_stringify : ∀ value : Json.Value, Numbered value → ∀ fuel rest, Ends rest →
    (utf8 (stringify value)).length ≤ fuel →
      readValue (fuel + 1) (utf8 (stringify value) ++ rest) = (image value).map (·, rest)
  | .null, _, fuel, rest, _, _ => by
    have htoken : readToken (utf8 (stringify .null) ++ rest) = (.null, rest) := rfl
    rw [readValue, nextToken_of htoken Token.noConfusion, image]
    rfl
  | .bool true, _, fuel, rest, _, _ => by
    have htoken : readToken (utf8 (stringify (.bool true)) ++ rest) = (.true, rest) := rfl
    rw [readValue, nextToken_of htoken Token.noConfusion, image]
    rfl
  | .bool false, _, fuel, rest, _, _ => by
    have htoken : readToken (utf8 (stringify (.bool false)) ++ rest) = (.false, rest) := rfl
    rw [readValue, nextToken_of htoken Token.noConfusion, image]
    rfl
  | .number n, h, fuel, rest, hrest, _ => by
    rw [Numbered] at h
    rw [stringify, image, readValue_number h fuel hrest]
  | .string s, _, fuel, rest, _, _ => by
    have htext : utf8 (stringify (.string s)) ++ rest =
        34 :: (utf8 (quoteBody s) ++ 34 :: rest) := by
      rw [stringify, quote, ← List.cons_append, utf8_enclosed (by decide) (by decide)]
      simp
    rw [htext, readValue_string]
  | .array items, h, fuel, rest, _, hfuel => by
    rw [Numbered] at h
    have htext : utf8 (stringify (.array items)) =
        91 :: (utf8 (stringifyItems items) ++ [93]) := by
      rw [stringify, utf8_enclosed (by decide) (by decide)]
      rfl
    rw [htext, List.length_cons, List.length_append, List.length_singleton] at hfuel
    obtain ⟨fuel, rfl⟩ : ∃ n, fuel = n + 1 := ⟨fuel - 1, by omega⟩
    rw [htext, List.cons_append, List.append_assoc, List.singleton_append, readValue,
      nextToken_of (token_array _) Token.noConfusion, image]
    dsimp only
    cases items with
    | nil =>
      rw [imageItems]
      rfl
    | cons item items =>
      obtain ⟨c, more, heq, hspace, hne⟩ := head_items (by rw [NumberedItems] at h; exact h.1) items
      have hskip : skipSpaces (utf8 (stringifyItems (item :: items)) ++ 93 :: rest) =
          utf8 (stringifyItems (item :: items)) ++ 93 :: rest := by
        rw [heq]
        exact List.dropWhile_cons_of_neg (by simp [hspace])
      have hhead : (utf8 (stringifyItems (item :: items)) ++ 93 :: rest).head? = some c := by
        rw [heq]
        rfl
      rw [hskip, hhead, if_neg (fun h => hne (Option.some.inj h)),
        readArray_stringify (item :: items) (List.cons_ne_nil _ _) h fuel rest (by omega)]
      cases imageItems (item :: items) with
      | none => rfl
      | some values => rfl
  | .object members, h, fuel, rest, _, hfuel => by
    rw [Numbered] at h
    have htext : utf8 (stringify (.object members)) =
        123 :: (utf8 (stringifyMembers members) ++ [125]) := by
      rw [stringify, utf8_enclosed (by decide) (by decide)]
      rfl
    rw [htext, List.length_cons, List.length_append, List.length_singleton] at hfuel
    obtain ⟨fuel, rfl⟩ : ∃ n, fuel = n + 1 := ⟨fuel - 1, by omega⟩
    rw [htext, List.cons_append, List.append_assoc, List.singleton_append, readValue,
      nextToken_of (token_object _) Token.noConfusion, image]
    dsimp only
    cases members with
    | nil =>
      have hend : nextToken (utf8 (stringifyMembers []) ++ 125 :: rest) = (.objectEnd, rest) := by
        rw [stringifyMembers, utf8, List.nil_append]
        exact nextToken_of (token_object_end rest) Token.noConfusion
      rw [readObject, hend, imageMembers]
      rfl
    | cons m members =>
      rw [readObject_stringify (m :: members) (List.cons_ne_nil _ _) h fuel [] [] rest (by omega)]
      cases imageMembers [] (m :: members) with
      | none => rfl
      | some read => rfl

theorem readArray_stringify : ∀ items : List Json.Value, items ≠ [] → NumberedItems items →
    ∀ fuel rest, (utf8 (stringifyItems items)).length + 1 ≤ fuel →
      readArray (fuel + 1) (utf8 (stringifyItems items) ++ 93 :: rest) =
        (imageItems items).map (·, rest)
  | [], hne, _, _, _, _ => absurd rfl hne
  | [item], _, h, fuel, rest, hfuel => by
    rw [NumberedItems] at h
    rw [stringifyItems] at hfuel ⊢
    obtain ⟨fuel, rfl⟩ : ∃ n, fuel = n + 1 := ⟨fuel - 1, by omega⟩
    rw [readArray, readValue_stringify item h.1 fuel (93 :: rest) (ends_cons rfl rest) (by omega),
      imageItems, imageItems]
    cases image item with
    | none => rfl
    | some value =>
      rw [Option.map_some, Option.bind_some, nextToken_of (token_array_end rest) Token.noConfusion]
      rfl
  | item :: next :: items, _, h, fuel, rest, hfuel => by
    rw [NumberedItems] at h
    rw [utf8_items_cons, List.length_append, List.length_cons] at hfuel
    obtain ⟨fuel, rfl⟩ : ∃ n, fuel = n + 1 := ⟨fuel - 1, by omega⟩
    have hrest := readArray_stringify (next :: items) (List.cons_ne_nil _ _) h.2 fuel rest
      (by omega)
    rw [utf8_items_cons, List.append_assoc, List.cons_append, readArray,
      readValue_stringify item h.1 fuel _ (ends_cons rfl _) (by omega), imageItems]
    cases image item with
    | none => rfl
    | some value =>
      rw [Option.map_some, Option.bind_some, nextToken_of (token_comma _) Token.noConfusion]
      dsimp only
      rw [if_neg Token.noConfusion, hrest, Option.bind_some]
      cases imageItems (next :: items) with
      | none => rfl
      | some values => rfl

theorem readObject_stringify : ∀ members : List (Units × Json.Value), members ≠ [] →
    NumberedMembers members → ∀ fuel read name rest,
      (utf8 (stringifyMembers members)).length + 1 ≤ fuel →
      readObject (fuel + 1) read name (utf8 (stringifyMembers members) ++ 125 :: rest) =
        (imageMembers read members).map (·, rest)
  | [], hne, _, _, _, _, _, _ => absurd rfl hne
  | [(key, value)], _, h, fuel, read, name, rest, hfuel => by
    rw [NumberedMembers] at h
    have htext : utf8 (stringifyMembers [(key, value)]) =
        34 :: (utf8 (quoteBody key) ++ 34 :: 58 :: utf8 (stringify value)) := by
      have hmember := utf8_member key value []
      rwa [List.append_nil] at hmember
    rw [htext] at hfuel
    simp only [List.length_cons, List.length_append] at hfuel
    obtain ⟨fuel, rfl⟩ : ∃ n, fuel = n + 1 := ⟨fuel - 1, by omega⟩
    have hread := readValue_stringify value h.1 fuel (125 :: rest) (ends_cons rfl rest) (by omega)
    have happend : utf8 (stringifyMembers [(key, value)]) ++ 125 :: rest =
        34 :: (utf8 (quoteBody key) ++ 34 :: 58 :: (utf8 (stringify value) ++ 125 :: rest)) := by
      rw [htext]
      simp
    rw [happend, readObject_member _ _ _ _ hread,
      nextToken_of (token_object_end rest) Token.noConfusion, token_object_end, imageMembers]
    cases taken key with
    | none => rfl
    | some decoded =>
      cases image value with
      | none => rfl
      | some item =>
        rw [Option.bind_some, Option.bind_some, Option.bind_some, Option.bind_some, imageMembers]
        rfl
  | (key, value) :: next :: members, _, h, fuel, read, name, rest, hfuel => by
    rw [NumberedMembers] at h
    have htext : utf8 (stringifyMembers ((key, value) :: next :: members)) =
        34 :: (utf8 (quoteBody key) ++ 34 :: 58 ::
          (utf8 (stringify value) ++ 44 :: utf8 (stringifyMembers (next :: members)))) := by
      have hcomma : utf8 (stringify value ++ 44 :: stringifyMembers (next :: members)) =
          utf8 (stringify value) ++ 44 :: utf8 (stringifyMembers (next :: members)) := by
        rw [utf8_append _ (by decide), utf8_ascii (by decide)]
        rfl
      rw [← hcomma, ← utf8_member, stringifyMembers]
      simp
    rw [htext] at hfuel
    simp only [List.length_cons, List.length_append] at hfuel
    obtain ⟨fuel, rfl⟩ : ∃ n, fuel = n + 1 := ⟨fuel - 1, by omega⟩
    have hread := readValue_stringify value h.1 fuel
      (44 :: (utf8 (stringifyMembers (next :: members)) ++ 125 :: rest)) (ends_cons rfl _)
      (by omega)
    have happend : utf8 (stringifyMembers ((key, value) :: next :: members)) ++ 125 :: rest =
        34 :: (utf8 (quoteBody key) ++ 34 :: 58 :: (utf8 (stringify value) ++
          44 :: (utf8 (stringifyMembers (next :: members)) ++ 125 :: rest))) := by
      rw [htext]
      simp
    rw [happend, readObject_member _ _ _ _ hread,
      nextToken_of (token_comma _) Token.noConfusion, token_comma, imageMembers]
    cases taken key with
    | none => rfl
    | some decoded =>
      cases image value with
      | none => rfl
      | some item =>
        rw [Option.bind_some, Option.bind_some, Option.bind_some, Option.bind_some,
          if_pos (.inr (.inl rfl)), if_neg Token.noConfusion,
          readObject_stringify (next :: members) (List.cons_ne_nil _ _) h.2 fuel _ _ rest
            (by omega)]

end

/-- **The device reads the image of what the server writes.** -/
theorem parse_bytes {value : Json.Value} (h : Numbered value) :
    parse (Json.bytes value) = image value := by
  have hread := readValue_stringify value h (Json.bytes value).length [] (by simp [Ends]) le_rfl
  rw [List.append_nil] at hread
  rw [parse, Json.bytes] at *
  rw [hread, Option.map_map]
  cases image value <;> rfl

end Reader

end Jsoncpp

end IpcMini
