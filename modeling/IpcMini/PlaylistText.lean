/-
What the server reads in a playlist that the recorder wrote.

`listedMediaFromPlaylist` takes the text apart again: lines, without the white
space around them, that are no comments and end in `.m4s`.

* `Plain` — a name that survives this;
* **`listed_of_mem_names`** — every plain name of a playlist is read from its
  text, **`mem_names_of_listed`** — and nothing else;
* `Generated.plain` — the recorder's own names are plain.
-/
import IpcMini.HlsPlaylist
import IpcMini.RecordHttp

namespace IpcMini

open RecordHttp

/-- A segment's name without white space, which does not begin a comment. -/
structure Plain (name : List Char) : Prop where
  segment : isSegment name = true
  no_space : ∀ c ∈ name, isSpace c = false
  no_comment : name.head? ≠ some '#'

theorem Plain.ne_nil {name : List Char} (h : Plain name) : name ≠ [] := by
  rintro rfl
  exact absurd h.segment (by decide)

theorem Plain.trim {name : List Char} (h : Plain name) : trim name = name := by
  have hdrop : ∀ l : List Char, (∀ c ∈ l, isSpace c = false) → l.dropWhile isSpace = l := by
    intro l hl
    cases l with
    | nil => rfl
    | cons c l => rw [List.dropWhile_cons_of_neg (by simp [hl c List.mem_cons_self])]
  rw [RecordHttp.trim, hdrop name h.no_space, hdrop name.reverse, List.reverse_reverse]
  exact fun c hc => h.no_space c (List.mem_reverse.mp hc)

theorem Plain.no_break {name : List Char} (h : Plain name) :
    ∀ c ∈ name, c ≠ '\n' ∧ c ≠ '\r' := by
  intro c hc
  have hspace := h.no_space c hc
  constructor
  · rintro rfl
    exact absurd hspace (by decide)
  · rintro rfl
    exact absurd hspace (by decide)

/-! ### Lines -/

theorem splitLines_cons {c : Char} (hn : c ≠ '\n') (rest : List Char)
    (hr : c = '\r' → rest.head? ≠ some '\n') :
    ∃ line lines, splitLines rest = line :: lines ∧
      splitLines (c :: rest) = (c :: line) :: lines := by
  have hne : splitLines rest ≠ [] := by
    rw [splitLines.eq_def]
    split
    · simp
    · simp
    · simp
    · split <;> simp
  obtain ⟨line, lines, hsplit⟩ := List.exists_cons_of_ne_nil hne
  refine ⟨line, lines, hsplit, ?_⟩
  rw [splitLines.eq_4 c rest hn, hsplit]
  rintro rest' rfl rfl
  exact hr rfl rfl

/-- A line without line breaks is split off. -/
theorem splitLines_line {line : List Char} (h : ∀ c ∈ line, c ≠ '\n' ∧ c ≠ '\r')
    (rest : List Char) : splitLines (line ++ '\n' :: rest) = line :: splitLines rest := by
  induction line with
  | nil => rw [List.nil_append, splitLines.eq_2]
  | cons c line ih =>
    obtain ⟨l, ls, hsplit, heq⟩ := splitLines_cons (h c List.mem_cons_self).1
      (line ++ '\n' :: rest) fun hc => absurd hc (h c List.mem_cons_self).2
    rw [ih fun d hd => h d (List.mem_cons_of_mem _ hd)] at hsplit
    obtain ⟨rfl, rfl⟩ := List.cons_eq_cons.mp hsplit
    rw [List.cons_append, heq]

/-- The lines of a text, each ended by a line break. -/
theorem splitLines_flatMap {lines : List (List Char)}
    (h : ∀ line ∈ lines, ∀ c ∈ line, c ≠ '\n' ∧ c ≠ '\r') :
    splitLines (lines.flatMap fun line => line ++ ['\n']) = lines ++ [[]] := by
  induction lines with
  | nil => rw [List.flatMap_nil, splitLines.eq_1, List.nil_append]
  | cons line lines ih =>
    rw [List.flatMap_cons, List.append_assoc, List.singleton_append,
      splitLines_line (h line List.mem_cons_self),
      ih fun l hl => h l (List.mem_cons_of_mem _ hl), List.cons_append]

/-- It is split off wherever it stands between two line breaks. -/
theorem mem_splitLines {line : List Char} (h : ∀ c ∈ line, c ≠ '\n' ∧ c ≠ '\r')
    (before rest : List Char) :
    line ∈ (splitLines (before ++ '\n' :: (line ++ '\n' :: rest))).tail := by
  induction before with
  | nil =>
    rw [List.nil_append, splitLines.eq_2, splitLines_line h]
    simp
  | cons c before ih =>
    rw [List.cons_append]
    by_cases hn : c = '\n'
    · rw [hn, splitLines.eq_2]
      exact List.mem_of_mem_tail ih
    by_cases hr : c = '\r' → (before ++ '\n' :: (line ++ '\n' :: rest)).head? ≠ some '\n'
    · obtain ⟨l, ls, hsplit, heq⟩ := splitLines_cons hn _ hr
      rw [hsplit] at ih
      rw [heq]
      exact ih
    · -- a carriage return belongs to the line break after it
      simp only [not_forall, not_not, exists_prop] at hr
      obtain ⟨rfl, hhead⟩ := hr
      obtain ⟨tail, htail⟩ : ∃ tail, before ++ '\n' :: (line ++ '\n' :: rest) = '\n' :: tail :=
        ⟨_, (List.cons_head?_tail hhead).symm⟩
      rw [htail, splitLines.eq_2] at ih
      rw [htail, splitLines.eq_3]
      exact ih

/-! ### The text of a playlist -/

/-- The line of a name follows another line. -/
theorem textOf_mem_names {p : HlsPlaylist} {name : String} (h : name ∈ p.names) :
    ∃ before rest, p.text = before ++ '\n' :: (name.toList ++ '\n' :: rest) := by
  obtain ⟨entry, hentry, rfl⟩ := List.mem_map.mp h
  obtain ⟨pre, post, hsplit⟩ := List.append_of_mem hentry
  obtain ⟨before, line, after, hlines⟩ : ∃ before line after,
      p.lines = before ++ line :: entry.1 :: after := by
    have hinfix : ["#EXTINF:" ++ HlsPlaylist.fixed3 entry.2 ++ ",", entry.1] <:+: p.lines := by
      rw [HlsPlaylist.lines]
      refine List.IsInfix.trans ?_ (List.infix_append _ _ _)
      rw [hsplit, List.flatMap_append, List.flatMap_cons]
      exact ⟨_, _, List.append_assoc _ _ _⟩
    obtain ⟨before, after, heq⟩ := hinfix
    exact ⟨before, "#EXTINF:" ++ HlsPlaylist.fixed3 entry.2 ++ ",", after, by rw [← heq]; simp⟩
  refine ⟨(before.flatMap fun l => l.toList ++ ['\n']) ++ line.toList,
    after.flatMap fun l => l.toList ++ ['\n'], ?_⟩
  rw [HlsPlaylist.text, hlines]
  simp

/-- **The plain names of a playlist are read from its text.** -/
theorem listed_of_mem_names {p : HlsPlaylist} {name : String} (hplain : Plain name.toList)
    (h : name ∈ p.names) : name.toList ∈ listedMediaFromPlaylist p.text := by
  obtain ⟨before, rest, htext⟩ := textOf_mem_names h
  have hline := List.mem_of_mem_tail (mem_splitLines hplain.no_break before rest)
  rw [listedMediaFromPlaylist, List.mem_filter]
  refine ⟨List.mem_map.mpr ⟨name.toList, htext ▸ hline, hplain.trim⟩, ?_⟩
  obtain ⟨c, cs, hname⟩ := List.exists_cons_of_ne_nil hplain.ne_nil
  have hhash : c ≠ '#' := by
    have := hplain.no_comment
    rw [hname] at this
    simpa using this
  have hprefix : ['#'].isPrefixOf (c :: cs) = false := by
    simp [List.isPrefixOf, Ne.symm hhash]
  rw [hplain.segment, hname, hprefix]
  rfl

/-! ### Nothing else in the text -/

/-- A comment is still one without the white space around it. -/
theorem trim_comment (rest : List Char) : ∃ rest', trim ('#' :: rest) = '#' :: rest' := by
  have hspace : isSpace '#' = false := by decide
  rw [trim, List.dropWhile_cons_of_neg (by simp [hspace]), List.reverse_cons,
    List.dropWhile_append]
  split
  · exact ⟨[], by rw [List.dropWhile_cons_of_neg (by simp [hspace])]; rfl⟩
  · exact ⟨_, by rw [List.reverse_append]; rfl⟩

theorem dateChar_of_mem_int {n : ℤ} {c : Char} (h : c ∈ (toString n).toList) :
    dateChar c = true := by
  have hnat : ∀ m : ℕ, c ∈ (Nat.repr m).toList → dateChar c = true := by
    intro m hm
    rw [Nat.repr, String.toList_ofList] at hm
    simp [dateChar, Nat.isDigit_of_mem_toDigits (by omega) (by omega) hm]
  cases n with
  | ofNat m => exact hnat m h
  | negSucc m =>
    have : c ∈ ("-" ++ Nat.repr (m + 1)).toList := h
    rw [String.toList_append, List.mem_append] at this
    rcases this with hc | hc
    · obtain rfl : c = '-' := by simpa using hc
      rfl
    · exact hnat _ hc

/-- A character of a number is no line break. -/
theorem ne_break_of_dateChar {c : Char} (h : dateChar c = true) : c ≠ '\n' ∧ c ≠ '\r' := by
  constructor
  · rintro rfl
    exact absurd h (by decide)
  · rintro rfl
    exact absurd h (by decide)

/-- The fixed parts of the lines. -/
theorem no_break_fixed : ∀ l ∈ ["#EXTM3U", "#EXT-X-VERSION:7", "#EXT-X-TARGETDURATION:",
    "#EXT-X-MEDIA-SEQUENCE:", "#EXT-X-INDEPENDENT-SEGMENTS", "#EXT-X-MAP:URI=\"init.mp4\"",
    "#EXTINF:", ".", ",", "#EXT-X-ENDLIST"], ∀ c ∈ l.toList, c ≠ '\n' ∧ c ≠ '\r' := by
  intro l hl
  have hall : (l.toList.all fun c => decide (c ≠ '\n' ∧ c ≠ '\r')) = true := by
    revert l
    decide
  intro c hc
  simpa using List.all_eq_true.mp hall c hc

/-- A line of a playlist is a name or a comment. -/
theorem mem_lines {p : HlsPlaylist} {line : String} (h : line ∈ p.lines) :
    line ∈ p.names ∨
      (line.toList.head? = some '#' ∧ ∀ c ∈ line.toList, c ≠ '\n' ∧ c ≠ '\r') := by
  rw [HlsPlaylist.lines, List.mem_append, List.mem_append] at h
  rcases h with (h | h) | h
  · refine .inr ?_
    simp only [List.mem_cons, List.not_mem_nil, or_false] at h
    -- of the header only two lines have numbers in them
    rcases h with rfl | rfl | rfl | rfl | rfl | rfl
    · exact ⟨by simp, no_break_fixed _ (by simp)⟩
    · exact ⟨by simp, no_break_fixed _ (by simp)⟩
    · refine ⟨by simp, fun c hc => ?_⟩
      rw [String.toList_append, List.mem_append] at hc
      rcases hc with hc | hc
      · exact no_break_fixed _ (by simp) c hc
      · exact ne_break_of_dateChar (dateChar_of_mem_int hc)
    · refine ⟨by simp, fun c hc => ?_⟩
      rw [String.toList_append, List.mem_append] at hc
      rcases hc with hc | hc
      · exact no_break_fixed _ (by simp) c hc
      · exact ne_break_of_dateChar (dateChar_of_mem_int (n := p.mediaSequence) hc)
    · exact ⟨by simp, no_break_fixed _ (by simp)⟩
    · exact ⟨by simp, no_break_fixed _ (by simp)⟩
  · obtain ⟨entry, hentry, hline⟩ := List.mem_flatMap.mp h
    simp only [List.mem_cons, List.not_mem_nil, or_false] at hline
    rcases hline with rfl | rfl
    · refine .inr ⟨by simp, fun c hc => ?_⟩
      simp only [HlsPlaylist.fixed3, String.toList_append, List.mem_append] at hc
      rcases hc with (hc | (hc | hc) | hc) | hc
      · exact no_break_fixed _ (by simp) c hc
      · exact ne_break_of_dateChar (dateChar_of_mem_pad hc)
      · exact no_break_fixed "." (by simp) c hc
      · exact ne_break_of_dateChar (dateChar_of_mem_pad hc)
      · exact no_break_fixed "," (by simp) c hc
    · exact .inl (List.mem_map.mpr ⟨entry, hentry, rfl⟩)
  · split at h
    · obtain rfl := List.mem_singleton.mp h
      exact .inr ⟨by simp, no_break_fixed _ (by simp)⟩
    · exact absurd h (by simp)

/-- The lines of the text, if no name breaks one. -/
theorem split_text {p : HlsPlaylist}
    (h : ∀ name ∈ p.names, ∀ c ∈ name.toList, c ≠ '\n' ∧ c ≠ '\r') :
    splitLines p.text = p.lines.map String.toList ++ [[]] := by
  have htext : p.text = (p.lines.map String.toList).flatMap fun line => line ++ ['\n'] := by
    rw [HlsPlaylist.text, List.flatMap_map]
  rw [htext]
  refine splitLines_flatMap fun line hline => ?_
  obtain ⟨l, hl, rfl⟩ := List.mem_map.mp hline
  rcases mem_lines hl with hname | ⟨-, hcomment⟩
  · exact h l hname
  · exact hcomment

/-- **Only the names of a playlist are read from its text.** -/
theorem mem_names_of_listed {p : HlsPlaylist} (hplain : ∀ name ∈ p.names, Plain name.toList)
    {name : List Char} (h : name ∈ listedMediaFromPlaylist p.text) :
    String.ofList name ∈ p.names := by
  rw [listedMediaFromPlaylist, split_text fun l hl => (hplain l hl).no_break,
    List.mem_filter] at h
  obtain ⟨hmem, hkind⟩ := h
  obtain ⟨line, hline, rfl⟩ := List.mem_map.mp hmem
  rcases List.mem_append.mp hline with hline | hline
  · obtain ⟨l, hl, rfl⟩ := List.mem_map.mp hline
    rcases mem_lines hl with hname | ⟨hhead, -⟩
    · rw [(hplain l hname).trim, String.ofList_toList]
      exact hname
    · -- a comment is not read
      obtain ⟨rest, hrest⟩ : ∃ rest, l.toList = '#' :: rest :=
        ⟨_, (List.cons_head?_tail hhead).symm⟩
      obtain ⟨rest', htrim⟩ := trim_comment rest
      rw [hrest, htrim] at hkind
      exact absurd hkind (by simp [List.isPrefixOf])
  · obtain rfl := List.mem_singleton.mp hline
    exact absurd hkind (by decide)

/-! ### The recorder's names -/

theorem isSpace_of_dateChar {c : Char} (h : dateChar c = true) : isSpace c = false := by
  simp only [dateChar, Bool.or_eq_true, beq_iff_eq] at h
  rcases h with h | rfl
  · have : 48 ≤ c.toNat ∧ c.toNat ≤ 57 := by
      simpa [Char.isDigit, UInt32.le_iff_toNat_le] using h
    simp [isSpace]
    omega
  · decide

/-- The names that the recorder makes are plain. -/
theorem Generated.plain {file : File} (h : Generated file) : Plain file.name.toList := by
  obtain ⟨rest, hname, hchars⟩ := h.toList_name
  have hall : ∀ c ∈ file.name.toList, dateChar c = true ∨ c ∈ ['_', '.', 'm', '4', 's'] := by
    intro c hc
    rw [hname] at hc
    simp only [List.mem_append, List.mem_cons] at hc hchars ⊢
    rcases hc with (hc | hc | hc) | hc
    · exact .inl (hchars c (.inl hc))
    · exact .inr (.inl hc)
    · exact .inl (hchars c (.inr hc))
    · exact .inr (.inr hc)
  refine ⟨by simp [hname, isSegment], fun c hc => ?_, fun hhead => ?_⟩
  · rcases hall c hc with hc | hc
    · exact isSpace_of_dateChar hc
    · simp only [List.mem_cons, List.not_mem_nil, or_false] at hc
      rcases hc with rfl | rfl | rfl | rfl | rfl <;> decide
  · rcases hall '#' (List.mem_of_mem_head? hhead) with hc | hc
    · exact absurd hc (by decide)
    · exact absurd hc (by decide)

end IpcMini
