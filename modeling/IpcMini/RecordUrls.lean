/-
The URLs of the recordings that the page asks for (`cloud/signaling/public/viewer.js`,
`cloud/signaling/record_http.js`).

The page encodes the name of a room and appends a day and a name.  The browser and the server
parse the URL, and the server decodes and normalizes its path.

* `roomOf`, `recordBasePath`, `playlistPath` — the paths of the page's URLs;
* `urlPathname_segments` — segments that are no dots stay as they are;
* `objectRel_join` — names that are joined are normalized to themselves;
* **`recordRel_encode`** — the server finds the room's own name again, whatever characters
  it has.
-/
import IpcMini.UploadKeys
import IpcMini.UriEncoding

namespace IpcMini

open PosixPath RecordHttp UploadKeys

namespace RecordUrls

/-! ### The paths of the page -/

/-- `ui.room.value.trim() || "door-1"`. -/
def roomOf (value : List Char) : List Char :=
  if trim value = [] then ['d', 'o', 'o', 'r', '-', '1'] else trim value

/-- The path of `recordBaseUrl`. -/
def recordBasePath (room : List Char) : List Char := record ++ '/' :: UriComponent.encode room

/-- The path of the playlist of a day. -/
def playlistPath (room day : List Char) : List Char :=
  recordBasePath room ++ '/' :: (day ++ '/' :: indexName)

/-- A name that the server takes as one: with no two dots, and no NUL. -/
structure Servable (name : List Char) : Prop where
  is_name : IsName name
  no_dotdot : ¬ dotdot <:+: name
  no_null : Char.ofNat 0 ∉ name

/-! ### Dots of encoded names -/

/-- An escape that is not that of a dot stays. -/
theorem unescape_escape {b : UInt8} (h : b.toNat ≠ 46) (rest : List Char) :
    unescapeDots (UriComponent.escape b ++ rest) =
      UriComponent.escape b ++ unescapeDots rest := by
  have hlower : ∀ n < 16, UriComponent.upperDigit n ≠ 'e' := by decide
  have hupper : ∀ n < 16, UriComponent.upperDigit n = 'E' → n = 14 := by decide
  have htwo : ∀ n < 16, UriComponent.upperDigit n = '2' → n = 2 := by decide
  have hpercent : ∀ n < 16, UriComponent.upperDigit n ≠ '%' := by decide
  have hb := b.toNat_lt
  have hother : ∀ {c : Char} {more : List Char}, c ≠ '%' →
      unescapeDots (c :: more) = c :: unescapeDots more := by
    intro c more hc
    rw [unescapeDots]
    · rintro more' rfl
      exact absurd rfl hc
    · rintro more' rfl
      exact absurd rfl hc
  have hfirst : unescapeDots (UriComponent.escape b ++ rest) =
      '%' :: unescapeDots (UriComponent.upperDigit (b.toNat / 16) ::
        UriComponent.upperDigit (b.toNat % 16) :: rest) := by
    rw [UriComponent.escape, List.cons_append, List.cons_append, List.cons_append,
      List.nil_append, unescapeDots]
    · intro more _ heq
      exact hlower _ (by omega) (List.cons.inj (List.cons.inj heq).2).1
    · intro more _ heq
      obtain ⟨hhigh, heq⟩ := List.cons.inj heq
      have := htwo _ (by omega) hhigh
      have := hupper _ (by omega) (List.cons.inj heq).1
      omega
  rw [hfirst, hother (hpercent _ (by omega)), hother (hpercent _ (by omega))]
  rfl

theorem unescape_unreserved {c : Char} (h : UriComponent.isUnreserved c = true)
    (rest : List Char) : unescapeDots (c :: rest) = c :: unescapeDots rest := by
  have hc := UriComponent.not_percent h
  rw [unescapeDots]
  · rintro more rfl
    exact absurd rfl hc
  · rintro more rfl
    exact absurd rfl hc

/-- No octet of a character that is escaped is a dot. -/
theorem octet_ne_dot {c : Char} (h : UriComponent.isUnreserved c = false) :
    ∀ b ∈ String.utf8EncodeChar c, b.toNat ≠ 46 := by
  have hdot : c.toNat ≠ 46 := by
    intro heq
    have hc : c = '.' := Char.toNat_inj.mp heq
    rw [hc] at h
    exact absurd h (by decide)
  have hoctet : ∀ n, n < 256 → (n ≠ 46) → (UInt8.ofNat n).toNat ≠ 46 := by
    intro n hn hne
    rwa [UriComponent.toNat_octet hn]
  rw [UriComponent.utf8EncodeChar_eq]
  intro b hb
  split_ifs at hb <;> simp only [List.mem_cons, List.not_mem_nil, or_false] at hb
  · rw [hb]
    exact hoctet _ (by omega) hdot
  · rcases hb with rfl | rfl <;> exact hoctet _ (by omega) (by omega)
  · rcases hb with rfl | rfl | rfl <;> exact hoctet _ (by omega) (by omega)
  · have hvalid := c.valid
    have hnat : c.val.toNat = c.toNat := rfl
    rw [UInt32.isValidChar, hnat, Nat.isValidChar] at hvalid
    rcases hb with rfl | rfl | rfl | rfl <;> exact hoctet _ (by omega) (by omega)

theorem unescape_escapes {bytes : List UInt8} (h : ∀ b ∈ bytes, b.toNat ≠ 46)
    (rest : List Char) : unescapeDots (bytes.flatMap UriComponent.escape ++ rest) =
      bytes.flatMap UriComponent.escape ++ unescapeDots rest := by
  induction bytes with
  | nil => rfl
  | cons b bytes ih =>
    rw [List.flatMap_cons, List.append_assoc, unescape_escape (h b List.mem_cons_self),
      ih fun c hc => h c (List.mem_cons_of_mem _ hc), List.append_assoc]

/-- **What the page encodes has no escaped dots.** -/
theorem unescape_encode (text : List Char) :
    unescapeDots (UriComponent.encode text) = UriComponent.encode text := by
  induction text with
  | nil => rfl
  | cons c text ih =>
    rw [UriComponent.encode_cons, UriComponent.encodeChar]
    split
    next hc => rw [List.cons_append, unescape_unreserved hc, List.nil_append, ih]
    next hc =>
      rw [unescape_escapes (octet_ne_dot (Bool.not_eq_true _ ▸ hc)), ih]

/-- The encoding of a name is a segment that is no dots. -/
theorem is_name_encode {name : List Char} (h : IsName name) :
    IsName (UriComponent.encode name) where
  ne_nil := UriComponent.encode_ne_nil h.ne_nil
  ne_dot heq := by
    have hdecode := UriComponent.decode_encode name
    rw [heq] at hdecode
    exact h.ne_dot (Option.some.inj hdecode).symm
  ne_dotdot heq := by
    have hdecode := UriComponent.decode_encode name
    rw [heq] at hdecode
    exact h.ne_dotdot (Option.some.inj hdecode).symm
  no_slash := UriComponent.special_not_mem_encode name '/' (by decide)

/-! ### Segments that stay -/

/-- A segment of a URL that is left as it is. -/
structure Stays (seg : List Char) : Prop where
  is_name : IsName seg
  unescaped : unescapeDots seg = seg
  no_query : ∀ c ∈ ['?', '#'], c ∉ seg

theorem stays_encode {name : List Char} (h : IsName name) :
    Stays (UriComponent.encode name) where
  is_name := is_name_encode h
  unescaped := unescape_encode name
  no_query c hc := UriComponent.special_not_mem_encode name c (List.mem_cons_of_mem _ hc)

theorem stays_tame {name : List Char} (h : Tame name) : Stays name where
  is_name := h.isName
  unescaped := unescape_plain fun hmem => h.plain '%' hmem (by decide)
  no_query c hc hmem := by
    simp only [List.mem_cons, List.not_mem_nil, or_false] at hc
    rcases hc with rfl | rfl <;> exact h.plain _ hmem (by decide)

theorem removeDots_stays {segs : List (List Char)} (h : ∀ seg ∈ segs, Stays seg)
    (stack : List (List Char)) : removeDots stack segs = stack ++ segs := by
  induction segs generalizing stack with
  | nil => rw [removeDots, List.append_nil]
  | cons seg segs ih =>
    have hseg := h seg List.mem_cons_self
    rw [removeDots, hseg.unescaped, if_neg hseg.is_name.ne_dotdot, if_neg hseg.is_name.ne_dot,
      ih fun s hs => h s (List.mem_cons_of_mem _ hs), List.append_assoc]
    rfl

theorem flatMap_slash {segs : List (List Char)} (hne : segs ≠ []) :
    segs.flatMap ('/' :: ·) = '/' :: join segs := by
  induction segs with
  | nil => exact absurd rfl hne
  | cons seg segs ih =>
    cases segs with
    | nil => simp [join]
    | cons next segs =>
      rw [List.flatMap_cons, ih (by simp)]
      simp [join, List.intercalate_cons_cons]

/-- **A path of such segments stays as it is.** -/
theorem urlPathname_segments {segs : List (List Char)} (h : ∀ seg ∈ segs, Stays seg)
    (hne : segs ≠ []) : urlPathname ('/' :: join segs) = '/' :: join segs := by
  have htake : ('/' :: join segs).takeWhile (fun c => decide (c ≠ '?' ∧ c ≠ '#')) =
      '/' :: join segs := by
    rw [← List.append_nil ('/' :: join segs), List.takeWhile_append_of_pos, List.takeWhile_nil]
    intro c hc
    rw [← flatMap_slash hne] at hc
    obtain ⟨seg, hseg, hc⟩ := List.mem_flatMap.mp hc
    rcases List.mem_cons.mp hc with rfl | hc
    · decide
    · refine decide_eq_true ⟨?_, ?_⟩ <;> rintro rfl
      · exact (h seg hseg).no_query _ (by decide) hc
      · exact (h seg hseg).no_query _ (by decide) hc
  rw [urlPathname, htake, List.drop_one, List.tail_cons,
    segments_join (fun seg hseg => (h seg hseg).is_name) hne, removeDots_stays h,
    List.nil_append, flatMap_slash hne]

/-! ### Names that the server decodes -/

theorem head_join {names : List (List Char)} (h : ∀ s ∈ names, IsName s) (hne : names ≠ []) :
    (join names).head? ≠ some '/' := by
  intro hhead
  obtain ⟨rest, hrest⟩ : ∃ rest, join names = '/' :: rest := by
    cases hjoin : join names with
    | nil => rw [hjoin] at hhead; cases hhead
    | cons c rest =>
      rw [hjoin] at hhead
      exact ⟨rest, by rw [Option.some.inj hhead]⟩
  have hsegs := segments_join h hne
  have hnil : segments (join names) = [] :: segments rest := by
    rw [hrest]
    exact @segments_name [] (by simp) rest
  have hmem : [] ∈ names := by
    rw [← hsegs, hnil]
    exact List.mem_cons_self
  exact (h [] hmem).ne_nil rfl

theorem getLast_join {names : List (List Char)} (h : ∀ s ∈ names, IsName s) (hne : names ≠ []) :
    (join names).getLast? ≠ some '/' := by
  induction names with
  | nil => exact absurd rfl hne
  | cons seg names ih =>
    have hseg := h seg List.mem_cons_self
    cases names with
    | nil =>
      have hjoin : join [seg] = seg := List.intercalate_singleton
      rw [hjoin]
      exact fun hlast => hseg.no_slash (List.mem_of_getLast? hlast)
    | cons next names =>
      have hjoin : join (seg :: next :: names) = (seg ++ ['/']) ++ join (next :: names) := by
        simp [join, List.intercalate_cons_cons]
      have hrest := join_ne_nil (fun s hs => (h s (List.mem_cons_of_mem _ hs)).ne_nil)
        (List.cons_ne_nil next names)
      rw [hjoin, List.getLast?_append_of_ne_nil _ hrest]
      exact ih (fun s hs => h s (List.mem_cons_of_mem _ hs)) (List.cons_ne_nil _ _)

/-- **Names below `/record` are normalized to themselves.** -/
theorem objectRel_join {names : List (List Char)} (h : ∀ s ∈ names, IsName s) (hne : names ≠ [])
    (hdots : ¬ dotdot <:+: join names) : objectRel (record ++ '/' :: join names) = join names := by
  have hhead := head_join h hne
  have hdrop : ('/' :: join names).dropWhile (fun c => decide (c = '/')) = join names := by
    rw [List.dropWhile_cons_of_pos (by decide)]
    cases hjoin : join names with
    | nil => rfl
    | cons c rest =>
      rw [hjoin, List.head?_cons] at hhead
      exact List.dropWhile_cons_of_neg (by simpa using fun hc => hhead (congrArg some hc))
  have hfilter : (segments (join names)).filter (· ≠ []) = names := by
    rw [segments_join h hne]
    exact List.filter_eq_self.mpr fun s hs => decide_eq_true (h s hs).ne_nil
  have hstrip : stripUp (join names) = join names := by
    have hup := @stripUp_climbing 0 names [] h (.inl rfl) hne
    rwa [if_neg hne, List.append_nil, List.append_nil,
      show Climbing 0 names = names from rfl] at hup
  have hdot : join names ≠ dot := by
    intro heq
    have hsegs := segments_join h hne
    rw [heq, show segments dot = [dot] by decide] at hsegs
    exact (h dot (hsegs ▸ List.mem_cons_self)).ne_dot rfl
  rw [objectRel, List.drop_left, hdrop,
    normalize_names hhead (getLast_join h hne) hfilter h hne, hstrip,
    if_neg (not_or.mpr ⟨hdot, hdots⟩)]

theorem join_cons {seg : List Char} {names : List (List Char)} (hne : names ≠ []) :
    join (seg :: names) = seg ++ '/' :: join names := by
  obtain ⟨next, names, rfl⟩ := List.exists_cons_of_ne_nil hne
  simp [join, List.intercalate_cons_cons]

/-- No two dots come together where names are joined. -/
theorem no_dotdot_join {names : List (List Char)} (h : ∀ s ∈ names, ¬ dotdot <:+: s) :
    ¬ dotdot <:+: join names := by
  induction names with
  | nil =>
    rintro ⟨before, after, heq⟩
    exact absurd (congrArg List.length heq) (by simp [dotdot, join])
  | cons seg names ih =>
    cases names with
    | nil =>
      have hjoin : join [seg] = seg := List.intercalate_singleton
      rw [hjoin]
      exact h seg List.mem_cons_self
    | cons next names =>
      rw [join_cons (List.cons_ne_nil _ _), dotdot_infix_iff]
      rintro (hdots | hdots)
      · exact h seg List.mem_cons_self hdots
      · exact ih (fun s hs => h s (List.mem_cons_of_mem _ hs)) hdots

/-- The path of names below the room that the page asks for. -/
def pathOf (room : List Char) (names : List (List Char)) : List Char :=
  '/' :: join (['r', 'e', 'c', 'o', 'r', 'd'] :: UriComponent.encode room :: names)

variable {room : List Char} {names : List (List Char)}

theorem recordBasePath_eq (room : List Char) : recordBasePath room = pathOf room [] := by
  simp [recordBasePath, pathOf, join, record]

theorem playlistPath_eq (room day : List Char) :
    playlistPath room day = pathOf room [day, indexName] := by
  simp [playlistPath, recordBasePath, pathOf, join, record, List.intercalate_cons_cons]

/-- **The server finds the names of the page again**, whatever characters the room has. -/
theorem recordRel_encode (hroom : Servable room) (hnames : ∀ s ∈ names, Tame s) :
    isRecord (urlPathname (pathOf room names)) = true ∧
      recordRel (urlPathname (pathOf room names)) = .ok (some (join (room :: names))) := by
  have hstays : urlPathname (pathOf room names) = pathOf room names := by
    refine urlPathname_segments ?_ (List.cons_ne_nil _ _)
    intro seg hseg
    rcases List.mem_cons.mp hseg with rfl | hseg
    · exact ⟨⟨by decide, by decide, by decide, by decide⟩, by decide, by simp⟩
    · rcases List.mem_cons.mp hseg with rfl | hseg
      · exact stays_encode hroom.is_name
      · exact stays_tame (hnames seg hseg)
  -- what follows the room is not escaped
  obtain ⟨rest, hrest, hplain, hjoin⟩ : ∃ rest, pathOf room names =
      record ++ '/' :: (UriComponent.encode room ++ rest) ∧ '%' ∉ rest ∧
        room ++ rest = join (room :: names) := by
    by_cases hne : names = []
    · refine ⟨[], ?_, by simp, ?_⟩
      · rw [hne, ← recordBasePath_eq, recordBasePath, List.append_nil]
      · rw [hne, List.append_nil]
        exact List.intercalate_singleton.symm
    · refine ⟨'/' :: join names, ?_, ?_, (join_cons hne).symm⟩
      · rw [pathOf, join_cons (List.cons_ne_nil _ _), join_cons hne]
        simp [record]
      · rw [← flatMap_slash hne, List.mem_flatMap]
        rintro ⟨seg, hseg, hmem⟩
        rcases List.mem_cons.mp hmem with heq | hmem
        · exact absurd heq (by decide)
        · exact (hnames seg hseg).plain '%' hmem (by decide)
  have hdecode : UriComponent.decode (pathOf room names) =
      some (record ++ '/' :: join (room :: names)) := by
    have hrecord : '%' ∉ record ++ ['/'] := by decide
    have hself : UriComponent.decode rest = some rest := by
      have h := UriComponent.decode_append hplain []
      rw [List.append_nil] at h
      rw [h, show UriComponent.decode [] = some [] from rfl, Option.map_some, List.append_nil]
    have happ : pathOf room names = (record ++ ['/']) ++ (UriComponent.encode room ++ rest) := by
      rw [hrest]
      simp
    rw [happ, UriComponent.decode_append hrecord, UriComponent.decode_encode_append, hself,
      Option.map_some, Option.map_some, hjoin]
    simp
  have hdots : ¬ dotdot <:+: join (room :: names) := by
    refine no_dotdot_join fun s hs => ?_
    rcases List.mem_cons.mp hs with rfl | hs
    · exact hroom.no_dotdot
    · exact (hnames s hs).no_dotdot
  have hall : ∀ s ∈ room :: names, IsName s := by
    intro s hs
    rcases List.mem_cons.mp hs with rfl | hs
    · exact hroom.is_name
    · exact (hnames s hs).isName
  rw [hstays]
  refine ⟨by rw [hrest]; exact isRecord_of_slash _, ?_⟩
  rw [recordRel, hdecode]
  dsimp only
  rw [if_pos (List.isPrefixOf_iff_prefix.mpr (List.prefix_append _ _)),
    objectRel_join hall (List.cons_ne_nil _ _) hdots]

/-- The file or directory that the server looks up. -/
theorem resolve_encode (root : Resolved) (hroom : Servable room) (hnames : ∀ s ∈ names, Tame s) :
    resolveRecordPath root (join (room :: names)) = some (root ++ room :: names) := by
  refine resolve_names root ?_ (List.cons_ne_nil _ _) ?_
  · intro s hs
    rcases List.mem_cons.mp hs with rfl | hs
    · exact hroom.is_name
    · exact (hnames s hs).isName
  · refine no_dotdot_join fun s hs => ?_
    rcases List.mem_cons.mp hs with rfl | hs
    · exact hroom.no_dotdot
    · exact (hnames s hs).no_dotdot

end RecordUrls

end IpcMini
