/-
The days that the page offers for replay (`src/record/segment_recorder.cpp`,
`cloud/signaling/record_http.js`, `cloud/signaling/public/viewer.js`).

The recorder names a directory by the day; the server lists the directory of the room as JSON
text; the page reads the text, keeps the names that look like days and sorts them.

* `listingObject`, `listingText` — what the server sends;
* `isDay`, `days` — what `loadReplayDays` makes of it;
* `unit_lt_iff`, `day_lt_iff` — the order of the names is that of the days;
* **`recorded_days_offered`** — the page offers exactly the days that the directory has, the
  newest first, and for each it asks for the playlist that the recorder keeps there.
-/
import IpcMini.JsonRoundTrip
import IpcMini.RecordScan
import IpcMini.RecordUrls

namespace IpcMini

open PosixPath RecordHttp RecordUrls NumberOrder

open Json hiding decimal

namespace ReplayDays

/-! ### The listing -/

/-- The code units of a name. -/
def nameUnits (name : List Char) : Units := name.flatMap charUnits

/-- The object of a listing. -/
def listingObject (path : List Char) (files : List (List Char)) : Object :=
  [(units "path", .string (nameUnits path)),
    (units "files", .array (files.map fun name => .string (nameUnits name)))]

/-- The text of a listing. -/
def listingText (path : List Char) (files : List (List Char)) : List UInt8 :=
  bytes (.object (listingObject path files))

theorem plain_files (files : List (List Char)) :
    PlainItems (files.map fun name => .string (nameUnits name)) := by
  induction files with
  | nil => trivial
  | cons name files ih =>
    rw [List.map_cons, PlainItems]
    exact ⟨plain_string _, ih⟩

/-- The page reads the object that the server wrote. -/
theorem parse_listing (path : List Char) (files : List (List Char)) :
    parseData (listingText path files) = some (.object (listingObject path files)) := by
  have hplain : PlainMembers (listingObject path files) := by
    have harray : (Value.array (files.map fun name => .string (nameUnits name))).Plain := by
      rw [Value.Plain]
      exact plain_files files
    rw [listingObject, PlainMembers, PlainMembers, PlainMembers]
    exact ⟨plain_string _, harray, trivial⟩
  obtain ⟨text, hbytes, hparse⟩ := bytes_read hplain
  rw [listingText, hbytes, parseData_utf8, hparse]

/-! ### Days -/

def isDigit (u : UInt16) : Bool := decide (48 ≤ u.toNat ∧ u.toNat ≤ 57)

/-- `/^\d{4}-\d{2}-\d{2}$/` matches the name. -/
def isDay (name : Units) : Bool :=
  match name with
  | [a, b, c, d, x, e, f, y, g, h] =>
    [a, b, c, d, e, f, g, h].all isDigit && x == 45 && y == 45
  | _ => false

/-- An entry of the list that is kept. -/
def dayOf : Value → Option Units
  | .string name => if isDay name then some name else none
  | _ => none

/-- `.sort()` orders by code units. -/
def sort (names : List Units) : List Units := names.mergeSort fun a b => decide (a ≤ b)

/-- The days that `loadReplayDays` offers; of a body without a list of files it offers none. -/
def days (body : Value) : List Units :=
  match body with
  | .object members =>
    match Object.field members (units "files") with
    | some (.array items) => (sort (items.filterMap dayOf)).reverse
    | _ => []
  | _ => []

theorem filterMap_dayOf (names : List Units) :
    (names.map Value.string).filterMap dayOf = names.filter isDay := by
  induction names with
  | nil => rfl
  | cons name names ih =>
    rw [List.map_cons, List.filterMap_cons, List.filter_cons, dayOf]
    cases isDay name with
    | true => exact congrArg (name :: ·) ih
    | false => exact ih

theorem days_listing (path : List Char) (files : List (List Char)) :
    days (.object (listingObject path files)) =
      (sort ((files.map nameUnits).filter isDay)).reverse := by
  have hfield : Object.field (listingObject path files) (units "files") =
      some (.array (files.map fun name => .string (nameUnits name))) := by
    have hkey : (units "files" == units "path") = false := by decide
    rw [Object.field, listingObject, List.lookup_cons, hkey]
    simp
  have hmap : (files.map fun name => Value.string (nameUnits name)) =
      (files.map nameUnits).map Value.string := by rw [List.map_map]; rfl
  rw [days, hfield, hmap]
  dsimp only
  rw [filterMap_dayOf]

/-- The days are sorted, the last first. -/
theorem pairwise_sort_reverse (names : List Units) :
    (sort names).reverse.Pairwise fun a b => b ≤ a := by
  rw [List.pairwise_reverse]
  have htrans : ∀ a b c : Units, decide (a ≤ b) = true → decide (b ≤ c) = true →
      decide (a ≤ c) = true := fun a b c hab hbc =>
    decide_eq_true (List.le_trans (of_decide_eq_true hab) (of_decide_eq_true hbc))
  have htotal : ∀ a b : Units, (decide (a ≤ b) || decide (b ≤ a)) = true := by
    intro a b
    rw [Bool.or_eq_true, decide_eq_true_iff, decide_eq_true_iff]
    exact List.le_total a b
  have hsorted : (sort names).Pairwise fun a b => decide (a ≤ b) = true :=
    List.pairwise_mergeSort htrans htotal names
  exact hsorted.imp fun h => of_decide_eq_true h

theorem perm_sort_reverse (names : List Units) : (sort names).reverse.Perm names :=
  (List.reverse_perm _).trans (List.mergeSort_perm _ _)

/-! ### The order of days -/

theorem toNat_unit {c : Char} (hc : c.toNat < 0x10000) :
    (UInt16.ofNat c.toNat).toNat = c.toNat := UInt16.toNat_ofNat_of_lt hc

theorem unit_lt_iff {c d : Char} (hc : c.toNat < 0x10000) (hd : d.toNat < 0x10000) :
    UInt16.ofNat c.toNat < UInt16.ofNat d.toNat ↔ c < d := by
  rw [UInt16.lt_iff_toNat_lt, toNat_unit hc, toNat_unit hd]
  exact Iff.rfl

theorem unit_inj {c d : Char} (hc : c.toNat < 0x10000) (hd : d.toNat < 0x10000) :
    UInt16.ofNat c.toNat = UInt16.ofNat d.toNat ↔ c = d := by
  refine ⟨fun h => Char.toNat_inj.mp ?_, fun h => by rw [h]⟩
  rw [← toNat_unit hc, h, toNat_unit hd]

theorem nameUnits_cons {c : Char} (hc : c.toNat < 0x10000) (name : List Char) :
    nameUnits (c :: name) = UInt16.ofNat c.toNat :: nameUnits name := by
  rw [nameUnits, List.flatMap_cons, charUnits, if_pos hc]
  rfl

/-- Names of characters of one code unit are in the order of the characters. -/
theorem nameUnits_lt_iff {a b : List Char} (ha : ∀ c ∈ a, c.toNat < 0x10000)
    (hb : ∀ c ∈ b, c.toNat < 0x10000) : nameUnits a < nameUnits b ↔ a < b := by
  induction a generalizing b with
  | nil =>
    cases b with
    | nil => exact iff_of_false (List.lt_irrefl _) (List.lt_irrefl _)
    | cons d b =>
      rw [nameUnits_cons (hb d List.mem_cons_self)]
      exact iff_of_true (List.nil_lt_cons ..) (List.nil_lt_cons ..)
  | cons c a ih =>
    cases b with
    | nil => exact iff_of_false (List.not_lt_nil _) (List.not_lt_nil _)
    | cons d b =>
      have hc := ha c List.mem_cons_self
      have hd := hb d List.mem_cons_self
      rw [nameUnits_cons hc, nameUnits_cons hd, List.cons_lt_cons_iff, List.cons_lt_cons_iff,
        unit_lt_iff hc hd, unit_inj hc hd, ih (fun e he => ha e (List.mem_cons_of_mem _ he))
          fun e he => hb e (List.mem_cons_of_mem _ he)]

/-- The fields of the day. -/
def date (t : LocalTime) : List ℕ := [t.year, t.month, t.mday]

theorem dateChar_lt {c : Char} (h : dateChar c = true) : c.toNat < 0x10000 := by
  rw [dateChar, Bool.or_eq_true] at h
  rcases h with h | h
  · exact digit_lt h
  · rw [beq_iff_eq.mp h]
    decide

/-- **The names of days are in the order of the days.** -/
theorem day_lt_iff {t u : LocalTime} (ht : t.Calendar) (hu : u.Calendar) :
    nameUnits t.day.toList < nameUnits u.day.toList ↔ date t < date u := by
  obtain ⟨hty, htm, htd, -, -, -⟩ := ht
  obtain ⟨huy, hum, hud, -, -, -⟩ := hu
  rw [nameUnits_lt_iff (fun c hc => dateChar_lt (dateChar_of_mem_day hc))
      fun c hc => dateChar_lt (dateChar_of_mem_day hc),
    toList_day, toList_day, decimal_append_lt_iff (by decide) (by omega) (by omega),
    separator_lt_iff, decimal_append_lt_iff (by decide) (by omega) (by omega),
    separator_lt_iff, decimal_lt_iff (by decide) (by omega) (by omega)]
  rw [date, date, List.cons_lt_cons_iff, List.cons_lt_cons_iff, List.cons_lt_cons_iff]
  have hnil : ¬ ([] : List ℕ) < [] := List.lt_irrefl _
  simp only [hnil, and_false, or_false]

/-! ### Names of days -/

theorem isDigit_unit {c : Char} (h : c.isDigit = true) :
    isDigit (UInt16.ofNat c.toNat) = true := by
  have hc := Char.isDigit_iff_toNat.mp h
  have hends : '0'.toNat = 48 ∧ '9'.toNat = 57 := by decide
  rw [isDigit, toNat_unit (digit_lt h)]
  exact decide_eq_true (by omega)

/-- A number of a fixed width is that many digits. -/
theorem isDigit_decimal (width n : ℕ) : ∀ c ∈ decimal width n, c.isDigit = true := by
  intro c hc
  rw [decimal, List.leftpad, List.mem_append] at hc
  rcases hc with hc | hc
  · rw [List.eq_of_mem_replicate hc]
    decide
  · exact Nat.isDigit_of_mem_toDigits (by omega) (by omega) hc

theorem two_digits {n : ℕ} (h : n < 100) : ∃ c d, decimal 2 n = [c, d] ∧ c.isDigit = true ∧
    d.isDigit = true := by
  have hlen : (decimal 2 n).length = 2 := length_decimal (by decide) (by omega)
  have hdigits := isDigit_decimal 2 n
  obtain ⟨c, d, heq⟩ := List.length_eq_two.mp hlen
  rw [heq] at hdigits
  exact ⟨c, d, heq, hdigits c (by simp), hdigits d (by simp)⟩

theorem four_digits {n : ℕ} (h : n < 10000) : ∃ a b c d, decimal 4 n = [a, b, c, d] ∧
    a.isDigit = true ∧ b.isDigit = true ∧ c.isDigit = true ∧ d.isDigit = true := by
  have hlen : (decimal 4 n).length = 4 := length_decimal (by decide) (by omega)
  have hdigits := isDigit_decimal 4 n
  match heq : decimal 4 n, hlen with
  | [a, b, c, d], _ =>
    rw [heq] at hdigits
    exact ⟨a, b, c, d, rfl, hdigits a (by simp), hdigits b (by simp), hdigits c (by simp),
      hdigits d (by simp)⟩

theorem nameUnits_eq_map {name : List Char} (h : ∀ c ∈ name, c.toNat < 0x10000) :
    nameUnits name = name.map fun c => UInt16.ofNat c.toNat := by
  induction name with
  | nil => rfl
  | cons c name ih =>
    rw [nameUnits_cons (h c List.mem_cons_self), ih fun d hd => h d (List.mem_cons_of_mem _ hd),
      List.map_cons]

/-- **The directory of a day is taken for one.** -/
theorem isDay_day {t : LocalTime} (ht : t.Calendar) :
    isDay (nameUnits t.day.toList) = true := by
  obtain ⟨hty, htm, htd, -, -, -⟩ := ht
  have hlt : ∀ c ∈ t.day.toList, c.toNat < 0x10000 :=
    fun c hc => dateChar_lt (dateChar_of_mem_day hc)
  obtain ⟨a, b, c, d, hyear, ha, hb, hc, hd⟩ := four_digits (show t.year < 10000 by omega)
  obtain ⟨e, f, hmonth, he, hf⟩ := two_digits (show t.month < 100 by omega)
  obtain ⟨g, i, hday, hg, hi⟩ := two_digits (show t.mday < 100 by omega)
  rw [nameUnits_eq_map hlt, toList_day, hyear, hmonth, hday]
  simp [isDay, isDigit_unit ha, isDigit_unit hb, isDigit_unit hc, isDigit_unit hd,
    isDigit_unit he, isDigit_unit hf, isDigit_unit hg, isDigit_unit hi]

theorem units_of_isDay {name : Units} (h : isDay name = true) :
    ∀ u ∈ name, isDigit u = true ∨ u = 45 := by
  unfold isDay at h
  split at h
  · simp only [List.all_cons, List.all_nil, Bool.and_true, Bool.and_eq_true, beq_iff_eq] at h
    simp only [List.mem_cons, List.not_mem_nil, or_false]
    rintro u (rfl | rfl | rfl | rfl | rfl | rfl | rfl | rfl | rfl | rfl) <;> tauto
  · cases h

/-- The characters of a name that is taken for a day. -/
theorem dateChar_of_isDay {name : List Char} (h : isDay (nameUnits name) = true) :
    ∀ c ∈ name, dateChar c = true := by
  have hunits := units_of_isDay h
  have hchar : ∀ u : UInt16, isDigit u = true ∨ u = 45 →
      isLead u = false ∧ dateChar (unitChar u) = true := by
    have hall : ∀ n < 58, 48 ≤ n →
        isLead (.ofNat n) = false ∧ dateChar (unitChar (.ofNat n)) = true := by decide
    rintro u (hu | rfl)
    · have hrange : 48 ≤ u.toNat ∧ u.toNat ≤ 57 := of_decide_eq_true hu
      have hself := hall u.toNat (by omega) hrange.1
      rwa [UInt16.ofNat_toNat] at hself
    · decide
  have hchars : ∀ us : Units, (∀ u ∈ us, isDigit u = true ∨ u = 45) →
      ∀ c ∈ chars us, dateChar c = true := by
    intro us
    induction us with
    | nil => intro _ c hc; cases hc
    | cons u us ih =>
      intro hus c hc
      obtain ⟨hlead, hdate⟩ := hchar u (hus u List.mem_cons_self)
      rw [chars_cons hlead] at hc
      rcases List.mem_cons.mp hc with rfl | hc
      · exact hdate
      · exact ih (fun v hv => hus v (List.mem_cons_of_mem _ hv)) c hc
  have hname := chars_units name
  rw [← hname]
  exact hchars _ hunits

theorem tame_of_isDay {name : List Char} (h : isDay (nameUnits name) = true) :
    UploadKeys.Tame name := by
  have hchar := dateChar_of_isDay h
  have hne : name ≠ [] := by
    rintro rfl
    exact absurd h (by decide)
  obtain ⟨c, more, rfl⟩ := List.exists_cons_of_ne_nil hne
  have hplain := fun d hd => UploadKeys.dateChar_plain (hchar d hd)
  refine ⟨⟨c, List.mem_cons_self, (hplain c List.mem_cons_self).2⟩, ?_, fun d hd => (hplain d hd).1⟩
  rw [List.count_eq_zero.mpr fun hdot => (hplain '.' hdot).2 rfl]
  exact Nat.zero_le 1

theorem tame_index : UploadKeys.Tame indexName :=
  ⟨⟨'i', by decide, by decide⟩, by decide, by simp [indexName]⟩

/-- No name that is taken for a day is hidden in the listing. -/
theorem isListed_of_isDay {name : List Char} (h : isDay (nameUnits name) = true) :
    isListed name = true := by
  have hchar := dateChar_of_isDay h
  have hprefix : ∀ {l : List Char} {c : Char} {rest : List Char}, dateChar c = false →
      (∀ d ∈ l, dateChar d = true) → (c :: rest).isPrefixOf l = false := by
    intro l c rest hc hl
    cases l with
    | nil => rfl
    | cons d l =>
      have hne : (c == d) = false := by
        rw [beq_eq_false_iff_ne]
        rintro rfl
        rw [hl c List.mem_cons_self] at hc
        cases hc
      rw [List.isPrefixOf, hne, Bool.false_and]
  rw [isListed, hprefix (by decide) hchar,
    hprefix (by decide) fun d hd => hchar d (List.mem_reverse.mp hd)]
  rfl

theorem filter_listed (names : List (List Char)) :
    ((names.filter isListed).map nameUnits).filter isDay =
      (names.map nameUnits).filter isDay := by
  rw [List.filter_map, List.filter_map, List.filter_filter]
  congr 1
  refine List.filter_congr fun name _ => ?_
  cases h : isDay (nameUnits name) with
  | false => simp [h]
  | true => simp [h, isListed_of_isDay h]

/-! ### From the recorder to the page -/

/-- The room's directory is listed. -/
theorem get_room (cfg : RecordHttp.Config) {env : FsAnswers} {room : List Char}
    {names : List (List Char)} (hroot : hasNull cfg.recordDir = false) (hroom : Servable room)
    (hstat : env.stat = .directory) (hnames : env.names = some names) :
    recordListener cfg (.get (UploadKeys.urlPathname (recordBasePath room))) env =
      .answer 200
        [("content-type", "application/json; charset=utf-8"), ("cache-control", "no-cache")]
        (.listing room (names.filter isListed))
        [.stat (cfg.recordDir ++ [room]), .readdir (cfg.recordDir ++ [room])] := by
  have hnone : ∀ s ∈ ([] : List (List Char)), UploadKeys.Tame s := by simp
  have hjoin : join [room] = room := List.intercalate_singleton
  obtain ⟨-, hrel⟩ := recordRel_encode hroom hnone
  have hresolve := resolve_encode cfg.recordDir hroom hnone
  rw [hjoin, ← recordBasePath_eq] at hrel
  rw [hjoin] at hresolve
  have hnull : hasNull (cfg.recordDir ++ [room]) = false := by
    rw [hasNull, List.any_append, ← hasNull, hroot, Bool.false_or]
    simpa using hroom.no_null
  have hget : RecordHttp.get cfg (.get (UploadKeys.urlPathname (recordBasePath room))) env
      room = .answer 200
        [("content-type", "application/json; charset=utf-8"), ("cache-control", "no-cache")]
        (.listing room (names.filter isListed))
        [.stat (cfg.recordDir ++ [room]), .readdir (cfg.recordDir ++ [room])] := by
    rw [RecordHttp.get, hresolve]
    dsimp only
    rw [hnull, if_neg Bool.false_ne_true, hstat, hnames]
    dsimp only
    rw [if_neg hroom.is_name.ne_nil]
  rw [Request.get] at hget ⊢
  rw [recordListener, handleRecordRequest]
  dsimp only
  rw [hrel]
  simpa using hget

/-- The playlist of a day that is offered is looked up in its directory. -/
theorem storedAt_playlist (root : Resolved) {room name : List Char} (hroom : Servable room)
    (hname : isDay (nameUnits name) = true) :
    UploadKeys.storedAt root (playlistPath room (chars (nameUnits name))) =
      some (root ++ [room, name, indexName]) := by
  have htames : ∀ s ∈ [name, indexName], UploadKeys.Tame s := by
    intro s hs
    simp only [List.mem_cons, List.not_mem_nil, or_false] at hs
    rcases hs with rfl | rfl
    · exact tame_of_isDay hname
    · exact tame_index
  obtain ⟨hrecord, hrel⟩ := recordRel_encode hroom htames
  have hne : join [room, name, indexName] ≠ [] := by
    rw [join_cons (List.cons_ne_nil _ _)]
    simp
  rw [nameUnits, chars_units, playlistPath_eq, UploadKeys.storedAt, if_pos hrecord, hrel]
  dsimp only
  rw [if_neg hne, resolve_encode root hroom htames]

/-- **The recorded days are offered.**  Where the directory of the room has the given names,
the request of the page is answered with their listing.  What the page reads of it are the
names that look like days, every directory of a recorded day among them, and no day comes
before a later one.  For each the page asks for the playlist in its directory. -/
theorem recorded_days_offered (cfg : RecordHttp.Config) {env : FsAnswers}
    {value : List Char} {names : List (List Char)}
    (hroot : hasNull cfg.recordDir = false) (hroom : Servable (roomOf value))
    (hstat : env.stat = .directory) (hnames : env.names = some names) :
    ∃ headers files body,
      recordListener cfg (.get (UploadKeys.urlPathname (recordBasePath (roomOf value)))) env =
        .answer 200 headers (.listing (roomOf value) files)
          [.stat (cfg.recordDir ++ [roomOf value]),
            .readdir (cfg.recordDir ++ [roomOf value])] ∧
      parseData (listingText (roomOf value) files) = some body ∧
      (days body).Perm ((names.map nameUnits).filter isDay) ∧
      (∀ t : LocalTime, t.Calendar → t.day.toList ∈ names →
        nameUnits t.day.toList ∈ days body) ∧
      ((days body).Pairwise fun a b => ∀ t u : LocalTime, t.Calendar → u.Calendar →
        a = nameUnits t.day.toList → b = nameUnits u.day.toList → ¬ date t < date u) ∧
      ∀ day ∈ days body, ∃ name ∈ names, day = nameUnits name ∧
        UploadKeys.storedAt cfg.recordDir (playlistPath (roomOf value) (chars day)) =
          some (cfg.recordDir ++ [roomOf value, name, indexName]) := by
  have hlisting := days_listing (roomOf value) (names.filter isListed)
  rw [filter_listed] at hlisting
  have hperm : (days (.object (listingObject (roomOf value) (names.filter isListed)))).Perm
      ((names.map nameUnits).filter isDay) := by
    rw [hlisting]
    exact perm_sort_reverse _
  refine ⟨_, _, .object (listingObject (roomOf value) (names.filter isListed)),
    get_room cfg hroot hroom hstat hnames, parse_listing _ _, hperm, ?_, ?_, ?_⟩
  · intro t ht hmem
    exact hperm.mem_iff.mpr (List.mem_filter.mpr ⟨List.mem_map_of_mem hmem, isDay_day ht⟩)
  · rw [hlisting]
    refine (pairwise_sort_reverse _).imp ?_
    intro a b hle t u ht hu ha hb hlt
    rw [ha, hb] at hle
    exact hle ((day_lt_iff ht hu).mpr hlt)
  · intro day hday
    obtain ⟨hmem, hisday⟩ := List.mem_filter.mp (hperm.mem_iff.mp hday)
    obtain ⟨name, hname, rfl⟩ := List.mem_map.mp hmem
    exact ⟨name, hname, rfl, storedAt_playlist cfg.recordDir hroom hisday⟩

/-- A file system with a directory of a day and a playlist that is being uploaded. -/
def oneDay : FsAnswers :=
  { FsAnswers.sample with
    names := some ["2025-03-01".toList, "index.m3u8.part".toList] }

/-- The day of the door that is replayed when the page names no room. -/
theorem oneDay_offered :
    ∃ headers files body,
      recordListener ⟨[['r']], ""⟩ (.get (UploadKeys.urlPathname (recordBasePath (roomOf []))))
        oneDay = .answer 200 headers (.listing (roomOf []) files)
          [.stat [['r'], roomOf []], .readdir [['r'], roomOf []]] ∧
      parseData (listingText (roomOf []) files) = some body ∧
      (days body).Perm [nameUnits "2025-03-01".toList] := by
  have hroom : Servable (roomOf []) :=
    ⟨⟨by decide, by decide, by decide, by decide⟩, by decide, by decide⟩
  have hnames : oneDay.names = some ["2025-03-01".toList, "index.m3u8.part".toList] := rfl
  obtain ⟨headers, files, body, hget, hparse, hdays, -⟩ :=
    recorded_days_offered ⟨[['r']], ""⟩ (by decide) hroom rfl hnames
  refine ⟨headers, files, body, hget, hparse, ?_⟩
  have hone : ((["2025-03-01".toList, "index.m3u8.part".toList].map nameUnits).filter isDay) =
      [nameUnits "2025-03-01".toList] := by decide
  rwa [hone] at hdays

end ReplayDays

end IpcMini
