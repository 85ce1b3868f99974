/-
The order in which a recorder finds its segments again
(`src/record/segment_recorder.cpp`).

At its start the recorder reads the days of its directory and their segments,
sorts the names, and prunes what is too much, from the front.  The names are made
of the local time at which a segment was opened; when a file of that name exists,
a number is appended.

* `nextSuffix` — the number that `next_media_path` appends;
* `scanExistingSegments` — what the recorder finds in a directory;
* `FileOp` — segments are opened, by any number of recorders, and removed;
* `name_lt_iff` — the order of the names is that of the local times, and a
  number comes before none;
* `OldestFirst` — the segments are found, and then pruned, in the order in which
  they were recorded;
* **`scan_oldest_first_iff`** — at every moment of a run, exactly if each segment
  is opened when no older one has a later local time, and gets no number.
-/
import Mathlib.Data.List.Dedup
import Mathlib.Data.List.Nodup
import Mathlib.Data.String.Basic
import IpcMini.NumberOrder
import IpcMini.Recorder
import IpcMini.RetainLoop

namespace IpcMini

open NumberOrder

/-! ### Names -/

/-- The loop of `next_media_path`: `left` more numbers may be tried, the next of
which is `100 - left`. -/
def suffixLoop (fileExists : File → Bool) (t : LocalTime) : ℕ → Option ℕ → Option ℕ
  | 0, suffix => suffix
  | left + 1, suffix =>
    if fileExists (nextMediaPath t suffix) then
      suffixLoop fileExists t left (some (99 - left))
    else suffix

/-- The number that `next_media_path` appends to the stamp. -/
def nextSuffix (fileExists : File → Bool) (t : LocalTime) : Option ℕ :=
  suffixLoop fileExists t 98 none

/-- What `localtime_r` promises.  The clock of Linux counts nanoseconds in 64
bits, so that the years of `time` have four digits. -/
structure LocalTime.Calendar (t : LocalTime) : Prop where
  year : t.year ≤ 9999
  month : 1 ≤ t.month ∧ t.month ≤ 12
  mday : 1 ≤ t.mday ∧ t.mday ≤ 31
  hour : t.hour ≤ 23
  min : t.min ≤ 59
  sec : t.sec ≤ 60

/-- The rules of a time zone, of any kind. -/
structure Zone where
  localtimeR : ℕ → LocalTime
  calendar : ∀ now, (localtimeR now).Calendar

/-! ### The scan -/

/-- What `opendir`, `readdir` and `stat` answer about the recording directory. -/
structure Listing where
  /-- the entries of the recording directory, if it can be read -/
  root : Option (List String)
  isDir : String → Bool
  /-- the entries of a directory in it, if it can be read -/
  folder : String → Option (List String)

/-- The name begins with a dot. -/
def hidden (name : String) : Bool := name.toList.head? = some '.'

/-- The name ends in `.m4s`, after at least one character. -/
def mediaName (name : String) : Bool :=
  decide (4 < name.length) && ['.', 'm', '4', 's'].isSuffixOf name.toList

/-- The segments of a day in `scan_existing_segments`. -/
def scanDay (config : RecordConfig) (stSize : File → ℕ) (l : Listing) (day : String) :
    List KeptSegment :=
  match l.folder day with
  | none => []
  | some names => ((names.filter mediaName).mergeSort).map fun name =>
      ⟨⟨day, name⟩, config.segmentSec, stSize ⟨day, name⟩⟩

/-- `scan_existing_segments`; `std::sort` compares bytes, and bytes of UTF-8 are
in the order of the characters. -/
def scanExistingSegments (config : RecordConfig) (stSize : File → ℕ) (l : Listing) :
    List KeptSegment :=
  match l.root with
  | none => []
  | some entries =>
    ((entries.filter fun entry => !hidden entry && l.isDir entry).mergeSort).flatMap
      (scanDay config stSize l)

/-! ### Runs -/

/-- A segment on the disk. -/
structure SegmentFile where
  time : LocalTime
  suffix : Option ℕ
  deriving DecidableEq, Repr

def SegmentFile.path (f : SegmentFile) : File := nextMediaPath f.time f.suffix

/-- What happens to the segments: a recorder opens its next one, when `time` is
`now`, or one is removed. -/
inductive FileOp
  | openNext (now : ℕ)
  | unlink (path : File)

namespace Zone

/-- One step of the segments on the disk, which are listed in the order in which
they were recorded; to open a file that exists truncates it. -/
def step (zone : Zone) (files : List SegmentFile) : FileOp → List SegmentFile
  | .openNext now =>
    let time := zone.localtimeR now
    let suffix := nextSuffix (fun path => decide (path ∈ files.map SegmentFile.path)) time
    let file : SegmentFile := ⟨time, suffix⟩
    files.filter (fun f => f.path ≠ file.path) ++ [file]
  | .unlink path => files.filter (fun f => f.path ≠ path)

/-- A run from an empty directory. -/
def run (zone : Zone) (ops : List FileOp) : List SegmentFile := ops.foldl zone.step []

end Zone

/-- The media files of the listing are these. -/
structure Listing.Shows (l : Listing) (files : List File) : Prop where
  root : ∃ entries, l.root = some entries ∧ entries.Nodup
  folder : ∀ day names, l.folder day = some names → names.Nodup
  media : ∀ file : File, mediaName file.name = true → hidden file.day = false →
    (file ∈ files ↔ (∃ entries, l.root = some entries ∧ file.day ∈ entries) ∧
      l.isDir file.day = true ∧ ∃ names, l.folder file.day = some names ∧ file.name ∈ names)

/-- The recorder that starts now finds the segments in the order in which they
were recorded, and what it prunes are the first of them. -/
structure OldestFirst (files : List SegmentFile) : Prop where
  scan : ∀ config stSize l, Listing.Shows l (files.map SegmentFile.path) →
    (scanExistingSegments config stSize l).map KeptSegment.path = files.map SegmentFile.path
  prune : ∀ (a : Archive) env stSize l, Listing.Shows l (files.map SegmentFile.path) →
    a.kept = scanExistingSegments a.config stSize l →
    (a.pruneRetainedIn env).kept.map KeptSegment.path <:+ files.map SegmentFile.path

/-! ### The order of the names -/

/-- The fields, the largest unit first. -/
def LocalTime.fields (t : LocalTime) : List ℕ := [t.year, t.month, t.mday, t.hour, t.min, t.sec]

/-- A clock on the wall shows `u` later than `t`. -/
instance : LT LocalTime := ⟨fun t u => t.fields < u.fields⟩

/-- What follows the stamp in a name. -/
def ending (suffix : Option ℕ) : List Char :=
  (match suffix with
    | none => []
    | some n => '-' :: decimal 1 n) ++ ['.', 'm', '4', 's']

theorem toList_name (t : LocalTime) (suffix : Option ℕ) :
    (nextMediaPath t suffix).name.toList = decimal 4 t.year ++ '-' :: (decimal 2 t.month ++
      '-' :: (decimal 2 t.mday ++ '_' :: (decimal 2 t.hour ++ '-' :: (decimal 2 t.min ++
        '-' :: (decimal 2 t.sec ++ ending suffix))))) := by
  cases suffix <;>
    simp [nextMediaPath, LocalTime.stamp, LocalTime.day, pad, decimal, ending]

theorem toList_day (t : LocalTime) : t.day.toList =
    decimal 4 t.year ++ '-' :: (decimal 2 t.month ++ '-' :: decimal 2 t.mday) := by
  simp [LocalTime.day, pad, decimal]

theorem separator_lt_iff (c : Char) (s t : List Char) : c :: s < c :: t ↔ s < t := by
  rw [List.cons_lt_cons_iff]
  simp

/-- **The names are in the order of the local times**, and those of one local time
in the order of their ends. -/
theorem name_lt_iff {t u : LocalTime} (ht : t.Calendar) (hu : u.Calendar) (k m : Option ℕ) :
    (nextMediaPath t k).name < (nextMediaPath u m).name ↔
      t < u ∨ t = u ∧ ending k < ending m := by
  show (nextMediaPath t k).name.toList < (nextMediaPath u m).name.toList ↔ _
  obtain ⟨hty, htm, htd, hth, htn, hts⟩ := ht
  obtain ⟨huy, hum, hud, huh, hun, hus⟩ := hu
  rw [toList_name, toList_name, decimal_append_lt_iff (by decide) (by omega) (by omega),
    separator_lt_iff, decimal_append_lt_iff (by decide) (by omega) (by omega),
    separator_lt_iff, decimal_append_lt_iff (by decide) (by omega) (by omega),
    separator_lt_iff, decimal_append_lt_iff (by decide) (by omega) (by omega),
    separator_lt_iff, decimal_append_lt_iff (by decide) (by omega) (by omega),
    separator_lt_iff, decimal_append_lt_iff (by decide) (by omega) (by omega)]
  have hlt : t < u ↔ t.fields < u.fields := Iff.rfl
  have heq : t = u ↔ t.fields = u.fields := by
    cases t
    cases u
    simp [LocalTime.fields]
  have hnil : ¬ ([] : List ℕ) < [] := List.lt_irrefl _
  rw [hlt, heq]
  simp only [LocalTime.fields, List.cons_lt_cons_iff, List.cons.injEq, hnil, and_false, or_false,
    and_true, and_or_left, or_assoc, and_assoc]

/-- Of one local time, a name with a number comes before the one without. -/
theorem ending_lt_iff (k : Option ℕ) : ending k < ending none ↔ k.isSome = true := by
  cases k with
  | none => simp
  | some n =>
    rw [ending, ending, List.nil_append]
    show '-' :: _ < '.' :: _ ↔ _
    rw [List.cons_lt_cons_iff]
    simp

/-- A name with a number never comes after the one without. -/
theorem not_ending_lt (k : Option ℕ) : ¬ ending none < ending k := by
  cases k with
  | none => exact List.lt_irrefl _
  | some n =>
    show ¬ '.' :: _ < '-' :: _
    rw [List.cons_lt_cons_iff]
    simp

/-! ### The order of the scan -/

/-- The scan comes to `f` before `g`. -/
def Before (f g : File) : Prop := f.day < g.day ∨ f.day = g.day ∧ f.name < g.name

theorem Before.asymm {f g : File} (h : Before f g) : ¬ Before g f := by
  rintro (h' | ⟨hday, h'⟩)
  · rcases h with h | ⟨hday, -⟩
    · exact String.lt_asymm h h'
    · exact absurd h' (by rw [hday]; exact String.lt_irrefl _)
  · rcases h with h | ⟨-, h⟩
    · exact absurd h (by rw [hday]; exact String.lt_irrefl _)
    · exact String.lt_asymm h h'

/-- A name that begins with the day comes with its day. -/
theorem before_iff_name_lt {f g : File} {r s : List Char}
    (hf : f.name.toList = f.day.toList ++ r) (hg : g.name.toList = g.day.toList ++ s)
    (hlen : f.day.toList.length = g.day.toList.length) : Before f g ↔ f.name < g.name := by
  have hname : f.name < g.name ↔ f.day < g.day ∨ f.day = g.day ∧ r < s := by
    show f.name.toList < g.name.toList ↔ f.day.toList < g.day.toList ∨ _
    rw [hf, hg, append_lt_append_iff r s hlen, String.toList_inj]
  rw [Before, hname]
  refine or_congr_right (and_congr_right fun hday => ?_)
  have hirrefl : ¬ g.day < g.day := String.lt_irrefl _
  rw [hday]
  exact ⟨fun h => (h.resolve_left hirrefl).2, fun h => .inr ⟨rfl, h⟩⟩

theorem before_path_iff {f g : SegmentFile} (hf : f.time.Calendar) (hg : g.time.Calendar) :
    Before f.path g.path ↔
      f.time < g.time ∨ f.time = g.time ∧ ending f.suffix < ending g.suffix := by
  have hlen : ∀ {t : LocalTime}, t.Calendar → t.day.toList.length = 10 := by
    intro t ht
    obtain ⟨hy, hm, hd, -, -, -⟩ := ht
    rw [toList_day, List.length_append, List.length_cons, List.length_append, List.length_cons,
      length_decimal (by decide) (by omega), length_decimal (by decide) (by omega),
      length_decimal (by decide) (by omega)]
  have hname : ∀ (t : LocalTime) (k : Option ℕ), ∃ r,
      (nextMediaPath t k).name.toList = t.day.toList ++ r := by
    intro t k
    rw [toList_name, toList_day]
    exact ⟨_, by simp only [List.append_assoc, List.cons_append]; rfl⟩
  obtain ⟨r, hr⟩ := hname f.time f.suffix
  obtain ⟨s, hs⟩ := hname g.time g.suffix
  rw [← name_lt_iff hf hg]
  exact before_iff_name_lt hr hs ((hlen hf).trans (hlen hg).symm)

/-- Sorting names that are all different puts each before the next. -/
theorem pairwise_lt_mergeSort {names : List String} (h : names.Nodup) :
    names.mergeSort.Pairwise (· < ·) := by
  have hle : names.mergeSort.Pairwise fun a b => decide (a ≤ b) = true := by
    refine List.pairwise_mergeSort ?_ ?_ names
    · intro a b c hab hbc
      simp only [decide_eq_true_eq] at hab hbc ⊢
      exact String.le_trans hab hbc
    · intro a b
      simpa using String.le_total a b
  have hne : names.mergeSort.Nodup := (List.mergeSort_perm names _).nodup_iff.mpr h
  refine (hle.and hne).imp ?_
  intro a b hab
  exact Std.lt_of_le_of_ne (of_decide_eq_true hab.1) hab.2

section Scan

variable {l : Listing} {files : List File} (config : RecordConfig) (stSize : File → ℕ)

/-- The scan goes through the files in order. -/
theorem pairwise_scan (h : l.Shows files) :
    ((scanExistingSegments config stSize l).map KeptSegment.path).Pairwise Before := by
  obtain ⟨entries, hentries, hnodup⟩ := h.root
  rw [scanExistingSegments, hentries, List.pairwise_map, List.pairwise_flatMap]
  have hday : ∀ {day : String} {item : KeptSegment},
      item ∈ scanDay config stSize l day → item.path.day = day := by
    intro day item hitem
    rw [scanDay] at hitem
    cases hfolder : l.folder day with
    | none => simp [hfolder] at hitem
    | some names =>
      rw [hfolder] at hitem
      obtain ⟨name, -, rfl⟩ := List.mem_map.mp hitem
      rfl
  constructor
  · -- within a day
    intro day _
    rw [scanDay]
    cases hfolder : l.folder day with
    | none => exact List.Pairwise.nil
    | some names =>
      rw [List.pairwise_map]
      refine (pairwise_lt_mergeSort ((h.folder day names hfolder).filter _)).imp ?_
      intro a b hab
      exact .inr ⟨rfl, hab⟩
  · -- from day to day
    refine (pairwise_lt_mergeSort (hnodup.filter _)).imp ?_
    intro d e hde item hitem item' hitem'
    left
    rw [hday hitem, hday hitem']
    exact hde

/-- The scan finds the media files. -/
theorem mem_scan (h : l.Shows files)
    (hfiles : ∀ f ∈ files, mediaName f.name = true ∧ hidden f.day = false) (f : File) :
    f ∈ (scanExistingSegments config stSize l).map KeptSegment.path ↔ f ∈ files := by
  obtain ⟨entries, hentries, -⟩ := h.root
  -- the names of the folders that are gone through
  have hscan : f ∈ (scanExistingSegments config stSize l).map KeptSegment.path ↔
      (mediaName f.name = true ∧ hidden f.day = false) ∧ f.day ∈ entries ∧
        l.isDir f.day = true ∧ ∃ names, l.folder f.day = some names ∧ f.name ∈ names := by
    rw [scanExistingSegments, hentries, List.mem_map]
    constructor
    · rintro ⟨item, hitem, rfl⟩
      obtain ⟨day, hday, hitem⟩ := List.mem_flatMap.mp hitem
      rw [scanDay] at hitem
      cases hfolder : l.folder day with
      | none => simp [hfolder] at hitem
      | some names =>
        rw [hfolder] at hitem
        obtain ⟨name, hname, rfl⟩ := List.mem_map.mp hitem
        simp only [List.mem_mergeSort, List.mem_filter, Bool.and_eq_true,
          Bool.not_eq_true'] at hday hname
        exact ⟨⟨hname.2, hday.2.1⟩, hday.1, hday.2.2, names, hfolder, hname.1⟩
    · rintro ⟨⟨hmedia, hhidden⟩, hday, hdir, names, hfolder, hname⟩
      refine ⟨⟨f, config.segmentSec, stSize f⟩, List.mem_flatMap.mpr ⟨f.day, ?_, ?_⟩, rfl⟩
      · simp [hday, hhidden, hdir]
      · rw [scanDay, hfolder]
        exact List.mem_map.mpr ⟨f.name, by simp [hname, hmedia], rfl⟩
  rw [hscan]
  constructor
  · rintro ⟨⟨hmedia, hhidden⟩, hday, hrest⟩
    exact (h.media f hmedia hhidden).mpr ⟨⟨entries, hentries, hday⟩, hrest⟩
  · intro hf
    obtain ⟨hmedia, hhidden⟩ := hfiles f hf
    obtain ⟨⟨entries', hentries', hday⟩, hrest⟩ := (h.media f hmedia hhidden).mp hf
    rw [hentries, Option.some_inj] at hentries'
    subst hentries'
    exact ⟨⟨hmedia, hhidden⟩, hday, hrest⟩

/-- **The scan finds the files in the order given** exactly if that is the order of
their names. -/
theorem scan_eq_iff (h : l.Shows files)
    (hfiles : ∀ f ∈ files, mediaName f.name = true ∧ hidden f.day = false)
    (hnodup : files.Nodup) :
    (scanExistingSegments config stSize l).map KeptSegment.path = files ↔
      files.Pairwise Before := by
  have hpairwise := pairwise_scan config stSize h
  constructor
  · intro heq
    rwa [heq] at hpairwise
  · intro hsorted
    have hne : ((scanExistingSegments config stSize l).map KeptSegment.path).Nodup := by
      refine hpairwise.imp ?_
      rintro a b hab rfl
      exact hab.asymm hab
    refine List.Perm.eq_of_pairwise ?_ hpairwise hsorted
      ((List.perm_ext_iff_of_nodup hne hnodup).mpr (mem_scan config stSize h hfiles))
    intro a b _ _ hab hba
    exact absurd hba hab.asymm

end Scan

/-- Every set of files can be listed. -/
theorem exists_shows {files : List File} (h : files.Nodup) : ∃ l : Listing, l.Shows files := by
  refine ⟨⟨some (files.map File.day).dedup, fun _ => true,
    fun day => some ((files.filter fun f => f.day = day).map File.name)⟩,
    ⟨_, rfl, List.nodup_dedup _⟩, ?_, ?_⟩
  · rintro day names ⟨rfl⟩
    refine (h.filter _).map_on ?_
    intro f hf g hg hname
    have hf' : f.day = day := by simpa using (List.mem_filter.mp hf).2
    have hg' : g.day = day := by simpa using (List.mem_filter.mp hg).2
    cases f
    cases g
    simp_all
  · intro file _ _
    constructor
    · intro hfile
      refine ⟨⟨_, rfl, List.mem_dedup.mpr (List.mem_map_of_mem hfile)⟩, rfl, _, rfl, ?_⟩
      exact List.mem_map.mpr ⟨file, by simp [hfile], rfl⟩
    · rintro ⟨-, -, names, ⟨rfl⟩, hname⟩
      obtain ⟨g, hg, hgname⟩ := List.mem_map.mp hname
      have hgday : g.day = file.day := by simpa using (List.mem_filter.mp hg).2
      have heq : g = file := by
        cases g
        cases file
        simp_all
      exact heq ▸ (List.mem_filter.mp hg).1

/-! ### A segment is opened -/

/-- The segment that is opened at `t` gets no number, and no segment that is
older has a later local time. -/
def InOrder (files : List SegmentFile) (t : LocalTime) : Prop :=
  nextMediaPath t none ∉ files.map SegmentFile.path ∧ ∀ f ∈ files, ¬ t < f.time

/-- The local times are those of a calendar, and no file is listed twice. -/
structure Recorded (files : List SegmentFile) : Prop where
  calendar : ∀ f ∈ files, f.time.Calendar
  nodup : (files.map SegmentFile.path).Nodup

theorem LocalTime.lt_asymm {t u : LocalTime} (h : t < u) : ¬ u < t :=
  List.lt_asymm (show t.fields < u.fields from h)

theorem LocalTime.lt_or_eq {t u : LocalTime} (h : ¬ u < t) : t < u ∨ t = u := by
  rcases List.le_iff_lt_or_eq.mp (List.not_lt.mp h) with hlt | heq
  · exact .inl hlt
  · refine .inr ?_
    cases t
    cases u
    simpa [LocalTime.fields] using heq

theorem suffixLoop_some (fileExists : File → Bool) (t : LocalTime) (left n : ℕ) :
    (suffixLoop fileExists t left (some n)).isSome = true := by
  induction left generalizing n with
  | zero => rfl
  | succ left ih =>
    rw [suffixLoop]
    split
    · exact ih _
    · rfl

/-- A number is appended if the name without one is taken. -/
theorem nextSuffix_isSome (fileExists : File → Bool) (t : LocalTime) :
    (nextSuffix fileExists t).isSome = fileExists (nextMediaPath t none) := by
  rw [nextSuffix, suffixLoop]
  split
  next h => rw [suffixLoop_some, h]
  next h => rw [Bool.not_eq_true] at h; rw [h]; rfl

/-- A segment that has the name without a number is of that local time, and has
none. -/
theorem eq_of_path_eq {f : SegmentFile} {t : LocalTime} (hf : f.time.Calendar)
    (ht : t.Calendar) (h : f.path = nextMediaPath t none) : f.time = t ∧ f.suffix = none := by
  have hirrefl : ∀ {path : File}, ¬ Before path path := fun hlt => hlt.asymm hlt
  have h1 : ¬ (f.time < t ∨ f.time = t ∧ ending f.suffix < ending none) := by
    rw [← before_path_iff (g := ⟨t, none⟩) hf ht, h]
    exact hirrefl
  have h2 : ¬ (t < f.time ∨ t = f.time ∧ ending none < ending f.suffix) := by
    rw [← before_path_iff (f := ⟨t, none⟩) ht hf, h]
    exact hirrefl
  obtain ⟨hlt, heq⟩ := not_or.mp h1
  have htime := (LocalTime.lt_or_eq (not_or.mp h2).1).resolve_left hlt
  refine ⟨htime, ?_⟩
  have hending := fun h => heq ⟨htime, h⟩
  rw [ending_lt_iff] at hending
  simpa using hending

section Steps

variable {zone : Zone} {files : List SegmentFile}

theorem Recorded.filter (h : Recorded files) (p : SegmentFile → Bool) :
    Recorded (files.filter p) :=
  ⟨fun f hf => h.calendar f (List.mem_filter.mp hf).1,
    h.nodup.sublist (List.filter_sublist.map _)⟩

theorem Recorded.step (h : Recorded files) (op : FileOp) : Recorded (zone.step files op) := by
  cases op with
  | unlink path => exact h.filter _
  | openNext now =>
    rw [Zone.step]
    set file : SegmentFile := ⟨zone.localtimeR now, _⟩
    have hrest := h.filter fun f => f.path ≠ file.path
    constructor
    · intro f hf
      rcases List.mem_append.mp hf with hf | hf
      · exact hrest.calendar f hf
      · obtain rfl := List.mem_singleton.mp hf
        exact zone.calendar now
    · rw [List.map_append, List.nodup_append]
      refine ⟨hrest.nodup, List.nodup_singleton _, ?_⟩
      intro path hpath new hnew
      obtain ⟨f, hf, rfl⟩ := List.mem_map.mp hpath
      rw [List.map_singleton, List.mem_singleton] at hnew
      rw [hnew]
      simpa using (List.mem_filter.mp hf).2

/-- The segments are in the order of their names. -/
def Sorted (files : List SegmentFile) : Prop := (files.map SegmentFile.path).Pairwise Before

/-- **Opening a segment keeps the order exactly if it is done in order.** -/
theorem sorted_openNext_iff (h : Recorded files) (hs : Sorted files) (now : ℕ) :
    Sorted (zone.step files (.openNext now)) ↔ InOrder files (zone.localtimeR now) := by
  have hcal := zone.calendar now
  set t := zone.localtimeR now with ht
  set suffix := nextSuffix (fun path => decide (path ∈ files.map SegmentFile.path)) t with hsuffix
  have hstep : zone.step files (.openNext now) =
      files.filter (fun f => f.path ≠ nextMediaPath t suffix) ++ [⟨t, suffix⟩] := rfl
  have hsome : suffix.isSome = decide (nextMediaPath t none ∈ files.map SegmentFile.path) :=
    nextSuffix_isSome _ t
  have hsorted : Sorted (zone.step files (.openNext now)) ↔
      ∀ f ∈ files, f.path ≠ nextMediaPath t suffix →
        f.time < t ∨ f.time = t ∧ ending f.suffix < ending suffix := by
    rw [hstep, Sorted, List.map_append, List.pairwise_append]
    constructor
    · rintro ⟨-, -, hall⟩ f hf hne
      refine (before_path_iff (g := ⟨t, suffix⟩) (h.calendar f hf) hcal).mp ?_
      exact hall _ (List.mem_map_of_mem (List.mem_filter.mpr ⟨hf, by simpa using hne⟩)) _
        List.mem_cons_self
    · intro hall
      refine ⟨hs.sublist (List.filter_sublist.map _), List.pairwise_singleton _ _, ?_⟩
      intro path hpath path' hpath'
      obtain ⟨f, hf, rfl⟩ := List.mem_map.mp hpath
      obtain rfl := List.mem_singleton.mp hpath'
      obtain ⟨hf, hne⟩ := List.mem_filter.mp hf
      exact (before_path_iff (g := ⟨t, suffix⟩) (h.calendar f hf) hcal).mpr
        (hall f hf (by simpa using hne))
  rw [hsorted]
  constructor
  · intro hall
    have hfree : nextMediaPath t none ∉ files.map SegmentFile.path := by
      -- a number would bring the new segment before the one without
      intro htaken
      rw [decide_eq_true htaken] at hsome
      obtain ⟨f, hf, hpath⟩ := List.mem_map.mp htaken
      obtain ⟨htime, hnone⟩ := eq_of_path_eq (h.calendar f hf) hcal hpath
      have hne : f.path ≠ nextMediaPath t suffix := by
        intro heq
        have hpath' : (⟨t, suffix⟩ : SegmentFile).path = nextMediaPath t none :=
          heq.symm.trans hpath
        obtain ⟨-, hnone'⟩ := eq_of_path_eq hcal hcal hpath'
        rw [show suffix = none from hnone'] at hsome
        exact absurd hsome (by simp)
      rcases hall f hf hne with hlt | ⟨-, hlt⟩
      · rw [htime] at hlt
        exact LocalTime.lt_asymm hlt hlt
      · rw [hnone] at hlt
        exact not_ending_lt suffix hlt
    have hnone : suffix = none := by
      rw [decide_eq_false hfree] at hsome
      simpa using hsome
    refine ⟨hfree, fun f hf => ?_⟩
    have hne : f.path ≠ nextMediaPath t suffix := by
      rw [hnone]
      intro heq
      exact hfree (heq ▸ List.mem_map_of_mem hf)
    rcases hall f hf hne with hlt | ⟨heq, -⟩
    · exact LocalTime.lt_asymm hlt
    · rw [heq]
      exact List.lt_irrefl t.fields
  · rintro ⟨hfree, hlate⟩ f hf hne
    have hnone : suffix = none := by
      rw [decide_eq_false hfree] at hsome
      simpa using hsome
    rcases LocalTime.lt_or_eq (hlate f hf) with hlt | heq
    · exact .inl hlt
    · refine .inr ⟨heq, ?_⟩
      rw [hnone] at hne ⊢
      rw [ending_lt_iff]
      by_contra hsuffix
      have : f.suffix = none := by simpa using hsuffix
      exact hne (by rw [SegmentFile.path, heq, this])

/-- To remove segments keeps the order. -/
theorem sorted_unlink (hs : Sorted files) (path : File) :
    Sorted (zone.step files (.unlink path)) :=
  hs.sublist (List.filter_sublist.map _)

theorem recorded_run (zone : Zone) (ops : List FileOp) : Recorded (zone.run ops) := by
  rw [Zone.run]
  have hnew : Recorded [] := ⟨by simp, List.nodup_nil⟩
  generalize ([] : List SegmentFile) = files at hnew ⊢
  induction ops generalizing files with
  | nil => exact hnew
  | cons op ops ih => exact ih _ (hnew.step op)

theorem Zone.run_append (zone : Zone) (done : List FileOp) (op : FileOp) :
    zone.run (done ++ [op]) = zone.step (zone.run done) op := by
  rw [Zone.run, List.foldl_append]
  rfl

/-- **The segments are in order at every moment** exactly if each was opened in
order. -/
theorem sorted_run_iff (zone : Zone) (ops : List FileOp) :
    (∀ done, done <+: ops → Sorted (zone.run done)) ↔
      ∀ done now, done ++ [.openNext now] <+: ops →
        InOrder (zone.run done) (zone.localtimeR now) := by
  constructor
  · intro hall done now hpre
    refine (sorted_openNext_iff (recorded_run zone done)
      (hall done ((List.prefix_append _ _).trans hpre)) now).mp ?_
    rw [← Zone.run_append]
    exact hall _ hpre
  · intro hall done hpre
    induction done using List.reverseRecOn with
    | nil => exact List.Pairwise.nil
    | append_singleton done op ih =>
      have hs := ih ((List.prefix_append _ _).trans hpre)
      rw [Zone.run_append]
      cases op with
      | openNext now =>
        exact (sorted_openNext_iff (recorded_run zone done) hs now).mpr (hall done now hpre)
      | unlink path => exact sorted_unlink hs path

/-- A segment that a recorder opens, under the number that is free, is one that is
opened on the disk. -/
theorem openMedia_files {s : Recorder} {env : Env} {keyframe : MediaFrame}
    (hfiles : s.archive.mediaFiles = files.map SegmentFile.path) {now : ℕ}
    (hsuffix : env.suffix =
      nextSuffix (fun path => decide (path ∈ s.archive.mediaFiles)) (zone.localtimeR now))
    (hfree : nextMediaPath (zone.localtimeR now) env.suffix ∉ s.archive.mediaFiles)
    (hopen : (s.openMedia env keyframe (zone.localtimeR now)).1 = true) :
    (s.openMedia env keyframe (zone.localtimeR now)).2.archive.mediaFiles =
      (zone.step files (.openNext now)).map SegmentFile.path := by
  have hall : files.filter (fun f =>
      f.path ≠ nextMediaPath (zone.localtimeR now) env.suffix) = files := by
    rw [List.filter_eq_self]
    intro f hf
    rw [decide_eq_true_eq]
    intro heq
    rw [hfiles] at hfree
    exact hfree (heq ▸ List.mem_map_of_mem hf)
  have hstep : (zone.step files (.openNext now)).map SegmentFile.path =
      s.archive.mediaFiles ++ [nextMediaPath (zone.localtimeR now) env.suffix] := by
    rw [Zone.step, ← hfiles, ← hsuffix]
    show (files.filter (fun f => f.path ≠ nextMediaPath (zone.localtimeR now) env.suffix) ++
      [(⟨zone.localtimeR now, env.suffix⟩ : SegmentFile)]).map SegmentFile.path = _
    rw [hall, List.map_append, ← hfiles]
    rfl
  rw [hstep]
  rw [Recorder.openMedia] at hopen ⊢
  cases hopened : (s.muxer.openSegment (nextMediaPath (zone.localtimeR now) env.suffix)
    env.segmentOpened).1 with
  | false => simp [hopened] at hopen
  | true => simp [hopened]

end Steps

/-! ### The start of a recorder -/

/-- The names of segments are media names, in directories that are not hidden. -/
theorem media_path (f : SegmentFile) :
    mediaName f.path.name = true ∧ hidden f.path.day = false := by
  constructor
  · have hlist := toList_name f.time f.suffix
    have hsuffix : ['.', 'm', '4', 's'] <:+ f.path.name.toList := by
      rw [SegmentFile.path, hlist]
      simp only [← List.append_assoc, ← List.cons_append]
      exact (List.suffix_append _ _).trans (List.suffix_append _ (ending f.suffix))
    have hlen : 4 < f.path.name.length := by
      rw [← String.length_toList, SegmentFile.path, hlist]
      simp only [List.length_append, List.length_cons]
      omega
    rw [mediaName, decide_eq_true hlen, List.isSuffixOf_iff_suffix.mpr hsuffix]
    rfl
  · rw [hidden, decide_eq_false_iff_not]
    intro hhead
    have hdot : dateChar '.' = true := dateChar_of_mem_day (List.mem_of_mem_head? hhead)
    exact absurd hdot (by decide)

theorem oldestFirst_iff {files : List SegmentFile} (h : Recorded files) :
    OldestFirst files ↔ Sorted files := by
  have hmedia : ∀ path ∈ files.map SegmentFile.path,
      mediaName path.name = true ∧ hidden path.day = false := by
    intro path hpath
    obtain ⟨f, -, rfl⟩ := List.mem_map.mp hpath
    exact media_path f
  constructor
  · intro hfirst
    obtain ⟨l, hl⟩ := exists_shows h.nodup
    exact (scan_eq_iff {} (fun _ => 0) hl hmedia h.nodup).mp (hfirst.scan {} (fun _ => 0) l hl)
  · intro hs
    have hscan : ∀ config stSize l, Listing.Shows l (files.map SegmentFile.path) →
        (scanExistingSegments config stSize l).map KeptSegment.path =
          files.map SegmentFile.path := fun config stSize l hl =>
      (scan_eq_iff config stSize hl hmedia h.nodup).mpr hs
    refine ⟨hscan, fun a env stSize l hl hkept => ?_⟩
    obtain ⟨removed, hpruned⟩ := Archive.pruned_loop env (a := a) rfl
    refine ⟨removed.map KeptSegment.path, ?_⟩
    rw [← List.map_append, Archive.pruneRetainedIn, ← hpruned.kept, hkept]
    exact hscan a.config stSize l hl

/-- **A recorder that starts finds and prunes the segments oldest first, at every
moment of a run, exactly if each segment was opened in order**: no older one has
a later local time, and the name without a number is free. -/
theorem scan_oldest_first_iff (zone : Zone) (ops : List FileOp) :
    (∀ done, done <+: ops → OldestFirst (zone.run done)) ↔
      ∀ done now, done ++ [.openNext now] <+: ops →
        InOrder (zone.run done) (zone.localtimeR now) := by
  rw [← sorted_run_iff]
  refine forall_congr' fun done => imp_congr_right fun _ => ?_
  exact oldestFirst_iff (recorded_run zone done)

/-- The night in which the clocks are put back from three to two. -/
def Zone.autumn : Zone where
  localtimeR now :=
    ⟨2024, 10, 27, min 23 (2 + (now - 3600) / 3600), now / 60 % 60, now % 60⟩
  calendar now := by constructor <;> dsimp only <;> omega

/-- Of two segments. -/
theorem oldestFirst_two_iff (zone : Zone) (now later : ℕ) :
    OldestFirst (zone.run [.openNext now, .openNext later]) ↔
      InOrder [⟨zone.localtimeR now, none⟩] (zone.localtimeR later) := by
  have hone : zone.run [.openNext now] = [⟨zone.localtimeR now, none⟩] := rfl
  have hs : Sorted (zone.run [.openNext now]) := by
    rw [hone]
    exact List.pairwise_singleton _ _
  rw [← hone, oldestFirst_iff (recorded_run _ _)]
  exact sorted_openNext_iff (recorded_run _ _) hs later

/-- Two segments of one second are found in the wrong order, and two segments of
the hour that comes twice may be. -/
theorem found_out_of_order :
    ¬ OldestFirst (Zone.autumn.run [.openNext 0, .openNext 0]) ∧
      ¬ OldestFirst (Zone.autumn.run [.openNext 1800, .openNext 3600]) := by
  rw [oldestFirst_two_iff, oldestFirst_two_iff]
  constructor
  · rintro ⟨hfree, -⟩
    exact hfree List.mem_cons_self
  · rintro ⟨-, hlate⟩
    refine hlate _ List.mem_cons_self ?_
    show [2024, 10, 27, 2, 0, 0] < [2024, 10, 27, 2, 30, 0]
    decide

end IpcMini
