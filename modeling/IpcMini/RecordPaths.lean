/-
The files of the recording directory (`src/record/segment_recorder.cpp`).

Every day has a directory with an `init.mp4`, an `index.m3u8` and its segments,
whose names begin with the day and the time of day.

* `make_day_paths`, `nextMediaPath` — the names that the recorder makes;
* `Generated` — a file that has such a name;
* **`Generated.day_eq`** — files of one name are files of one day.
-/
import Mathlib.Data.List.Basic
import Mathlib.Data.Nat.Notation
import Mathlib.Tactic.Common

namespace IpcMini

/-- A file of the recording directory, `directory/day/name`. -/
structure File where
  day : String
  name : String
  deriving DecidableEq, Repr

namespace File

def index (day : String) : File := ⟨day, "index.m3u8"⟩

def init (day : String) : File := ⟨day, "init.mp4"⟩

end File

/-- `%0*d` of a number that is not negative. -/
def pad (width n : ℕ) : String := String.ofList (List.leftpad width '0' (Nat.toDigits 10 n))

/-- What `localtime_r` returns, with the full year and the month from 1. -/
structure LocalTime where
  year : ℕ
  month : ℕ
  mday : ℕ
  hour : ℕ
  min : ℕ
  sec : ℕ
  deriving DecidableEq, Repr

namespace LocalTime

/-- The name of the day's directory that `make_day_paths` makes. -/
def day (t : LocalTime) : String := pad 4 t.year ++ "-" ++ pad 2 t.month ++ "-" ++ pad 2 t.mday

/-- The stamp that `make_day_paths` returns. -/
def stamp (t : LocalTime) : String :=
  t.day ++ "_" ++ (pad 2 t.hour ++ "-" ++ pad 2 t.min ++ "-" ++ pad 2 t.sec)

end LocalTime

/-- `next_media_path`: `suffix` is the number it has to append to the stamp, if
a file of that name exists. -/
def nextMediaPath (t : LocalTime) (suffix : Option ℕ) : File where
  day := t.day
  name :=
    t.stamp ++ (match suffix with
      | none => ""
      | some n => "-" ++ pad 1 n) ++ ".m4s"

/-- The recorder made the name of the file. -/
def Generated (file : File) : Prop := ∃ t suffix, file = nextMediaPath t suffix

/-! ### The characters of the names -/

/-- A decimal digit or a hyphen. -/
def dateChar (c : Char) : Bool := c.isDigit || c == '-'

theorem dateChar_of_mem_pad {width n : ℕ} {c : Char} (h : c ∈ (pad width n).toList) :
    dateChar c = true := by
  rw [pad, String.toList_ofList, List.leftpad, List.mem_append] at h
  rcases h with h | h
  · obtain rfl := List.eq_of_mem_replicate h
    rfl
  · simp [dateChar, Nat.isDigit_of_mem_toDigits (by omega) (by omega) h]

theorem dateChar_of_mem_day {t : LocalTime} {c : Char} (h : c ∈ t.day.toList) :
    dateChar c = true := by
  simp only [LocalTime.day, String.toList_append, List.mem_append] at h
  rcases h with (((h | h) | h) | h) | h
  · exact dateChar_of_mem_pad h
  · obtain rfl : c = '-' := by simpa using h
    rfl
  · exact dateChar_of_mem_pad h
  · obtain rfl : c = '-' := by simpa using h
    rfl
  · exact dateChar_of_mem_pad h

/-- The name begins with the day and an underscore, and ends in `.m4s`. -/
theorem Generated.toList_name {file : File} (h : Generated file) :
    ∃ rest, file.name.toList = file.day.toList ++ '_' :: rest ++ ['.', 'm', '4', 's'] ∧
      ∀ c ∈ file.day.toList ++ rest, dateChar c = true := by
  obtain ⟨t, suffix, rfl⟩ := h
  have hminus : ∀ c ∈ ("-" : String).toList, dateChar c = true := by
    intro c hc
    obtain rfl : c = '-' := by simpa using hc
    rfl
  -- between the underscore and `.m4s` stand the time and perhaps a number
  refine ⟨(pad 2 t.hour ++ "-" ++ pad 2 t.min ++ "-" ++ pad 2 t.sec).toList ++
    (match suffix with
      | none => ""
      | some n => "-" ++ pad 1 n).toList, ?_, ?_⟩
  · simp [nextMediaPath, LocalTime.stamp]
  · intro c hc
    rw [List.mem_append] at hc
    rcases hc with hc | hc
    · exact dateChar_of_mem_day hc
    rw [List.mem_append] at hc
    rcases hc with hc | hc
    · simp only [String.toList_append, List.mem_append] at hc
      rcases hc with (((hc | hc) | hc) | hc) | hc
      · exact dateChar_of_mem_pad hc
      · exact hminus c hc
      · exact dateChar_of_mem_pad hc
      · exact hminus c hc
      · exact dateChar_of_mem_pad hc
    · cases suffix with
      | none => simp at hc
      | some n =>
        simp only [String.toList_append, List.mem_append] at hc
        rcases hc with hc | hc
        · exact hminus c hc
        · exact dateChar_of_mem_pad hc

/-- **Generated files of one name are files of one day.** -/
theorem Generated.day_eq {f g : File} (hf : Generated f) (hg : Generated g)
    (h : f.name = g.name) : f.day = g.day := by
  obtain ⟨r, hr, hrc⟩ := hf.toList_name
  obtain ⟨r', hr', hrc'⟩ := hg.toList_name
  -- the day is what stands before the first underscore
  have htake : ∀ (day rest : List Char), (∀ c ∈ day, dateChar c = true) →
      (day ++ '_' :: rest).takeWhile (· ≠ '_') = day := by
    intro day rest hday
    rw [List.takeWhile_append_of_pos]
    · simp
    · intro c hc
      have := hday c hc
      rw [decide_eq_true_eq]
      rintro rfl
      exact absurd this (by decide)
  have hday := htake f.day.toList (r ++ ['.', 'm', '4', 's']) fun c hc =>
    hrc c (List.mem_append_left _ hc)
  have hday' := htake g.day.toList (r' ++ ['.', 'm', '4', 's']) fun c hc =>
    hrc' c (List.mem_append_left _ hc)
  rw [← String.toList_inj, ← hday, ← hday']
  rw [List.append_assoc, List.cons_append] at hr hr'
  rw [← hr, ← hr', h]

end IpcMini
