/-
Range requests for the recordings (`cloud/signaling/record_http.js`).

RFC 9110 has three forms of a single range: two positions, a first position, and
the length of a suffix.  `handleRecordRequest` takes all three with one
computation, in which a missing first position is the beginning of the file.

* `Asked` — what a range asks for, `Asked.Written` the header it stands in, and
  `Asked.selected` the positions that the RFC selects of it;
* `Follows` — the answer that the RFC asks for;
* `follows_iff` — the answer is right if and only if the range is;
* **`range_followed_iff`** — that is so for a first position alone, for a last
  position in the file and for a range behind its end, and for no suffix of a
  file with anything in it.
-/
import IpcMini.RecordHttp

namespace IpcMini

open PosixPath

namespace RecordHttp

/-! ### What a range asks for -/

/-- `bytes=a-b`, `bytes=a-` and `bytes=-k`. -/
inductive Asked
  | between (a b : ℕ)
  | onwards (a : ℕ)
  | suffix (k : ℕ)
  deriving DecidableEq, Repr

/-- Decimal digits for the number. -/
def Numeral (digits : List Char) (n : ℕ) : Prop :=
  digits ≠ [] ∧ digits.all Char.isDigit = true ∧ number digits = n

def bytesUnit : List Char := ['b', 'y', 't', 'e', 's', '=']

/-- The header asks for the range. -/
def Asked.Written (header : List Char) : Asked → Prop
  | .between a b => a ≤ b ∧ ∃ first last, Numeral first a ∧ Numeral last b ∧
      header = bytesUnit ++ (first ++ '-' :: last)
  | .onwards a => ∃ first, Numeral first a ∧ header = bytesUnit ++ (first ++ ['-'])
  | .suffix k => ∃ last, Numeral last k ∧ header = bytesUnit ++ '-' :: last

/-- The first and the last position that are selected of a file of that size;
`none` if the range cannot be satisfied. -/
def Asked.selected (size : ℕ) : Asked → Option (ℕ × ℕ)
  | .between a b => if a < size then some (a, min b (size - 1)) else none
  | .onwards a => if a < size then some (a, size - 1) else none
  | .suffix k => if 0 < k ∧ 0 < size then some (size - min k size, size - 1) else none

/-- The range is answered as the RFC says. -/
def Follows (dest : Resolved) (size : ℕ) (asked : Asked) (r : Response) : Prop :=
  match asked.selected size with
  | none => r.status = 416
  | some (first, last) =>
    r.status = 206 ∧ r.body = .file dest first last ∧
      (∀ v, ("content-length", v) ∈ r.headers ↔ v = toString (last + 1 - first)) ∧
      ∀ v, ("content-range", v) ∈ r.headers ↔
        v = "bytes " ++ toString first ++ "-" ++ toString last ++ "/" ++ toString size

/-- The request gets as far as the file, which can be read to its end. -/
structure Reaches (cfg : Config) (req : Request) (env : FsAnswers) (dest : Resolved)
    (size : ℕ) : Prop where
  method : req.method = "GET"
  path : ∃ rel, recordRel req.pathname = .ok (some rel) ∧
    resolveRecordPath cfg.recordDir rel = some dest
  no_null : hasNull dest = false
  stat : env.stat = .file size
  read : env.read = .finished

/-- The range of the code is the one that is selected. -/
def Agrees (range : Option (ℕ × ℤ)) (selected : Option (ℕ × ℕ)) : Prop :=
  range = selected.map fun (first, last) => (first, (last : ℤ))

/-! ### The header -/

variable {req : Request} {header first last : List Char}

/-- The header is taken apart. -/
theorem parseRange_eq (hfirst : first.all Char.isDigit = true)
    (hlast : last.all Char.isDigit = true) :
    parseRange (bytesUnit ++ (first ++ '-' :: last)) = some (first, last) := by
  have hdash : ¬ Char.isDigit '-' = true := by decide
  have hunit : bytesUnit.isPrefixOf (bytesUnit ++ (first ++ '-' :: last)) = true :=
    List.isPrefixOf_iff_prefix.mpr (List.prefix_append _ _)
  have hdrop : (bytesUnit ++ (first ++ '-' :: last)).drop 6 = first ++ '-' :: last := rfl
  have hall : ∀ c ∈ first, Char.isDigit c = true := List.all_eq_true.mp hfirst
  rw [parseRange, ← bytesUnit, if_pos hunit, hdrop]
  dsimp only
  rw [List.dropWhile_append_of_pos hall, List.takeWhile_append_of_pos hall,
    List.dropWhile_cons_of_neg hdash, List.takeWhile_cons_of_neg hdash, List.append_nil]
  exact if_pos hlast

/-- The computation that all forms share. -/
theorem byteRange_eq (hrange : req.range = some (bytesUnit ++ (first ++ '-' :: last)))
    (hfirst : first.all Char.isDigit = true) (hlast : last.all Char.isDigit = true) (size : ℕ) :
    byteRange req size =
      let start := if first = [] then 0 else number first
      let stop : ℤ := if last = [] then size - 1 else number last
      if (size : ℤ) ≤ stop ∨ stop < start then none else some (start, stop) := by
  have hparse := parseRange_eq hfirst hlast
  obtain ⟨c, rest, hcons⟩ : ∃ c rest, bytesUnit ++ (first ++ '-' :: last) = c :: rest :=
    ⟨_, _, rfl⟩
  rw [hcons] at hrange hparse
  rw [byteRange, hrange]
  dsimp only
  rw [hparse]

/-- When the two agree. -/
def Asked.Kept (size : ℕ) : Asked → Prop
  | .between a b => b < size ∨ size ≤ a
  | .onwards _ => True
  | .suffix _ => size = 0

theorem agrees_iff {asked : Asked} (hrange : req.range = some header)
    (hwritten : asked.Written header) (size : ℕ) :
    Agrees (byteRange req size) (asked.selected size) ↔ asked.Kept size := by
  cases asked with
  | between a b =>
    obtain ⟨hab, first, last, ⟨hf, hfirst, rfl⟩, ⟨hl, hlast, rfl⟩, rfl⟩ := hwritten
    rw [byteRange_eq hrange hfirst hlast, if_neg hf, if_neg hl, Asked.selected, Asked.Kept, Agrees]
    dsimp only
    by_cases hsize : number first < size
    · rw [if_pos hsize]
      by_cases hin : number last < size
      · rw [if_neg (by omega), Nat.min_eq_left (by omega)]
        exact iff_of_true rfl (.inl hin)
      · rw [if_pos (by omega)]
        exact iff_of_false (by simp) (by omega)
    · rw [if_neg hsize, if_pos (by omega)]
      exact iff_of_true rfl (.inr (Nat.le_of_not_lt hsize))
  | onwards a =>
    obtain ⟨first, ⟨hf, hfirst, rfl⟩, rfl⟩ := hwritten
    rw [byteRange_eq hrange hfirst rfl, if_neg hf, if_pos rfl, Asked.selected, Asked.Kept, Agrees]
    dsimp only
    refine iff_of_true ?_ trivial
    by_cases hsize : number first < size
    · have hlast : ((size - 1 : ℕ) : ℤ) = (size : ℤ) - 1 := by omega
      rw [if_pos hsize, if_neg (by omega), Option.map_some, hlast]
    · rw [if_neg hsize, if_pos (by omega)]
      rfl
  | suffix k =>
    obtain ⟨last, ⟨hl, hlast, rfl⟩, rfl⟩ := hwritten
    have hrange' : req.range = some (bytesUnit ++ ([] ++ '-' :: last)) := hrange
    rw [byteRange_eq hrange' rfl hlast, if_pos rfl, if_neg hl, Asked.selected, Asked.Kept, Agrees]
    dsimp only
    by_cases hsize : size = 0
    · rw [if_pos (by omega), if_neg (by omega)]
      exact iff_of_true rfl hsize
    · refine iff_of_false (fun h => ?_) hsize
      by_cases hlen : number last < size
      · -- as many bytes are sent from the beginning, and one more
        rw [if_neg (by omega)] at h
        split at h
        next hsel =>
          have hfirst := congrArg Prod.fst (Option.some.inj h)
          dsimp only at hfirst
          omega
        next => cases h
      · rw [if_pos (by omega), if_pos (by omega)] at h
        cases h

/-! ### The answer -/

theorem handle_of_reaches {cfg : Config} {env : FsAnswers} {dest : Resolved} {size : ℕ}
    (h : Reaches cfg req env dest size) :
    handleRecordRequest cfg req env = some (getFile req env dest size) := by
  obtain ⟨rel, hrel, hdest⟩ := h.path
  simp [handleRecordRequest, h.method, hrel, get, hdest, h.no_null, h.stat]

theorem follows_refused {dest : Resolved} {size : ℕ} {asked : Asked} {r : Response}
    (h : r.status = 416) : Follows dest size asked r ↔ Agrees none (asked.selected size) := by
  rw [Follows, Agrees]
  rcases asked.selected size with _ | ⟨first, last⟩
  · exact iff_of_true h rfl
  · refine iff_of_false (fun hr => ?_) (by simp)
    exact absurd (h.symm.trans hr.1) (by decide)

theorem follows_served {dest : Resolved} {size start : ℕ} {stop : ℤ} {asked : Asked}
    {r : Response} (hle : ∀ first last, asked.selected size = some (first, last) → first ≤ last)
    (hstatus : r.status = 206) (hbody : r.body = .file dest start stop)
    (hlength : ∀ v, ("content-length", v) ∈ r.headers ↔ v = toString (stop - start + 1))
    (hrange : ∀ v, ("content-range", v) ∈ r.headers ↔
      v = "bytes " ++ toString start ++ "-" ++ toString stop ++ "/" ++ toString size) :
    Follows dest size asked r ↔ Agrees (some (start, stop)) (asked.selected size) := by
  rw [Follows, Agrees]
  rcases hsel : asked.selected size with _ | ⟨first, last⟩
  · refine iff_of_false (fun hr => ?_) (by simp)
    exact absurd (hstatus.symm.trans hr) (by decide)
  · dsimp only [Option.map_some]
    rw [Option.some.injEq, Prod.mk.injEq]
    constructor
    · rintro ⟨-, hfile, -, -⟩
      rw [hbody] at hfile
      exact ⟨(Body.file.inj hfile).2.1, (Body.file.inj hfile).2.2⟩
    · rintro ⟨rfl, rfl⟩
      have hlast := hle start last hsel
      have hcount : (last : ℤ) - start + 1 = ((last + 1 - start : ℕ) : ℤ) := by omega
      rw [hcount] at hlength
      exact ⟨hstatus, hbody, hlength, hrange⟩

/-- The answer follows the RFC if and only if the range of the code is the one that
is selected. -/
theorem follows_iff {cfg : Config} {env : FsAnswers} {dest : Resolved} {size : ℕ} {asked : Asked}
    (h : Reaches cfg req env dest size) (hasks : asksRange req = true)
    (hle : ∀ first last, asked.selected size = some (first, last) → first ≤ last) :
    (∃ o r, handleRecordRequest cfg req env = some o ∧ o.thrown = none ∧ o.ended = [r] ∧
        Follows dest size asked r) ↔
      Agrees (byteRange req size) (asked.selected size) := by
  have hone : ∀ o : Outcome, ∀ r, o.thrown = none → o.ended = [r] →
      ((∃ o' r', some o = some o' ∧ o'.thrown = none ∧ o'.ended = [r'] ∧
        Follows dest size asked r') ↔ Follows dest size asked r) := by
    intro o r hthrown hended
    constructor
    · rintro ⟨o', r', ho, -, hr, hfollows⟩
      obtain rfl := Option.some.inj ho
      rw [hended] at hr
      rwa [(List.cons.inj hr).1]
    · exact fun hfollows => ⟨o, r, rfl, hthrown, hended, hfollows⟩
  rw [handle_of_reaches h, getFile]
  cases byteRange req size with
  | none => exact (hone _ _ rfl rfl).trans (follows_refused rfl)
  | some range =>
    obtain ⟨start, stop⟩ := range
    dsimp only
    rw [if_pos hasks, serve, if_neg (by rw [h.method]; decide), h.read]
    refine (hone _ _ rfl rfl).trans (follows_served hle rfl rfl (fun v => ?_) fun v => ?_)
    · split <;> simp
    · split <;> simp

theorem Asked.Written.selected_le {asked : Asked} (h : asked.Written header) {size first last : ℕ}
    (hsel : asked.selected size = some (first, last)) : first ≤ last := by
  cases asked with
  | between a b =>
    obtain ⟨hlt, heq⟩ := Option.ite_none_right_eq_some.mp hsel
    obtain ⟨rfl, rfl⟩ := Prod.mk.inj (Option.some.inj heq)
    have hab := h.1
    omega
  | onwards a =>
    obtain ⟨hlt, heq⟩ := Option.ite_none_right_eq_some.mp hsel
    obtain ⟨rfl, rfl⟩ := Prod.mk.inj (Option.some.inj heq)
    omega
  | suffix k =>
    obtain ⟨hlt, heq⟩ := Option.ite_none_right_eq_some.mp hsel
    obtain ⟨rfl, rfl⟩ := Prod.mk.inj (Option.some.inj heq)
    omega

theorem Asked.Written.asksRange {asked : Asked} (h : asked.Written header)
    (hrange : req.range = some header) : asksRange req = true := by
  have hne : header.isEmpty = false := by
    cases asked with
    | between a b =>
      obtain ⟨-, first, last, -, -, rfl⟩ := h
      rfl
    | onwards a =>
      obtain ⟨first, -, rfl⟩ := h
      rfl
    | suffix k =>
      obtain ⟨last, -, rfl⟩ := h
      rfl
  rw [RecordHttp.asksRange, hrange, Option.any_some, hne]
  rfl

/-- **A range is answered as RFC 9110 says** if and only if it is a first position
alone, a pair with the last position in the file or the first one behind its end,
or a suffix of an empty file. -/
theorem range_followed_iff {cfg : Config} {env : FsAnswers} {dest : Resolved} {size : ℕ}
    {asked : Asked} (h : Reaches cfg req env dest size) (hrange : req.range = some header)
    (hwritten : asked.Written header) :
    (∃ o r, handleRecordRequest cfg req env = some o ∧ o.thrown = none ∧ o.ended = [r] ∧
        Follows dest size asked r) ↔
      asked.Kept size := by
  rw [follows_iff h (hwritten.asksRange hrange) (fun _ _ hsel => hwritten.selected_le hsel),
    agrees_iff hrange hwritten]

/-- `GET /record/a.m4s` with a range, of a file of ten bytes. -/
def ranged (header : List Char) : Request :=
  { Request.get (record ++ ['/', 'a', '.', 'm', '4', 's']) with range := some header }

def tenBytes : FsAnswers := { FsAnswers.sample with stat := .file 10 }

theorem ranged_reaches (header : List Char) :
    Reaches ⟨[['r']], ""⟩ (ranged header) tenBytes [['r'], ['a', '.', 'm', '4', 's']] 10 where
  method := rfl
  path := ⟨['a', '.', 'm', '4', 's'], by
    have hrel : recordRel (record ++ ['/', 'a', '.', 'm', '4', 's']) =
        .ok (some ['a', '.', 'm', '4', 's']) := by decide
    exact hrel, by decide⟩
  no_null := by decide
  stat := rfl
  read := rfl

/-- `bytes=2-5`. -/
theorem inner_range_followed :
    ((∃ o r, handleRecordRequest ⟨[['r']], ""⟩
        (ranged ['b', 'y', 't', 'e', 's', '=', '2', '-', '5']) tenBytes = some o ∧
          o.thrown = none ∧ o.ended = [r] ∧
            Follows [['r'], ['a', '.', 'm', '4', 's']] 10 (.between 2 5) r) ↔
      (Asked.between 2 5).Kept 10) ∧ (Asked.between 2 5).Kept 10 := by
  refine ⟨range_followed_iff (ranged_reaches _) rfl ⟨by decide, ['2'], ['5'], ?_, ?_, rfl⟩,
    .inl (by decide)⟩
  · exact ⟨by decide, by decide, by decide⟩
  · exact ⟨by decide, by decide, by decide⟩

/-- **The last two bytes**, `bytes=-2`, are answered with the first three. -/
theorem suffix_from_the_front :
    ¬ ∀ (cfg : Config) (req : Request) (env : FsAnswers) (dest : Resolved) (size : ℕ)
      (header : List Char) (asked : Asked), Reaches cfg req env dest size →
        req.range = some header → asked.Written header →
          ∃ o r, handleRecordRequest cfg req env = some o ∧ o.thrown = none ∧ o.ended = [r] ∧
            Follows dest size asked r := by
  intro h
  have hreaches := ranged_reaches ['b', 'y', 't', 'e', 's', '=', '-', '2']
  have hwritten : (Asked.suffix 2).Written ['b', 'y', 't', 'e', 's', '=', '-', '2'] :=
    ⟨['2'], ⟨by decide, by decide, by decide⟩, rfl⟩
  have hagrees := (follows_iff hreaches rfl fun _ _ hsel => hwritten.selected_le hsel).mp
    (h _ _ _ _ _ _ _ hreaches rfl hwritten)
  exact Nat.succ_ne_zero 9 ((agrees_iff rfl hwritten 10).mp hagrees)

end RecordHttp

end IpcMini
