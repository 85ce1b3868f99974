/-
POSIX paths as Node's `path.posix` treats them.

A path is a list of characters; the segments between its slashes are pushed on
a stack, on which `..` cancels the segment below it.  An absolute path that is
normalized is represented by its segments (`Resolved`).

* `normalize`, `resolve`, `relative`, `extname` — the functions of Node;
* `Climbing` — the shape of a relative path's stack: steps up, and then names;
* `normalize_relative` — a relative path is normalized to such a stack;
* `Inside`, `StrictlyInside` — what lies below a directory.
-/
import Mathlib.Data.List.Basic
import Mathlib.Data.Nat.Notation
import Mathlib.Tactic.Common

namespace PosixPath

def dot : List Char := ['.']

def dotdot : List Char := ['.', '.']

def segments (path : List Char) : List (List Char) := path.splitOn '/'

def join (segs : List (List Char)) : List Char := ['/'].intercalate segs

/-- One segment of `normalizeString`; `above` is `allowAboveRoot`. -/
def push (above : Bool) (stack : List (List Char)) (seg : List Char) : List (List Char) :=
  if seg = [] ∨ seg = dot then stack
  else if seg = dotdot then
    if stack ≠ [] ∧ stack.getLast? ≠ some dotdot then stack.dropLast
    else if above then stack ++ [dotdot]
    else stack
  else stack ++ [seg]

/-- `path.posix.normalize`. -/
def normalize (path : List Char) : List Char :=
  if path = [] then dot
  else
    let absolute := decide (path.head? = some '/')
    let trailing := decide (path.getLast? = some '/')
    let body := join ((segments path).foldl (push !absolute) [])
    let body :=
      if body = [] then if absolute then [] else if trailing then ['.', '/'] else dot
      else if trailing then body ++ ['/'] else body
    if absolute then '/' :: body else body

/-- The segments of an absolute path without `.` and `..`. -/
abbrev Resolved := List (List Char)

/-- `path.resolve(root, path)`. -/
def resolve (root : Resolved) (path : List Char) : Resolved :=
  (segments path).foldl (push false) (if path.head? = some '/' then [] else root)

/-- `path.relative(src, dest)`. -/
def relative : Resolved → Resolved → List Char
  | a :: src, b :: dest =>
    if a = b then relative src dest
    else join (List.replicate (src.length + 1) dotdot ++ b :: dest)
  | src, dest => join (List.replicate src.length dotdot ++ dest)

/-- The extension of a name: from its last dot on, if that is not the first
character. -/
def extension (name : List Char) : List Char :=
  if name = dotdot then []
  else
    let after := name.reverse.takeWhile (· ≠ '.')
    if after.length + 1 < name.length then '.' :: after.reverse else []

/-- `path.posix.extname`. -/
def extname (path : List Char) : List Char :=
  extension (((segments path).filter (· ≠ [])).getLastD [])

/-! ### What is normalized -/

/-- A segment that names an entry of a directory. -/
structure IsName (seg : List Char) : Prop where
  ne_nil : seg ≠ []
  ne_dot : seg ≠ dot
  ne_dotdot : seg ≠ dotdot
  no_slash : '/' ∉ seg

/-- The stack of a relative path: steps up, and then names. -/
def Climbing (ups : ℕ) (names : List (List Char)) : List (List Char) :=
  List.replicate ups dotdot ++ names

theorem no_slash_of_mem_segments {path seg : List Char} (h : seg ∈ segments path) :
    '/' ∉ seg := by
  rw [segments] at h
  induction path generalizing seg with
  | nil =>
    rw [List.splitOn_nil, List.mem_singleton] at h
    simp [h]
  | cons c path ih =>
    rw [List.splitOn_cons_eq_if_modifyHead] at h
    split at h
    · rcases List.mem_cons.mp h with rfl | h
      · simp
      · exact ih h
    · next hc =>
      cases hs : path.splitOn '/' with
      | nil => exact absurd hs (List.splitOn_ne_nil _ _)
      | cons first rest =>
        rw [hs] at h ih
        rcases List.mem_cons.mp h with rfl | h
        · have hfirst := ih List.mem_cons_self
          have hne : '/' ≠ c := fun he => hc (by simpa using he.symm)
          simp [hfirst, hne]
        · exact ih (List.mem_cons_of_mem _ h)

theorem segments_join {names : List (List Char)} (h : ∀ seg ∈ names, IsName seg)
    (hne : names ≠ []) : segments (join names) = names :=
  List.splitOn_intercalate '/' (fun seg hseg => (h seg hseg).no_slash) hne

theorem push_name {above : Bool} {stack : List (List Char)} {seg : List Char} (h : IsName seg) :
    push above stack seg = stack ++ [seg] := by
  simp [push, h.ne_nil, h.ne_dot, h.ne_dotdot]

/-- Names are pushed one on another. -/
theorem foldl_push_name {above : Bool} {names : List (List Char)}
    (h : ∀ seg ∈ names, IsName seg) (stack : List (List Char)) :
    names.foldl (push above) stack = stack ++ names := by
  induction names generalizing stack with
  | nil => simp
  | cons seg names ih =>
    rw [List.foldl_cons, push_name (h seg List.mem_cons_self),
      ih fun s hs => h s (List.mem_cons_of_mem _ hs)]
    simp

/-- One segment keeps the shape of the stack. -/
theorem climbing_push (ups : ℕ) {names : List (List Char)} {seg : List Char}
    (h : ∀ s ∈ names, IsName s) (hseg : '/' ∉ seg) :
    ∃ ups' names', (∀ s ∈ names', IsName s) ∧
      push true (Climbing ups names) seg = Climbing ups' names' := by
  by_cases hskip : seg = [] ∨ seg = dot
  · exact ⟨ups, names, h, by rw [push, if_pos hskip]⟩
  by_cases hup : seg = dotdot
  · rw [push, if_neg hskip, if_pos hup]
    rcases List.eq_nil_or_concat' names with rfl | ⟨front, last, rfl⟩
    · -- there is no name to cancel, so that the path goes one further up
      refine ⟨ups + 1, [], by simp, ?_⟩
      rw [if_neg, if_pos rfl]
      · simp [Climbing, List.replicate_succ']
      · rintro ⟨hne, hlast⟩
        cases ups with
        | zero => exact hne rfl
        | succ n => exact hlast (by simp [Climbing, List.replicate_succ'])
    · refine ⟨ups, front, fun s hs => h s (by simp [hs]), ?_⟩
      have hlast : last ≠ dotdot := (h last (by simp)).ne_dotdot
      rw [if_pos]
      · rw [Climbing, ← List.append_assoc, List.dropLast_concat, Climbing]
      · rw [Climbing, ← List.append_assoc]
        simp [hlast]
  · refine ⟨ups, names ++ [seg], ?_, ?_⟩
    · intro s hs
      rcases List.mem_append.mp hs with hs | hs
      · exact h s hs
      · obtain rfl := List.mem_singleton.mp hs
        exact ⟨fun he => hskip (.inl he), fun he => hskip (.inr he), hup, hseg⟩
    · rw [push, if_neg hskip, if_neg hup, Climbing, Climbing, List.append_assoc]

theorem climbing_foldl {segs : List (List Char)} (hsegs : ∀ seg ∈ segs, '/' ∉ seg) (ups : ℕ)
    {names : List (List Char)} (h : ∀ s ∈ names, IsName s) :
    ∃ ups' names', (∀ s ∈ names', IsName s) ∧
      segs.foldl (push true) (Climbing ups names) = Climbing ups' names' := by
  induction segs generalizing ups names with
  | nil => exact ⟨ups, names, h, rfl⟩
  | cons seg segs ih =>
    obtain ⟨ups', names', h', he⟩ := climbing_push ups h (hsegs seg List.mem_cons_self)
    rw [List.foldl_cons, he]
    exact ih (fun s hs => hsegs s (List.mem_cons_of_mem _ hs)) ups' h'

theorem join_ne_nil {names : List (List Char)} (h : ∀ seg ∈ names, seg ≠ []) (hne : names ≠ []) :
    join names ≠ [] := by
  obtain ⟨seg, rest, rfl⟩ := List.exists_cons_of_ne_nil hne
  have := h seg List.mem_cons_self
  cases rest <;> simp [join, this]

/-- **A relative path is normalized to `.`, to `./`, or to steps up and names,
with the slash that it ends in.** -/
theorem normalize_relative {path : List Char} (h : path.head? ≠ some '/') :
    normalize path = dot ∨ normalize path = ['.', '/'] ∨
      ∃ ups names tail, (∀ s ∈ names, IsName s) ∧ (tail = [] ∨ tail = ['/']) ∧
        Climbing ups names ≠ [] ∧ normalize path = join (Climbing ups names) ++ tail := by
  by_cases hempty : path = []
  · exact .inl (by rw [normalize, if_pos hempty])
  obtain ⟨ups, names, hnames, he⟩ := climbing_foldl
    (fun seg (hseg : seg ∈ segments path) => no_slash_of_mem_segments hseg) 0
    (fun s (hs : s ∈ []) => absurd hs (by simp))
  rw [normalize, if_neg hempty]
  simp only [h, decide_false, Bool.not_false, Bool.false_eq_true, ↓reduceIte]
  rw [show ([] : List (List Char)) = Climbing 0 [] from rfl, he]
  by_cases hstack : Climbing ups names = []
  · simp only [hstack, show join [] = [] from rfl, ↓reduceIte]
    split
    · exact .inr (.inl rfl)
    · exact .inl rfl
  · have hjoin : join (Climbing ups names) ≠ [] := by
      refine join_ne_nil (fun seg hseg => ?_) hstack
      rcases List.mem_append.mp hseg with hseg | hseg
      · rw [List.eq_of_mem_replicate hseg]
        decide
      · exact (hnames seg hseg).ne_nil
    rw [if_neg hjoin]
    refine .inr (.inr ⟨ups, names, if path.getLast? = some '/' then ['/'] else [], hnames, ?_,
      hstack, ?_⟩)
    · split
      · exact .inr rfl
      · exact .inl rfl
    · by_cases hlast : path.getLast? = some '/' <;> simp [hlast]

/-! ### What lies below a directory -/

/-- The path is the directory, or lies below it. -/
def Inside (root path : Resolved) : Prop :=
  ∃ names, path = root ++ names ∧ ∀ seg ∈ names, IsName seg

/-- The path lies below the directory. -/
def StrictlyInside (root path : Resolved) : Prop :=
  ∃ names, path = root ++ names ∧ (∀ seg ∈ names, IsName seg) ∧ names ≠ []

theorem Inside.refl (root : Resolved) : Inside root root := ⟨[], by simp, by simp⟩

theorem StrictlyInside.inside {root path : Resolved} (h : StrictlyInside root path) :
    Inside root path := by
  obtain ⟨names, he, hnames, -⟩ := h
  exact ⟨names, he, hnames⟩

theorem Inside.child {root dir : Resolved} {seg : List Char} (h : Inside root dir)
    (hseg : IsName seg) : StrictlyInside root (dir ++ [seg]) := by
  obtain ⟨names, rfl, hnames⟩ := h
  refine ⟨names ++ [seg], by simp, ?_, by simp⟩
  intro s hs
  rcases List.mem_append.mp hs with hs | hs
  · exact hnames s hs
  · exact List.mem_singleton.mp hs ▸ hseg

/-- What lies below the directory is the entry of a directory that lies in it. -/
theorem StrictlyInside.parent {root path : Resolved} (h : StrictlyInside root path) :
    ∃ dir seg, path = dir ++ [seg] ∧ Inside root dir ∧ IsName seg := by
  obtain ⟨names, rfl, hnames, hne⟩ := h
  rcases List.eq_nil_or_concat names with rfl | ⟨front, last, rfl⟩
  · exact absurd rfl hne
  · exact ⟨root ++ front, last, by simp, ⟨front, rfl, fun s hs => hnames s (by simp [hs])⟩,
      hnames last (by simp)⟩

theorem Inside.eq_or_strictly {root path : Resolved} (h : Inside root path) :
    path = root ∨ StrictlyInside root path := by
  obtain ⟨names, rfl, hnames⟩ := h
  cases names with
  | nil => exact .inl (by simp)
  | cons seg names => exact .inr ⟨seg :: names, rfl, hnames, by simp⟩

/-- Names, with a slash at their end or without one, resolve to an entry below
the directory. -/
theorem resolve_join {root : Resolved} {names : List (List Char)} {tail : List Char}
    (h : ∀ seg ∈ names, IsName seg) (hne : names ≠ []) (htail : tail = [] ∨ tail = ['/']) :
    resolve root (join names ++ tail) = root ++ names := by
  have hhead : (join names ++ tail).head? ≠ some '/' := by
    obtain ⟨seg, rest, rfl⟩ := List.exists_cons_of_ne_nil hne
    obtain ⟨c, seg, rfl⟩ := List.exists_cons_of_ne_nil (h seg List.mem_cons_self).ne_nil
    have hc : c ≠ '/' := fun he => (h _ List.mem_cons_self).no_slash (by simp [he])
    cases rest <;> simp [join, hc]
  rw [resolve, if_neg hhead]
  rcases htail with rfl | rfl
  · rw [List.append_nil, segments_join h hne, foldl_push_name h]
  · -- the last segment is empty
    have hsegs : segments (join names ++ ['/']) = names ++ [[]] := by
      rw [segments, List.splitOn_append_cons_self, List.splitOn_nil]
      exact congrArg (· ++ [[]]) (segments_join h hne)
    rw [hsegs, List.foldl_append, foldl_push_name h]
    simp [push]

end PosixPath
