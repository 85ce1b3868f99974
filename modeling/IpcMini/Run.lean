/-
Runs of interleaved parties.

A system is a partial step function `step : σ → ι → Option σ`.  A label says
which party moves and what its environment answers; `none` means that the
label is not enabled in that state.  Interleavings are lists of labels, so a
concrete schedule can be evaluated.

* `run` executes a list of labels, `Along` says that each of its steps is taken
  in a state where a condition on state and label holds;
* **`run_invariant`** — what every step that meets the condition preserves
  holds in every state reached;
* `trace` lists the steps of a run, **`run_trace_along`** — a property of a state
  and of the steps before it that every step preserves holds at the end;
* `along_imp`, `along_of_invariant`, `along_congr` — a condition that implies
  another on the states of an invariant implies it along runs;
* **`along_simulation`** — what holds along the runs of a system holds along
  those of a system that it simulates.
-/
import Mathlib.Data.List.Basic
import Mathlib.Data.Option.Basic

namespace Interleaving

variable {σ ι : Type*} {step : σ → ι → Option σ}

/-- Execute the labels one after the other. -/
def run (step : σ → ι → Option σ) : σ → List ι → Option σ
  | s, [] => some s
  | s, i :: is => (step s i).bind fun t => run step t is

/-- Every step of the run of the labels from `s` is taken in a state where
`C` holds of the label. -/
def Along (step : σ → ι → Option σ) (C : σ → ι → Prop) : σ → List ι → Prop
  | _, [] => True
  | s, i :: is => C s i ∧ ∀ t, step s i = some t → Along step C t is

@[simp] theorem run_nil (s : σ) : run step s [] = some s := rfl

@[simp] theorem run_cons (s : σ) (i : ι) (is : List ι) :
    run step s (i :: is) = (step s i).bind fun t => run step t is := rfl

theorem run_append (s : σ) (is js : List ι) :
    run step s (is ++ js) = (run step s is).bind fun t => run step t js := by
  induction is generalizing s with
  | nil => rfl
  | cons i is ih =>
    cases h : step s i with
    | none => simp [h]
    | some t => simp [h, ih t]

theorem run_concat {s t : σ} {is : List ι} (h : run step s is = some t) (i : ι) :
    run step s (is ++ [i]) = step t i := by
  rw [run_append, h]
  cases hi : step t i <;> simp [hi]

@[simp] theorem along_nil {C : σ → ι → Prop} (s : σ) : Along step C s [] := trivial

theorem along_true (s : σ) (is : List ι) : Along step (fun _ _ => True) s is := by
  induction is generalizing s with
  | nil => trivial
  | cons i is ih => exact ⟨trivial, fun t _ => ih t⟩

theorem along_cons {C : σ → ι → Prop} {s : σ} {i : ι} {is : List ι} :
    Along step C s (i :: is) ↔ C s i ∧ ∀ t, step s i = some t → Along step C t is :=
  Iff.rfl

/-- Whether a run meets a decidable condition can be evaluated. -/
def decideAlong (step : σ → ι → Option σ) (C : σ → ι → Prop) [∀ s i, Decidable (C s i)] :
    ∀ (s : σ) (is : List ι), Decidable (Along step C s is)
  | _, [] => .isTrue trivial
  | s, i :: is =>
    match h : step s i with
    | none => decidable_of_iff (C s i) (by simp [along_cons, h])
    | some t =>
      have := decideAlong step C t is
      decidable_of_iff (C s i ∧ Along step C t is) (by simp [along_cons, h])

instance {C : σ → ι → Prop} [∀ s i, Decidable (C s i)] (s : σ) (is : List ι) :
    Decidable (Along step C s is) := decideAlong step C s is

theorem along_append {C : σ → ι → Prop} {s : σ} {is js : List ι} :
    Along step C s (is ++ js) ↔
      Along step C s is ∧ ∀ t, run step s is = some t → Along step C t js := by
  induction is generalizing s with
  | nil => simp
  | cons i is ih =>
    simp only [List.cons_append, along_cons, ih, run_cons, Option.bind_eq_some_iff]
    constructor
    · rintro ⟨hc, h⟩
      exact ⟨⟨hc, fun t ht => (h t ht).1⟩, fun u ⟨t, ht, hu⟩ => (h t ht).2 u hu⟩
    · rintro ⟨⟨hc, h⟩, h'⟩
      exact ⟨hc, fun t ht => ⟨h t ht, fun u hu => h' u ⟨t, ht, hu⟩⟩⟩

/-- A property that each step meeting `C` preserves holds at the end of every
run whose steps all meet `C`. -/
theorem run_invariant {C : σ → ι → Prop} {P : σ → Prop}
    (hstep : ∀ s i t, P s → C s i → step s i = some t → P t) :
    ∀ {is : List ι} {s t : σ}, P s → Along step C s is → run step s is = some t → P t := by
  intro is
  induction is with
  | nil =>
    intro s t hs _ hrun
    obtain rfl : s = t := by simpa using hrun
    exact hs
  | cons i is ih =>
    intro s t hs hC hrun
    obtain ⟨u, hu, hrun⟩ := Option.bind_eq_some_iff.mp hrun
    exact ih (hstep s i u hs hC.1 hu) (hC.2 u hu) hrun

/-- `run_invariant` without a condition on the steps. -/
theorem run_preserves {P : σ → Prop}
    (hstep : ∀ s i t, P s → step s i = some t → P t) {is : List ι} {s t : σ}
    (hs : P s) (hrun : run step s is = some t) : P t := by
  exact run_invariant (C := fun _ _ => True) (fun s i t h _ => hstep s i t h) hs
    (along_true s is) hrun

/-- The steps of the run of the labels from `s`: each state with the label that
it was left by. -/
def trace (step : σ → ι → Option σ) : σ → List ι → List (σ × ι)
  | _, [] => []
  | s, i :: is => (s, i) :: ((step s i).elim [] fun t => trace step t is)

/-- A property of a state and of its past that each step meeting `C` preserves
holds at the end of every run whose steps all meet `C`. -/
theorem run_trace_along {C : σ → ι → Prop} {P : List (σ × ι) → σ → Prop}
    (hstep : ∀ past s i t, P past s → C s i → step s i = some t → P (past ++ [(s, i)]) t)
    {is : List ι} {s t : σ} (hs : P [] s) (hC : Along step C s is)
    (hrun : run step s is = some t) : P (trace step s is) t := by
  -- the induction is on the labels, with the past of `s` left open
  suffices h : ∀ past, P past s → P (past ++ trace step s is) t from h [] hs
  clear hs
  induction is generalizing s with
  | nil =>
    intro past hs
    obtain rfl : s = t := by simpa using hrun
    rwa [trace, List.append_nil]
  | cons i is ih =>
    intro past hs
    obtain ⟨u, hu, hrun⟩ := Option.bind_eq_some_iff.mp hrun
    have hnext := ih (hC.2 u hu) hrun (past ++ [(s, i)]) (hstep past s i u hs hC.1 hu)
    rw [List.append_assoc] at hnext
    rw [trace, hu]
    exact hnext

/-- `run_trace_along` without a condition on the steps. -/
theorem run_trace_invariant {P : List (σ × ι) → σ → Prop}
    (hstep : ∀ past s i t, P past s → step s i = some t → P (past ++ [(s, i)]) t)
    {is : List ι} {s t : σ} (hs : P [] s) (hrun : run step s is = some t) :
    P (trace step s is) t :=
  run_trace_along (C := fun _ _ => True) (fun past s i t h _ => hstep past s i t h) hs
    (along_true s is) hrun

/-- What a condition implies wherever an invariant holds, which the steps that
meet the condition preserve, holds along every run that meets the condition. -/
theorem along_imp {C D : σ → ι → Prop} {P : σ → Prop}
    (hstep : ∀ s i t, P s → C s i → step s i = some t → P t)
    (hCD : ∀ s i, P s → C s i → D s i) :
    ∀ {is : List ι} {s : σ}, P s → Along step C s is → Along step D s is := by
  intro is
  induction is with
  | nil => intro s _ _; exact along_nil s
  | cons i is ih =>
    intro s hs h
    exact ⟨hCD s i hs h.1, fun t ht => ih (hstep s i t hs h.1 ht) (h.2 t ht)⟩

/-- What holds of every label wherever an invariant of the steps holds, holds
along every run. -/
theorem along_of_invariant {D : σ → ι → Prop} {P : σ → Prop}
    (hstep : ∀ s i t, P s → step s i = some t → P t) (hD : ∀ s i, P s → D s i) :
    ∀ {is : List ι} {s : σ}, P s → Along step D s is := by
  intro is
  induction is with
  | nil => intro s _; exact along_nil s
  | cons i is ih => exact fun hs => ⟨hD _ i hs, fun t ht => ih (hstep _ i t hs ht)⟩

/-- Two conditions that agree wherever an invariant holds agree along every
run from a state of the invariant. -/
theorem along_congr {C D : σ → ι → Prop} {P : σ → Prop}
    (hstep : ∀ s i t, P s → step s i = some t → P t)
    (hCD : ∀ s i, P s → (C s i ↔ D s i)) {is : List ι} {s : σ} (hs : P s) :
    Along step C s is ↔ Along step D s is :=
  ⟨along_imp (fun s i t h _ => hstep s i t h) (fun s i h => (hCD s i h).mp) hs,
    along_imp (fun s i t h _ => hstep s i t h) (fun s i h => (hCD s i h).mpr) hs⟩

/-- Along every run of the system `step'` from the image of `s` the condition
`C'` implies `D'`; then `C` implies `D` along the runs from `s` of a system of
which each step either leaves the image alone or is a step of `step'`. -/
theorem along_simulation {σ' ι' : Type*} {step' : σ' → ι' → Option σ'} {C D : σ → ι → Prop}
    {C' D' : σ' → ι' → Prop} {P : σ → Prop} {f : σ → σ'}
    (hstep : ∀ s i t, P s → step s i = some t → P t)
    (hsim : ∀ s i, P s → C s i →
      (D s i ∧ ∀ t, step s i = some t → f t = f s) ∨
      ∃ j, C' (f s) j ∧ (D' (f s) j → D s i) ∧
        ∀ t, step s i = some t → step' (f s) j = some (f t)) :
    ∀ {is : List ι} {s : σ}, P s →
      (∀ js, Along step' C' (f s) js → Along step' D' (f s) js) →
      Along step C s is → Along step D s is := by
  intro is
  induction is with
  | nil => exact fun _ _ _ => trivial
  | cons i is ih =>
    intro s hs habs h
    rcases hsim s i hs h.1 with ⟨hD, hsame⟩ | ⟨j, hC, hD, hj⟩
    · refine ⟨hD, fun t ht => ih (hstep s i t hs ht) ?_ (h.2 t ht)⟩
      rw [hsame t ht]
      exact habs
    · refine ⟨hD (habs [j] ⟨hC, fun _ _ => trivial⟩).1, fun t ht => ?_⟩
      refine ih (hstep s i t hs ht) (fun js hjs => ?_) (h.2 t ht)
      -- the abstract run goes on from the image of the next state
      have hnext : Along step' C' (f s) (j :: js) := by
        refine ⟨hC, fun u hu => ?_⟩
        obtain rfl : f t = u := Option.some_inj.mp ((hj t ht).symm.trans hu)
        exact hjs
      exact (habs _ hnext).2 _ (hj t ht)

end Interleaving
