/-
Idle waits that a generation counter guards.

A worker thread ends a service that nobody has wanted for a whole interval.  It
notes the generation of the demand, releases the mutex and waits until a
deadline; whoever moves the demand steps the generation, so the worker that
finds it unchanged at the deadline knows about the whole interval.

* `Watch` — what is observed of a system with such a worker;
* **`Waiting`** — what generation and deadline of a waiting worker say about
  the steps before the state;
* `waiting_of_entered`, `waiting_of_same`, `waiting_of_moved` — the steps that
  keep it: entering the wait, leaving the demand alone, moving it.
-/
import Mathlib.Data.List.Basic

namespace Interleaving

/-- What is observed of a system whose worker waits for an idle interval. -/
structure Watch (σ ι : Type*) where
  /-- the generation noted and the deadline, in the wait -/
  wait : σ → Option (ℕ × ℕ)
  generation : σ → ℕ
  stop : σ → Bool
  wanted : σ → Bool
  now : σ → ℕ
  /-- the steps that ask for the service or give it up -/
  call : ι → Prop

namespace Watch

variable {σ ι : Type*} {W : Watch σ ι} {idle : ℕ} {past : List (σ × ι)} {s t : σ} {i : ι}

/-- Nobody wanted the service in the interval that ends at `deadline`. -/
def Unwanted (W : Watch σ ι) (idle : ℕ) (past : List (σ × ι)) (deadline : ℕ) : Prop :=
  ∀ e ∈ past, deadline < W.now e.1 + idle → W.wanted e.1 = false ∧ ¬ W.call e.2

/-- What the generation and the deadline of a waiting worker say. -/
def Waiting (W : Watch σ ι) (idle : ℕ) (past : List (σ × ι)) (s : σ) : Prop :=
  ∀ generation deadline, W.wait s = some (generation, deadline) →
    generation ≤ W.generation s ∧
    (W.stop s = false → W.generation s = generation →
      W.wanted s = false ∧ W.Unwanted idle past deadline)

/-- The clock never goes back. -/
def Clocked (W : Watch σ ι) (past : List (σ × ι)) (s : σ) : Prop :=
  ∀ e ∈ past, W.now e.1 ≤ W.now s

theorem clocked_nil (s : σ) : W.Clocked [] s := fun e he => by simp at he

theorem clocked_step (h : W.Clocked past s) (hle : W.now s ≤ W.now t) :
    W.Clocked (past ++ [(s, i)]) t := by
  intro e he
  rcases List.mem_append.mp he with he | he
  · exact Nat.le_trans (h e he) hle
  · rw [List.mem_singleton.mp he]
    exact hle

/-- A worker outside of its wait says nothing. -/
theorem waiting_of_none (h : W.wait t = none) : W.Waiting idle past t := by
  intro generation deadline hwait
  simp [h] at hwait

/-- A worker that enters its wait has the whole interval before it. -/
theorem waiting_of_entered (hclock : W.Clocked past s)
    (hentered : ∀ generation deadline, W.wait t = some (generation, deadline) →
      generation = W.generation t ∧ deadline = W.now s + idle ∧ W.wanted t = false) :
    W.Waiting idle (past ++ [(s, i)]) t := by
  intro generation deadline hwait
  obtain ⟨rfl, rfl, hoff⟩ := hentered generation deadline hwait
  refine ⟨Nat.le_refl _, fun _ _ => ⟨hoff, fun e he hlate => ?_⟩⟩
  -- no step so far is later than the begin of the wait
  have hnow := clocked_step (i := i) hclock (Nat.le_refl (W.now s)) e he
  omega

/-- A worker stays in its wait through a step that leaves the demand alone. -/
theorem waiting_of_same (h : W.Waiting idle past s) (hwait : W.wait t = W.wait s)
    (hgeneration : W.generation t = W.generation s) (hstop : W.stop t = W.stop s)
    (hwanted : W.wanted t = W.wanted s)
    (hcall : (W.wait s).isSome = true → W.stop s = false → ¬ W.call i) :
    W.Waiting idle (past ++ [(s, i)]) t := by
  intro generation deadline hidle
  rw [hwait] at hidle
  rw [hgeneration, hstop, hwanted]
  obtain ⟨hle, hquiet⟩ := h generation deadline hidle
  refine ⟨hle, fun hgo hsame => ?_⟩
  obtain ⟨hoff, hunwanted⟩ := hquiet hgo hsame
  refine ⟨hoff, fun e he hlate => ?_⟩
  rcases List.mem_append.mp he with he | he
  · exact hunwanted e he hlate
  · rw [List.mem_singleton.mp he]
    exact ⟨hoff, hcall (by simp [hidle]) hgo⟩

/-- A worker whose generation has passed knows that it was woken. -/
theorem waiting_of_moved (h : W.Waiting idle past s) (hwait : W.wait t = W.wait s)
    (hgeneration : W.generation s < W.generation t) :
    W.Waiting idle (past ++ [(s, i)]) t := by
  intro generation deadline hidle
  rw [hwait] at hidle
  have hle := (h generation deadline hidle).1
  exact ⟨by omega, fun _ hsame => by omega⟩

/-- **At the deadline**, an unchanged generation means an idle interval. -/
theorem unwanted_of_due (h : W.Waiting idle past s) {generation deadline : ℕ}
    (hwait : W.wait s = some (generation, deadline)) (hstop : W.stop s = false)
    (hsame : W.generation s = generation) (hdue : deadline ≤ W.now s) :
    W.Unwanted idle past (W.now s) := by
  intro e he hlate
  exact ((h generation deadline hwait).2 hstop hsame).2 e he (by omega)

end Watch

end Interleaving
