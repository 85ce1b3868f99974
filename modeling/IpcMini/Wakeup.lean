/-
Work behind a wakeup flag.

Threads file work under a mutex and have one task take all of it.  Whoever
files work while the flag is down raises it and owes a task, which is posted
outside of the mutex; a task takes the work and lowers the flag.

* `Mailbox` — what is observed of such a system;
* **`Attended`** — work waits behind a raised flag only, and behind a raised
  flag there is a task, owed or posted;
* `attended_of_filed`, `attended_of_taken`, `attended_of_less` — the steps that
  keep it: filing work, taking all of it, and those that add none.
-/
import Mathlib.Data.Nat.Notation

namespace Interleaving

/-- What is observed of a system with a wakeup flag. -/
structure Mailbox (σ : Type*) where
  /-- there is work that no task has taken -/
  work : σ → Prop
  flag : σ → Bool
  /-- the threads that raised the flag and have not posted their task -/
  owed : σ → ℕ
  /-- the tasks that have not looked for work -/
  posted : σ → ℕ

namespace Mailbox

variable {σ : Type*} {M : Mailbox σ} {s t : σ}

/-- Work waits behind a raised flag, and a raised flag has a task behind it. -/
structure Attended (M : Mailbox σ) (s : σ) : Prop where
  flag_of_work : M.work s → M.flag s = true
  task_of_flag : M.flag s = true → 0 < M.owed s + M.posted s

/-- **No work without a task**, posted or about to be. -/
theorem Attended.task_of_work (h : M.Attended s) (hwork : M.work s) :
    0 < M.posted s ∨ 0 < M.owed s := by
  have htask := h.task_of_flag (h.flag_of_work hwork)
  omega

/-- Filing work: a thread that finds the flag down raises it and owes a task. -/
theorem attended_of_filed (h : M.Attended s) (filed : Bool)
    (hwork : M.work t → M.work s ∨ filed = true) (hflag : M.flag t = (M.flag s || filed))
    (howed : M.owed t = M.owed s + (filed && !M.flag s).toNat)
    (hposted : M.posted t = M.posted s) : M.Attended t := by
  constructor
  · intro hnew
    rw [hflag]
    rcases hwork hnew with hold | hfiled
    · rw [h.flag_of_work hold, Bool.true_or]
    · rw [hfiled, Bool.or_true]
  · intro hup
    rw [howed, hposted]
    cases hs : M.flag s with
    | true =>
      have htask := h.task_of_flag hs
      omega
    | false =>
      -- the flag went up in this step
      obtain rfl : filed = true := by simpa [hflag, hs] using hup
      simp only [Bool.not_false, Bool.and_self, Bool.toNat_true]
      omega

/-- Taking all of the work, or giving it up, and lowering the flag. -/
theorem attended_of_taken (hwork : ¬ M.work t) (hflag : M.flag t = false) : M.Attended t :=
  ⟨fun h => absurd h hwork, fun h => by simp [hflag] at h⟩

/-- A step that files nothing and leaves the flag and the tasks behind it; a
task that was owed may be posted now. -/
theorem attended_of_less (h : M.Attended s) (hwork : M.work t → M.work s)
    (hflag : M.flag t = M.flag s)
    (htasks : M.owed s + M.posted s ≤ M.owed t + M.posted t) : M.Attended t := by
  constructor
  · intro hold
    rw [hflag]
    exact h.flag_of_work (hwork hold)
  · intro hup
    have htask := h.task_of_flag (hflag ▸ hup)
    omega

end Mailbox

end Interleaving
