/-
Slots that are handed out to holders and given back.

A pool of slots has a flag for each, and the first that is free is handed out.  Holders keep
the number of the slot that they have.

* `firstFree` — the slot that is handed out next;
* `Held` — the flags are those of the slots that are held, and none is held twice;
* `held_none`, **`held_take`**, **`held_give`** — at first, and after a slot is taken or given
  back.
-/
import Mathlib.Data.List.Range
import Mathlib.Logic.Function.Basic
import Mathlib.Tactic.Common

namespace Slots

/-- The number of the first slot that is free. -/
def firstFree (size : ℕ) (used : ℕ → Bool) : Option ℕ :=
  (List.range size).find? fun n => !used n

section FirstFree

variable {size n : ℕ} {used : ℕ → Bool}

theorem firstFree_some (h : firstFree size used = some n) : n < size ∧ used n = false :=
  ⟨List.mem_range.mp (List.mem_of_find?_eq_some h), by simpa using List.find?_some h⟩

end FirstFree

variable {κ : Type*} {used : ℕ → Bool} {holds : κ → Option ℕ}

/-- A flag is set exactly if its slot is held, and no slot is held twice. -/
structure Held (used : ℕ → Bool) (holds : κ → Option ℕ) : Prop where
  used_iff : ∀ n, used n = true ↔ ∃ k, holds k = some n
  unique : ∀ k l n, holds k = some n → holds l = some n → k = l

theorem held_none : Held (fun _ => false) fun _ : κ => none :=
  ⟨fun n => ⟨fun h => (by cases h), fun ⟨_, h⟩ => (by cases h)⟩, fun _ _ _ h => (by cases h)⟩

theorem Held.not_held (h : Held used holds) {n : ℕ} (hfree : used n = false) (k : κ) :
    holds k ≠ some n := by
  intro hk
  rw [(h.used_iff n).mpr ⟨k, hk⟩] at hfree
  cases hfree

variable [DecidableEq κ] {k : κ} {n : ℕ}

/-- **A free slot is taken** by one that has none. -/
theorem held_take (h : Held used holds) (hnone : holds k = none) (hfree : used n = false) :
    Held (Function.update used n true) (Function.update holds k (some n)) where
  used_iff m := by
    rcases eq_or_ne m n with rfl | hne
    · rw [Function.update_self]
      exact ⟨fun _ => ⟨k, Function.update_self ..⟩, fun _ => rfl⟩
    · rw [Function.update_of_ne hne, h.used_iff m]
      constructor
      · rintro ⟨l, hl⟩
        have hlk : l ≠ k := fun heq => by rw [heq, hnone] at hl; cases hl
        exact ⟨l, by rw [Function.update_of_ne hlk, hl]⟩
      · rintro ⟨l, hl⟩
        rcases eq_or_ne l k with rfl | hlk
        · rw [Function.update_self] at hl
          exact absurd (Option.some.inj hl).symm hne
        · rw [Function.update_of_ne hlk] at hl
          exact ⟨l, hl⟩
  unique i j m hi hj := by
    have hother := h.not_held hfree
    by_cases hik : i = k <;> by_cases hjk : j = k
    · exact hik.trans hjk.symm
    · rw [hik, Function.update_self] at hi
      rw [Function.update_of_ne hjk, ← Option.some.inj hi] at hj
      exact absurd hj (hother j)
    · rw [hjk, Function.update_self] at hj
      rw [Function.update_of_ne hik, ← Option.some.inj hj] at hi
      exact absurd hi (hother i)
    · rw [Function.update_of_ne hik] at hi
      rw [Function.update_of_ne hjk] at hj
      exact h.unique i j m hi hj

/-- **A slot is given back** by the one that has it. -/
theorem held_give (h : Held used holds) (hk : holds k = some n) :
    Held (Function.update used n false) (Function.update holds k none) where
  used_iff m := by
    rcases eq_or_ne m n with rfl | hne
    · rw [Function.update_self]
      refine ⟨fun hfalse => (by cases hfalse), ?_⟩
      rintro ⟨l, hl⟩
      rcases eq_or_ne l k with rfl | hlk
      · rw [Function.update_self] at hl
        cases hl
      · rw [Function.update_of_ne hlk] at hl
        exact absurd (h.unique l k m hl hk) hlk
    · rw [Function.update_of_ne hne, h.used_iff m]
      constructor
      · rintro ⟨l, hl⟩
        have hlk : l ≠ k := fun heq => by
          rw [heq, hk] at hl
          exact hne (Option.some.inj hl).symm
        exact ⟨l, by rw [Function.update_of_ne hlk, hl]⟩
      · rintro ⟨l, hl⟩
        rcases eq_or_ne l k with rfl | hlk
        · rw [Function.update_self] at hl
          cases hl
        · rw [Function.update_of_ne hlk] at hl
          exact ⟨l, hl⟩
  unique i j m hi hj := by
    rcases eq_or_ne i k with rfl | hik
    · rw [Function.update_self] at hi
      cases hi
    rcases eq_or_ne j k with rfl | hjk
    · rw [Function.update_self] at hj
      cases hj
    rw [Function.update_of_ne hik] at hi
    rw [Function.update_of_ne hjk] at hj
    exact h.unique i j m hi hj

end Slots
