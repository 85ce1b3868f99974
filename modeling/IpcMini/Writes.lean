/-
Memory that is written address by address.

* `apply` performs a list of writes in order, `Written` says that one of them goes to
  an address;
* `apply_frame`, `apply_written` — an address keeps its value if it is not written, and
  loses it if it is;
* `apply_flatMap_single`, `apply_range` — a loop of which one round writes to the address;
* **`apply_absorbed_iff`** — when writes in between leave no trace.
-/
import Mathlib.Data.List.Flatten
import Mathlib.Data.Nat.Notation
import Mathlib.Logic.Function.Basic

namespace Writes

variable {α β ι : Type*} [DecidableEq α]

/-- Perform the writes one after the other. -/
def apply (ws : List (α × β)) (m : α → β) : α → β :=
  ws.foldl (fun m w => Function.update m w.1 w.2) m

/-- One of the writes goes to the address. -/
def Written (ws : List (α × β)) (a : α) : Prop := ∃ b, (a, b) ∈ ws

@[simp] theorem apply_nil (m : α → β) : apply [] m = m := rfl

@[simp] theorem apply_cons (w : α × β) (ws : List (α × β)) (m : α → β) :
    apply (w :: ws) m = apply ws (Function.update m w.1 w.2) := rfl

theorem apply_append (vs ws : List (α × β)) (m : α → β) :
    apply (vs ++ ws) m = apply ws (apply vs m) := List.foldl_append

omit [DecidableEq α] in
@[simp] theorem written_cons {w : α × β} {ws : List (α × β)} {a : α} :
    Written (w :: ws) a ↔ a = w.1 ∨ Written ws a := by
  constructor
  · rintro ⟨b, hb⟩
    rcases List.mem_cons.mp hb with heq | hb
    · exact .inl (congrArg Prod.fst heq)
    · exact .inr ⟨b, hb⟩
  · rintro (rfl | ⟨b, hb⟩)
    · exact ⟨w.2, List.mem_cons_self⟩
    · exact ⟨b, List.mem_cons_of_mem _ hb⟩

omit [DecidableEq α] in
@[simp] theorem not_written_nil {a : α} : ¬Written ([] : List (α × β)) a := by
  rintro ⟨b, hb⟩
  exact List.not_mem_nil hb

omit [DecidableEq α] in
theorem written_flatMap {is : List ι} {f : ι → List (α × β)} {a : α} :
    Written (is.flatMap f) a ↔ ∃ i ∈ is, Written (f i) a := by
  constructor
  · rintro ⟨b, hb⟩
    obtain ⟨i, hi, hb⟩ := List.mem_flatMap.mp hb
    exact ⟨i, hi, b, hb⟩
  · rintro ⟨i, hi, b, hb⟩
    exact ⟨b, List.mem_flatMap.mpr ⟨i, hi, hb⟩⟩

theorem apply_frame {ws : List (α × β)} {m : α → β} {a : α} (h : ¬Written ws a) :
    apply ws m a = m a := by
  induction ws generalizing m with
  | nil => rfl
  | cons w ws ih =>
    rw [written_cons, not_or] at h
    rw [apply_cons, ih h.2, Function.update_of_ne h.1]

/-- What was at a written address before does not matter. -/
theorem apply_written {ws : List (α × β)} {a : α} (h : Written ws a) (m m' : α → β) :
    apply ws m a = apply ws m' a := by
  induction ws generalizing m m' with
  | nil => exact absurd h not_written_nil
  | cons w ws ih =>
    by_cases hlater : Written ws a
    · exact ih hlater _ _
    · -- the first write is the last one to the address
      obtain rfl : a = w.1 := (written_cons.mp h).resolve_right hlater
      rw [apply_cons, apply_cons, apply_frame hlater, apply_frame hlater,
        Function.update_self, Function.update_self]

/-- Of a loop only the rounds that write to an address matter to it. -/
theorem apply_flatMap_single {is : List ι} (hnodup : is.Nodup) {f : ι → List (α × β)} {i : ι}
    (hi : i ∈ is) {a : α} (hothers : ∀ k ∈ is, k ≠ i → ¬Written (f k) a) (m : α → β) :
    apply (is.flatMap f) m a = apply (f i) m a := by
  induction is generalizing m with
  | nil => exact absurd hi List.not_mem_nil
  | cons k is ih =>
    obtain ⟨hk, hnodup⟩ := List.nodup_cons.mp hnodup
    rw [List.flatMap_cons, apply_append]
    rcases List.mem_cons.mp hi with rfl | hi
    · -- the later rounds do not write there
      refine apply_frame fun hwritten => ?_
      obtain ⟨l, hl, hwritten⟩ := written_flatMap.mp hwritten
      refine hothers l (List.mem_cons_of_mem _ hl) ?_ hwritten
      rintro rfl
      exact hk hl
    · have hne : k ≠ i := fun heq => hk (heq ▸ hi)
      rw [ih hnodup hi fun l hl => hothers l (List.mem_cons_of_mem _ hl)]
      by_cases hwritten : Written (f i) a
      · exact apply_written hwritten _ _
      · rw [apply_frame hwritten, apply_frame hwritten]
        exact apply_frame (hothers k List.mem_cons_self hne)

/-- A run of addresses written from `a` on. -/
theorem apply_range (a n : ℕ) (f : ℕ → β) (m : ℕ → β) (i : ℕ) :
    apply ((List.range n).map fun k => (a + k, f k)) m i =
      if a ≤ i ∧ i < a + n then f (i - a) else m i := by
  induction n with
  | zero =>
    rw [if_neg (by omega)]
    rfl
  | succ n ih =>
    rw [List.range_succ, List.map_append, apply_append, List.map_singleton, apply_cons, apply_nil]
    rcases Nat.lt_trichotomy i (a + n) with hlt | rfl | hgt
    · rw [Function.update_of_ne (by omega), ih]
      by_cases ha : a ≤ i
      · rw [if_pos ⟨ha, hlt⟩, if_pos ⟨ha, by omega⟩]
      · rw [if_neg (by omega), if_neg (by omega)]
    · rw [Function.update_self, if_pos ⟨by omega, by omega⟩, Nat.add_sub_cancel_left]
    · rw [Function.update_of_ne (by omega), ih, if_neg (by omega), if_neg (by omega)]

/-- **Writes are absorbed** by later ones if and only if they change nothing at the
addresses that the later ones leave alone. -/
theorem apply_absorbed_iff (vs ws : List (α × β)) (m : α → β) :
    apply ws (apply vs m) = apply ws m ↔
      ∀ a, Written vs a → ¬Written ws a → apply vs m a = m a := by
  constructor
  · intro heq a _ hws
    have ha := congrFun heq a
    rwa [apply_frame hws, apply_frame hws] at ha
  · intro h
    funext a
    by_cases hws : Written ws a
    · exact apply_written hws _ _
    · rw [apply_frame hws, apply_frame hws]
      by_cases hvs : Written vs a
      · exact h a hvs hws
      · exact apply_frame hvs

end Writes
