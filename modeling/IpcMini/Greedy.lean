/-
Greedy selection from a list.

The elements are offered one after the other; one is taken unless it clashes with
one that was taken before.

* `offer`, `select` — one element, and a list of them;
* `select_keeps`, `select_sublist` — what was taken stays, in the order offered;
* **`select_pairwise`** — no two of the elements taken clash;
* **`select_covers`** — one that is not taken clashes with one taken before it;
* `select_of_pairwise` — where nothing clashes all are taken.
-/
import Mathlib.Data.List.Basic

namespace IpcMini

namespace Greedy

variable {α β : Type*} (clash : α → α → Bool)

/-- An element is taken unless it clashes with one of the `taken`. -/
def offer (taken : List α) (a : α) : List α :=
  if taken.any (clash a) then taken else taken ++ [a]

/-- The elements of a list are offered in their order. -/
def select (taken offered : List α) : List α := offered.foldl (offer clash) taken

@[simp] theorem select_nil (taken : List α) : select clash taken [] = taken := rfl

theorem select_cons (taken : List α) (a : α) (offered : List α) :
    select clash taken (a :: offered) = select clash (offer clash taken a) offered := rfl

theorem select_append (taken before after : List α) :
    select clash taken (before ++ after) = select clash (select clash taken before) after :=
  List.foldl_append

theorem offer_cases (taken : List α) (a : α) :
    (∃ b ∈ taken, clash a b = true) ∧ offer clash taken a = taken ∨
      (∀ b ∈ taken, clash a b = false) ∧ offer clash taken a = taken ++ [a] := by
  by_cases h : taken.any (clash a) = true
  · exact .inl ⟨List.any_eq_true.mp h, if_pos h⟩
  · refine .inr ⟨?_, if_neg h⟩
    intro b hb
    by_contra hclash
    exact h (List.any_eq_true.mpr ⟨b, hb, by simpa using hclash⟩)

variable {clash}

theorem offer_keeps (taken : List α) (a : α) : taken <+: offer clash taken a := by
  rcases offer_cases clash taken a with ⟨-, h⟩ | ⟨-, h⟩
  · exact h.symm ▸ List.prefix_rfl
  · rw [h]
    exact List.prefix_append _ _

/-- What has been taken is not given back. -/
theorem select_keeps (taken offered : List α) : taken <+: select clash taken offered := by
  induction offered generalizing taken with
  | nil => exact List.prefix_rfl
  | cons a offered ih => exact (offer_keeps taken a).trans (ih _)

/-- What is taken was taken before or is offered, in this order. -/
theorem select_sublist (taken offered : List α) :
    (select clash taken offered).Sublist (taken ++ offered) := by
  induction offered generalizing taken with
  | nil => simp
  | cons a offered ih =>
    refine (ih (offer clash taken a)).trans ?_
    rcases offer_cases clash taken a with ⟨-, h⟩ | ⟨-, h⟩
    · rw [h]
      exact List.Sublist.append_left (List.sublist_cons_self a offered) taken
    · rw [h, List.append_assoc]
      exact List.Sublist.refl _

/-- **No two of the elements taken clash.** -/
theorem select_pairwise {taken : List α} (offered : List α)
    (h : taken.Pairwise fun b a => clash a b = false) :
    (select clash taken offered).Pairwise fun b a => clash a b = false := by
  induction offered generalizing taken with
  | nil => exact h
  | cons a offered ih =>
    refine ih ?_
    rcases offer_cases clash taken a with ⟨-, hstep⟩ | ⟨hfree, hstep⟩
    · rwa [hstep]
    · rw [hstep, List.pairwise_append]
      refine ⟨h, List.pairwise_singleton _ _, ?_⟩
      intro b hb c hc
      rw [List.mem_singleton.mp hc]
      exact hfree b hb

/-- **An element that is not taken clashes** with one that was taken before it. -/
theorem select_covers (taken before : List α) (a : α) (after : List α) :
    a ∈ select clash taken (before ++ a :: after) ∨
      ∃ b ∈ select clash taken before, clash a b = true := by
  rcases offer_cases clash (select clash taken before) a with ⟨hclash, -⟩ | ⟨-, h⟩
  · exact .inr hclash
  · left
    rw [select_append, select_cons, h]
    exact (select_keeps _ after).subset (by simp)

/-- Where nothing clashes everything is taken. -/
theorem select_of_pairwise {taken offered : List α}
    (h : (taken ++ offered).Pairwise fun b a => clash a b = false) :
    select clash taken offered = taken ++ offered := by
  induction offered generalizing taken with
  | nil => simp
  | cons a offered ih =>
    have hfree : ∀ b ∈ taken, clash a b = false := fun b hb =>
      (List.pairwise_append.mp h).2.2 b hb a List.mem_cons_self
    have hoffer : offer clash taken a = taken ++ [a] := by
      refine if_neg ?_
      rw [List.any_eq_true]
      rintro ⟨b, hb, hclash⟩
      rw [hfree b hb] at hclash
      cases hclash
    rw [select_cons, hoffer, ih (by simpa using h), List.append_assoc]
    rfl

/-- Selecting again takes all that was taken. -/
theorem select_select (offered : List α) :
    select clash [] (select clash [] offered) = select clash [] offered := by
  have hfree : ([] ++ select clash [] offered).Pairwise fun b a => clash a b = false :=
    select_pairwise offered .nil
  exact select_of_pairwise hfree

end Greedy

end IpcMini
