/-
Contiguous runs of a history that start at a key element.

A consumer that keeps part of a history of elements can decode what it kept
when the part is a contiguous run whose first element is a key element.

* `KeyRun key hist r` — `r` is empty, or a contiguous run of `hist` that
  starts at a key element;
* `OpenRun key hist r` — moreover `r` reaches the end of `hist`, so that the
  next element of the history continues it;
* **`OpenRun.concat`** and `openRun_key` — the two ways to stay open when the
  history grows; `KeyRun.append` — what is closed stays a run;
* `KeyChain key next r` — `r` starts at a key element, and every other element
  is a key element or comes next after the one before it;
* **`KeyChain.concat`**, `KeyChain.of_append`, `KeyChain.exists_prev` — how
  chains grow, are cut off, and are used.
-/
import Mathlib.Data.List.Basic
import Mathlib.Data.List.Chain
import Mathlib.Data.List.Infix

namespace History

variable {α : Type*} {key : α → Bool} {hist r : List α} {a : α}

/-- A contiguous run of the history, empty or starting at a key element. -/
def KeyRun (key : α → Bool) (hist r : List α) : Prop :=
  r <:+: hist ∧ ∀ a ∈ r.head?, key a = true

/-- A key run that reaches the end of the history. -/
def OpenRun (key : α → Bool) (hist r : List α) : Prop :=
  r <:+ hist ∧ ∀ a ∈ r.head?, key a = true

@[simp] theorem keyRun_nil : KeyRun key hist [] := ⟨List.nil_infix, by simp⟩

theorem OpenRun.keyRun (h : OpenRun key hist r) : KeyRun key hist r :=
  ⟨h.1.isInfix, h.2⟩

/-- Runs stay runs when the history grows. -/
theorem KeyRun.append (h : KeyRun key hist r) (more : List α) :
    KeyRun key (hist ++ more) r :=
  ⟨List.infix_append_of_infix_left h.1, h.2⟩

/-- The next element of the history continues a nonempty open run. -/
theorem OpenRun.concat (h : OpenRun key hist r) (hr : r ≠ []) (a : α) :
    OpenRun key (hist ++ [a]) (r ++ [a]) := by
  obtain ⟨pre, rfl⟩ := h.1
  refine ⟨⟨pre, by simp⟩, ?_⟩
  rw [List.head?_append_of_ne_nil _ hr]
  exact h.2

/-- A key element of the history starts an open run of its own. -/
theorem openRun_key (ha : key a = true) : OpenRun key (hist ++ [a]) [a] :=
  ⟨List.suffix_append _ _, by simpa using ha⟩

/-- In a history without repetition a run that ends with the newest element
continues a run that was open before. -/
theorem OpenRun.of_concat (hn : (hist ++ [a]).Nodup)
    (h : KeyRun key (hist ++ [a]) (r ++ [a])) (hr : r ≠ []) : OpenRun key hist r := by
  have hhead : ∀ b ∈ r.head?, key b = true := by
    rw [← List.head?_append_of_ne_nil _ hr]
    exact h.2
  rcases List.infix_concat_iff.mp h.1 with hs | hi
  · obtain ⟨pre, hpre⟩ := hs
    rw [← List.append_assoc] at hpre
    exact ⟨⟨pre, List.append_cancel_right hpre⟩, hhead⟩
  · -- `a` would occur in the history before its own position
    have ha : a ∈ hist := hi.subset (by simp)
    exact absurd ha (by simpa using (List.nodup_append.mp hn).2.2 a)

/-! ### Chains -/

variable {next : α → α → Prop}

/-- A list that starts at a key element and in which every element is a key
element or comes next after the element before it. -/
def KeyChain (key : α → Bool) (next : α → α → Prop) (r : List α) : Prop :=
  (∀ a ∈ r.head?, key a = true) ∧ r.IsChain fun a b => key b = true ∨ next a b

@[simp] theorem keyChain_nil : KeyChain key next [] := ⟨by simp, .nil⟩

theorem KeyChain.of_append {more : List α} (h : KeyChain key next (r ++ more)) :
    KeyChain key next r := by
  refine ⟨fun a ha => h.1 a ?_, h.2.left_of_append⟩
  rw [List.head?_append_of_ne_nil _ (List.ne_nil_of_mem (List.mem_of_mem_head? ha))]
  exact ha

/-- A chain grows by a key element, and by what comes next after its end. -/
theorem KeyChain.concat (h : KeyChain key next r)
    (ha : key a = true ∨ ∃ b ∈ r.getLast?, next b a) : KeyChain key next (r ++ [a]) := by
  rcases List.eq_nil_or_concat r with rfl | ⟨pre, b, rfl⟩
  · have : key a = true := ha.resolve_right (by simp)
    exact ⟨by simpa using this, .singleton a⟩
  · rw [List.concat_eq_append] at h ha ⊢
    refine ⟨?_, h.2.append (.singleton a) ?_⟩
    · rw [List.head?_append_of_ne_nil _ (by simp)]
      exact h.1
    · intro x hx y hy
      obtain rfl : b = x := by simpa using hx
      obtain rfl : a = y := by simpa using hy
      exact ha.imp_right fun ⟨c, hc, hn⟩ => by
        obtain rfl : b = c := by simpa using hc
        exact hn

/-- What is no key element comes next after some element of the chain. -/
theorem KeyChain.exists_prev (h : KeyChain key next r) (ha : a ∈ r) (hk : key a = false) :
    ∃ b ∈ r, next b a := by
  obtain ⟨pre, post, rfl⟩ := List.append_of_mem ha
  rcases List.eq_nil_or_concat pre with rfl | ⟨pre, b, rfl⟩
  · exact absurd (h.1 a (by simp)) (by simp [hk])
  · rw [List.concat_eq_append] at h ⊢
    refine ⟨b, by simp, ?_⟩
    have hrel := (List.isChain_append.mp h.2).2.2 b (by simp) a (by simp)
    exact hrel.resolve_left (by simp [hk])

end History
