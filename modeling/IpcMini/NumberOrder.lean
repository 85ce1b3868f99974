/-
The lexicographic order of texts that begin with numbers.

Numbers of one width, filled up with zeros, are in the order of their texts.  So
are texts made of such numbers, field by field.

* **`append_lt_append_iff`** — two texts whose beginnings have one length;
* `decimal`, **`decimal_lt_iff`** — numbers of one width;
* **`decimal_append_lt_iff`** — texts that begin with them.
-/
import Mathlib.Algebra.Group.Nat.Defs
import Mathlib.Data.Nat.Notation
import Mathlib.Tactic.Common

namespace NumberOrder

/-- **Beginnings of one length are compared first.** -/
theorem append_lt_append_iff {α : Type*} [LT α] {p q : List α} (s t : List α)
    (h : p.length = q.length) : p ++ s < q ++ t ↔ p < q ∨ p = q ∧ s < t := by
  induction p generalizing q with
  | nil =>
    obtain rfl := List.length_eq_zero_iff.mp h.symm
    simp
  | cons a p ih =>
    cases q with
    | nil => exact absurd h (by simp)
    | cons b q =>
      rw [List.cons_append, List.cons_append, List.cons_lt_cons_iff, List.cons_lt_cons_iff,
        ih (by simpa using h), List.cons.injEq, and_or_left, ← or_assoc, ← and_assoc]

/-! ### Numbers -/

/-- A number in decimal digits, filled up with zeros to the width. -/
def decimal (width n : ℕ) : List Char := List.leftpad width '0' (Nat.toDigits 10 n)

/-- The number fits. -/
theorem length_decimal {width n : ℕ} (hw : 0 < width) (h : n < 10 ^ width) :
    (decimal width n).length = width := by
  rw [decimal, List.length_leftpad]
  exact Nat.max_eq_left ((Nat.length_toDigits_le_iff (by decide) hw).mpr h)

/-- The last digit is that of the units. -/
theorem decimal_succ {width : ℕ} (hw : 0 < width) (n : ℕ) :
    decimal (width + 1) n = decimal width (n / 10) ++ [Nat.digitChar (n % 10)] := by
  rw [decimal, decimal, Nat.toDigits_eq_if (by decide)]
  split
  next hn =>
    -- a single digit: what stands before it are zeros alone
    rw [Nat.div_eq_of_lt hn, Nat.mod_eq_of_lt hn, Nat.toDigits_zero, List.leftpad, List.leftpad]
    obtain ⟨k, rfl⟩ : ∃ k, width = k + 1 := ⟨width - 1, by omega⟩
    simp [List.replicate_succ']
  next hn =>
    rw [List.leftpad, List.leftpad, List.length_append, List.append_assoc]
    simp

theorem digitChar_lt_iff {a b : ℕ} (ha : a < 10) (hb : b < 10) :
    Nat.digitChar a < Nat.digitChar b ↔ a < b := by
  have hall : ∀ a b : Fin 10,
      Nat.digitChar a.1 < Nat.digitChar b.1 ↔ a.1 < b.1 := by decide
  exact hall ⟨a, ha⟩ ⟨b, hb⟩

/-- Texts in the order of their numbers are equal for equal numbers only. -/
theorem eq_iff_of_lt_iff {f : ℕ → List Char} {a b : ℕ} (h : f a < f b ↔ a < b)
    (h' : f b < f a ↔ b < a) : f a = f b ↔ a = b := by
  refine ⟨fun heq => ?_, fun heq => by rw [heq]⟩
  rw [heq] at h h'
  have hirrefl := List.lt_irrefl (f b)
  have h1 := mt h.mpr hirrefl
  have h2 := mt h'.mpr hirrefl
  omega

/-- **Numbers of one width are in the order of their texts.** -/
theorem decimal_lt_iff {width : ℕ} (hw : 0 < width) : ∀ {a b : ℕ}, a < 10 ^ width →
    b < 10 ^ width → (decimal width a < decimal width b ↔ a < b) := by
  induction hw with
  | refl =>
    intro a b ha hb
    rw [decimal, decimal, Nat.toDigits_of_lt_base (by simpa using ha),
      Nat.toDigits_of_lt_base (by simpa using hb)]
    show [Nat.digitChar a] < [Nat.digitChar b] ↔ a < b
    rw [List.cons_lt_cons_iff, digitChar_lt_iff (by simpa using ha) (by simpa using hb)]
    simp
  | @step width hw ih =>
    intro a b ha hb
    have hda : a / 10 < 10 ^ width := by rw [pow_succ] at ha; omega
    have hdb : b / 10 < 10 ^ width := by rw [pow_succ] at hb; omega
    have heq := eq_iff_of_lt_iff (ih hda hdb) (ih hdb hda)
    rw [decimal_succ hw, decimal_succ hw, append_lt_append_iff _ _
      (by rw [length_decimal hw hda, length_decimal hw hdb]), ih hda hdb, heq,
      List.cons_lt_cons_iff, digitChar_lt_iff (by omega) (by omega)]
    have hnil : ¬ ([] : List Char) < [] := List.lt_irrefl _
    simp only [hnil, and_false, or_false]
    omega

theorem decimal_inj {width a b : ℕ} (hw : 0 < width) (ha : a < 10 ^ width)
    (hb : b < 10 ^ width) : decimal width a = decimal width b ↔ a = b :=
  eq_iff_of_lt_iff (decimal_lt_iff hw ha hb) (decimal_lt_iff hw hb ha)

/-- **Texts that begin with numbers of one width are in the order of these**, or
in that of what follows. -/
theorem decimal_append_lt_iff {width a b : ℕ} (hw : 0 < width) (ha : a < 10 ^ width)
    (hb : b < 10 ^ width) (s t : List Char) :
    decimal width a ++ s < decimal width b ++ t ↔ a < b ∨ a = b ∧ s < t := by
  rw [append_lt_append_iff s t (by rw [length_decimal hw ha, length_decimal hw hb]),
    decimal_lt_iff hw ha hb, decimal_inj hw ha hb]

end NumberOrder
