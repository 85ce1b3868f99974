/-
Numbers in decimal notation, read from the front of a text.

* `whole` — the digits at the front; `number` — with the digits behind a point;
* `whole_digits`, `whole_leftpad` — a number that was printed is read back;
* **`number_point`** — and so is one with a fixed number of decimals.
-/
import Mathlib.Algebra.Order.Field.Rat
import Mathlib.Data.Nat.Notation
import Mathlib.Tactic.Common

namespace Decimals

/-- The number that the digits at the front stand for. -/
def whole (text : List Char) : ℕ := Nat.ofDigitChars 10 (text.takeWhile Char.isDigit) 0

/-- The number at the front, with its decimals. -/
def number (text : List Char) : ℚ :=
  match text.dropWhile Char.isDigit with
  | '.' :: rest =>
    whole text + (whole rest : ℚ) / 10 ^ (rest.takeWhile Char.isDigit).length
  | _ => whole text

variable {digits rest : List Char}

theorem takeWhile_digits (h : ∀ c ∈ digits, c.isDigit = true)
    (hrest : ∀ c ∈ rest.head?, c.isDigit = false) :
    (digits ++ rest).takeWhile Char.isDigit = digits := by
  rw [List.takeWhile_append_of_pos h]
  cases rest with
  | nil => exact List.append_nil _
  | cons c rest =>
    rw [List.takeWhile_cons_of_neg (by simp [hrest c rfl]), List.append_nil]

theorem dropWhile_digits (h : ∀ c ∈ digits, c.isDigit = true)
    (hrest : ∀ c ∈ rest.head?, c.isDigit = false) :
    (digits ++ rest).dropWhile Char.isDigit = rest := by
  rw [List.dropWhile_append_of_pos h]
  cases rest with
  | nil => rfl
  | cons c rest => exact List.dropWhile_cons_of_neg (by simp [hrest c rfl])

theorem isDigit_toDigits {n : ℕ} : ∀ c ∈ Nat.toDigits 10 n, c.isDigit = true :=
  fun _ hc => Nat.isDigit_of_mem_toDigits (by decide) (by decide) hc

/-- A number that was printed is read back. -/
theorem whole_digits (n : ℕ) (hrest : ∀ c ∈ rest.head?, c.isDigit = false) :
    whole (Nat.toDigits 10 n ++ rest) = n := by
  rw [whole, takeWhile_digits isDigit_toDigits hrest]
  exact Nat.ofDigitChars_ten_toDigits

theorem isDigit_leftpad {width n : ℕ} :
    ∀ c ∈ List.leftpad width '0' (Nat.toDigits 10 n), c.isDigit = true := by
  intro c hc
  rw [List.leftpad] at hc
  rcases List.mem_append.mp hc with hc | hc
  · obtain rfl := List.eq_of_mem_replicate hc
    rfl
  · exact isDigit_toDigits c hc

/-- Zeros in front do not count. -/
theorem whole_leftpad (width n : ℕ) (hrest : ∀ c ∈ rest.head?, c.isDigit = false) :
    whole (List.leftpad width '0' (Nat.toDigits 10 n) ++ rest) = n := by
  rw [whole, takeWhile_digits isDigit_leftpad hrest, List.leftpad, Nat.ofDigitChars_append,
    Nat.ofDigitChars_replicate_zero, Nat.mul_zero]
  exact Nat.ofDigitChars_ten_toDigits

theorem length_leftpad {width n : ℕ} (h : n < 10 ^ width) (hwidth : 0 < width) :
    (List.leftpad width '0' (Nat.toDigits 10 n)).length = width := by
  rw [List.length_leftpad]
  exact max_eq_left ((Nat.length_toDigits_le_iff (by decide) hwidth).mpr h)

/-- **A number with a fixed number of decimals is read back.** -/
theorem number_point (padding : ℕ) {width n : ℕ} (m : ℕ) (h : n < 10 ^ width) (hwidth : 0 < width)
    (hrest : ∀ c ∈ rest.head?, c.isDigit = false) :
    number (List.leftpad padding '0' (Nat.toDigits 10 m) ++
        '.' :: (List.leftpad width '0' (Nat.toDigits 10 n) ++ rest)) =
      m + (n : ℚ) / 10 ^ width := by
  have hpoint : ∀ c ∈ ('.' :: (List.leftpad width '0' (Nat.toDigits 10 n) ++ rest)).head?,
      c.isDigit = false := by
    rintro c ⟨⟩
    rfl
  rw [number, dropWhile_digits isDigit_leftpad hpoint]
  rw [whole_leftpad padding m hpoint]
  show (m : ℚ) + (whole (List.leftpad width '0' (Nat.toDigits 10 n) ++ rest) : ℚ) /
    10 ^ ((List.leftpad width '0' (Nat.toDigits 10 n) ++ rest).takeWhile Char.isDigit).length = _
  rw [whole_leftpad width n hrest, takeWhile_digits isDigit_leftpad hrest, length_leftpad h hwidth]

end Decimals
