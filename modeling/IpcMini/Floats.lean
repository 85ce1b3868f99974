/-
Binary floating-point numbers.

A format has numbers of so many significant bits, whose last bit is not below a least
power of two.  An operation rounds its exact result to the nearest number of the format,
to the even one of two, and is infinite beyond the largest.  Zero has no sign here, and is
taken for the positive one in a quotient.

* `roundHalfEven`, **`abs_roundHalfEven_sub_le`** — the nearest whole number;
* `Format`, `nearest` — the nearest number of a format;
* **`abs_nearest_sub_le`**, `abs_binary64_sub_le` — how far it is off;
* `Floating` — the numbers, with their arithmetic and order.
-/
import Mathlib.Algebra.Order.Field.Power
import Mathlib.Data.Int.Log
import Mathlib.Data.Rat.Floor
import Mathlib.Tactic.FieldSimp
import Mathlib.Tactic.Linarith
import Mathlib.Tactic.Positivity
import Mathlib.Tactic.Ring

namespace Floats

/-! ### Rounding -/

/-- The nearest whole number, the even one of two. -/
def roundHalfEven (q : ℚ) : ℤ :=
  let n := ⌊q⌋
  let rest := q - n
  if rest < 1 / 2 ∨ rest = 1 / 2 ∧ n % 2 = 0 then n else n + 1

/-- **A whole number is off by a half** at most. -/
theorem abs_roundHalfEven_sub_le (q : ℚ) : |(roundHalfEven q : ℚ) - q| ≤ 1 / 2 := by
  have hle : (⌊q⌋ : ℚ) ≤ q := Int.floor_le q
  have hlt : q < ⌊q⌋ + 1 := Int.lt_floor_add_one q
  simp only [roundHalfEven]
  rw [abs_le]
  split
  case isTrue h =>
    rcases h with h | ⟨h, -⟩
    · exact ⟨by linarith, by linarith⟩
    · exact ⟨by linarith, by linarith⟩
  case isFalse h =>
    rw [not_or, not_lt] at h
    push_cast
    exact ⟨by linarith [h.1], by linarith [h.1]⟩

theorem roundHalfEven_nonneg {q : ℚ} (h : 0 ≤ q) : 0 ≤ roundHalfEven q := by
  have hfloor : 0 ≤ ⌊q⌋ := Int.floor_nonneg.mpr h
  simp only [roundHalfEven]
  split <;> omega

/-- The significant bits, the power of two of the last bit of the smallest numbers, and
the one that is above all numbers. -/
structure Format where
  precision : ℕ
  minExp : ℤ
  maxExp : ℤ

/-- `float` -/
def binary32 : Format := ⟨24, -149, 128⟩

/-- `double` -/
def binary64 : Format := ⟨53, -1074, 1024⟩

namespace Format

variable (f : Format)

/-- The power of two of the last bit of the numbers about `q`. -/
def lastBit (q : ℚ) : ℤ := max (Int.log 2 |q| + 1 - f.precision) f.minExp

/-- The nearest number, without an upper bound. -/
def nearest (q : ℚ) : ℚ := roundHalfEven (q / 2 ^ f.lastBit q) * 2 ^ f.lastBit q

@[simp] theorem nearest_zero : f.nearest 0 = 0 := by
  simp [nearest, roundHalfEven]

/-- A number is off by half of the last bit at most. -/
theorem abs_nearest_sub_le_lastBit (q : ℚ) : |f.nearest q - q| ≤ 2 ^ f.lastBit q / 2 := by
  have hpos : (0 : ℚ) < 2 ^ f.lastBit q := by positivity
  have hround := abs_roundHalfEven_sub_le (q / 2 ^ f.lastBit q)
  have hscale : f.nearest q - q =
      (roundHalfEven (q / 2 ^ f.lastBit q) - q / 2 ^ f.lastBit q) * 2 ^ f.lastBit q := by
    rw [sub_mul, div_mul_cancel₀ _ hpos.ne', nearest]
  calc |f.nearest q - q|
      = |roundHalfEven (q / 2 ^ f.lastBit q) - q / 2 ^ f.lastBit q| * 2 ^ f.lastBit q := by
        rw [hscale, abs_mul, abs_of_pos hpos]
    _ ≤ 1 / 2 * 2 ^ f.lastBit q := mul_le_mul_of_nonneg_right hround hpos.le
    _ = 2 ^ f.lastBit q / 2 := by ring

/-- **A number is off** by half a unit of its last bit at most, or by half of the last bit
of the smallest numbers. -/
theorem abs_nearest_sub_le (q : ℚ) :
    |f.nearest q - q| ≤ |q| / 2 ^ f.precision + 2 ^ f.minExp / 2 := by
  have hmin : (0 : ℚ) < 2 ^ f.minExp / 2 := by positivity
  have hrel : 0 ≤ |q| / 2 ^ f.precision := by positivity
  rcases eq_or_ne q 0 with rfl | hq
  · simpa using hmin.le
  refine (f.abs_nearest_sub_le_lastBit q).trans ?_
  rw [lastBit]
  rcases le_total (Int.log 2 |q| + 1 - f.precision) f.minExp with hle | hle
  · rw [max_eq_right hle]
    linarith
  · -- the last bit is that of the leading one, so many bits further down
    rw [max_eq_left hle]
    have hlog : (2 : ℚ) ^ Int.log 2 |q| ≤ |q| :=
      Int.zpow_log_le_self (by decide) (abs_pos.mpr hq)
    have hunit : (2 : ℚ) ^ (Int.log 2 |q| + 1 - f.precision) / 2 =
        2 ^ Int.log 2 |q| / 2 ^ f.precision := by
      rw [zpow_sub₀ two_ne_zero, zpow_add₀ two_ne_zero, zpow_natCast, zpow_one]
      field_simp
    have hdiv := div_le_div_of_nonneg_right hlog (show (0 : ℚ) ≤ 2 ^ f.precision by positivity)
    rw [hunit]
    linarith

end Format

/-- The error of a double, with room for the smallest numbers. -/
theorem abs_binary64_sub_le (q : ℚ) : |binary64.nearest q - q| ≤ (|q| + 1) / 2 ^ 53 := by
  have herror : |binary64.nearest q - q| ≤ |q| / 2 ^ 53 + 2 ^ (-1074 : ℤ) / 2 :=
    binary64.abs_nearest_sub_le q
  have hleast : (2 : ℚ) ^ (-1074 : ℤ) ≤ 1 / 2 ^ 53 := by
    calc (2 : ℚ) ^ (-1074 : ℤ)
        ≤ 2 ^ (-53 : ℤ) := zpow_le_zpow_right₀ one_le_two (by decide)
      _ = 1 / 2 ^ 53 := by norm_num
  have hpos : (0 : ℚ) < 2 ^ (-1074 : ℤ) := by positivity
  generalize (2 : ℚ) ^ (-1074 : ℤ) = least at *
  rw [add_div]
  linarith

/-! ### Numbers -/

/-- A number of a format. -/
inductive Floating (f : Format)
  | finite (value : ℚ)
  | infinite (negative : Bool)
  | nan
  deriving DecidableEq, Repr

namespace Floating

variable {f : Format}

/-- The exact number rounded. -/
def round (f : Format) (q : ℚ) : Floating f :=
  if |f.nearest q| < 2 ^ f.maxExp then finite (f.nearest q) else infinite (decide (q < 0))

/-- `std::isfinite`, with the number. -/
def value : Floating f → Option ℚ
  | finite q => some q
  | _ => none

theorem value_eq_some {a : Floating f} {q : ℚ} : a.value = some q ↔ a = finite q := by
  cases a <;> simp [value]

protected def neg : Floating f → Floating f
  | finite a => finite (-a)
  | infinite negative => infinite (!negative)
  | nan => nan

protected def add : Floating f → Floating f → Floating f
  | finite a, finite b => round f (a + b)
  | finite _, infinite negative => infinite negative
  | infinite negative, finite _ => infinite negative
  | infinite negative, infinite negative' => if negative = negative' then infinite negative else nan
  | _, _ => nan

protected def mul : Floating f → Floating f → Floating f
  | finite a, finite b => round f (a * b)
  | finite a, infinite negative => if a = 0 then nan else infinite (negative ^^ decide (a < 0))
  | infinite negative, finite b => if b = 0 then nan else infinite (negative ^^ decide (b < 0))
  | infinite negative, infinite negative' => infinite (negative ^^ negative')
  | _, _ => nan

protected def div : Floating f → Floating f → Floating f
  | finite a, finite b =>
    if b ≠ 0 then round f (a / b) else if a = 0 then nan else infinite (decide (a < 0))
  | finite _, infinite _ => finite 0
  | infinite negative, finite b => infinite (negative ^^ decide (b < 0))
  | _, _ => nan

protected def lt : Floating f → Floating f → Bool
  | finite a, finite b => decide (a < b)
  | finite _, infinite negative => !negative
  | infinite negative, finite _ => negative
  | infinite negative, infinite negative' => negative && !negative'
  | _, _ => false

instance (n : ℕ) [OfNat ℚ n] : OfNat (Floating f) n := ⟨finite (OfNat.ofNat n)⟩
instance : Add (Floating f) := ⟨Floating.add⟩
instance : Sub (Floating f) := ⟨fun a b => a.add b.neg⟩
instance : Mul (Floating f) := ⟨Floating.mul⟩
instance : Div (Floating f) := ⟨Floating.div⟩
instance : LT (Floating f) := ⟨fun a b => a.lt b = true⟩
instance : DecidableLT (Floating f) := fun a b => inferInstanceAs (Decidable (a.lt b = true))

/-- `std::max` -/
protected def max (a b : Floating f) : Floating f := if a < b then b else a

/-- `std::min` -/
protected def min (a b : Floating f) : Floating f := if b < a then b else a

protected theorem add_comm (a b : Floating f) : a + b = b + a := by
  show a.add b = b.add a
  cases a <;> cases b <;> simp only [Floating.add]
  case finite.finite a b => rw [add_comm]
  case infinite.infinite a b => cases a <;> cases b <;> rfl

end Floating

end Floats
