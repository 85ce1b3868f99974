/-
Copies into buffers.

A buffer is a list that is written in place.  `memcpy` puts a source over the
part that starts at an offset, `resize` cuts a buffer off or fills it up, and
`window` is the part of a given size at an offset.

* `memcpy_append` — two copies, one behind the other, are one copy;
* `window_append`, `window_eq_map` — the middle one of three parts, and a part byte by byte;
* `getD_memcpy`, `getD_resize` — what stands at an offset;
* `ldiff_mask` — an offset rounded down to a power of two.
-/
import Mathlib.Data.List.Basic
import Mathlib.Data.Nat.Bitwise

namespace Buffers

variable {α : Type*}

def memcpy (buf : List α) (offset : ℕ) (src : List α) : List α :=
  buf.take offset ++ (src ++ buf.drop (offset + src.length))

def resize (fill : α) (buf : List α) (n : ℕ) : List α :=
  buf.take n ++ List.replicate (n - buf.length) fill

def window (buf : List α) (offset size : ℕ) : List α := (buf.drop offset).take size

theorem length_memcpy {buf src : List α} {offset : ℕ} (h : offset + src.length ≤ buf.length) :
    (memcpy buf offset src).length = buf.length := by
  simp only [memcpy, List.length_append, List.length_take, List.length_drop]
  omega

@[simp] theorem memcpy_nil (buf : List α) (offset : ℕ) : memcpy buf offset [] = buf := by
  simp [memcpy]

/-- A source that is as long as the buffer replaces it. -/
theorem memcpy_all {buf src : List α} (h : src.length = buf.length) : memcpy buf 0 src = src := by
  simp [memcpy, h]

/-- A copy right behind another one. -/
theorem memcpy_append {buf : List α} {offset : ℕ} (h : offset ≤ buf.length) (xs ys : List α) :
    memcpy (memcpy buf offset xs) (offset + xs.length) ys = memcpy buf offset (xs ++ ys) := by
  have hlen : (buf.take offset).length = offset := by
    rw [List.length_take]
    omega
  have htake : (memcpy buf offset xs).take (offset + xs.length) = buf.take offset ++ xs := by
    rw [memcpy, ← List.append_assoc]
    exact List.take_left' (by rw [List.length_append, hlen])
  have hdrop : (memcpy buf offset xs).drop (offset + xs.length + ys.length) =
      buf.drop (offset + (xs ++ ys).length) := by
    have hmiddle : (memcpy buf offset xs).drop (offset + xs.length) =
        buf.drop (offset + xs.length) := by
      rw [memcpy, ← List.append_assoc]
      exact List.drop_left' (by rw [List.length_append, hlen])
    rw [← List.drop_drop, hmiddle, List.drop_drop, List.length_append, Nat.add_assoc]
  rw [memcpy, htake, hdrop, memcpy, List.append_assoc, List.append_assoc]

/-- The part in the middle. -/
theorem window_append (xs ys zs : List α) :
    window (xs ++ (ys ++ zs)) xs.length ys.length = ys := by
  rw [window, List.drop_left, List.take_left]

theorem length_resize (fill : α) (buf : List α) (n : ℕ) : (resize fill buf n).length = n := by
  simp only [resize, List.length_append, List.length_take, List.length_replicate]
  omega

/-- A part that is in the buffer, byte by byte. -/
theorem window_eq_map {buf : List α} {offset size : ℕ} (h : size ≤ buf.length - offset) (d : α) :
    window buf offset size = (List.range size).map fun k => buf.getD (offset + k) d := by
  refine List.ext_getElem ?_ fun k hk hk' => ?_
  · simp only [window, List.length_take, List.length_drop, List.length_map, List.length_range]
    omega
  · have hlt : k < size := by simpa using hk'
    simp [window, List.getElem?_eq_getElem (show offset + k < buf.length by omega)]

/-- **What a copy leaves at an offset.** -/
theorem getD_memcpy {buf : List α} {offset : ℕ} (h : offset ≤ buf.length) (src : List α) (i : ℕ)
    (d : α) :
    (memcpy buf offset src).getD i d =
      if offset ≤ i ∧ i < offset + src.length then src.getD (i - offset) d else buf.getD i d := by
  have hlen : (buf.take offset).length = offset := by
    rw [List.length_take]
    omega
  simp only [memcpy, List.getD_eq_getElem?_getD, List.getElem?_append, hlen, List.getElem?_take,
    List.getElem?_drop]
  by_cases hbefore : i < offset
  · rw [if_pos hbefore, if_pos hbefore, if_neg (by omega)]
  · rw [if_neg hbefore]
    by_cases hin : i < offset + src.length
    · rw [if_pos (by omega), if_pos ⟨by omega, hin⟩]
    · rw [if_neg (by omega), if_neg (by omega)]
      congr 2
      omega

/-- What a buffer that was filled up has at an offset. -/
theorem getD_resize {fill : α} {buf : List α} {n : ℕ} (h : buf.length ≤ n) (i : ℕ) :
    (resize fill buf n).getD i fill = buf.getD i fill := by
  simp only [resize, List.getD_eq_getElem?_getD, List.take_of_length_le h, List.getElem?_append,
    List.getElem?_replicate]
  by_cases hi : i < buf.length
  · rw [if_pos hi]
  · rw [if_neg hi, List.getElem?_eq_none (by omega)]
    split <;> rfl

/-- Masking the lower bits off. -/
theorem ldiff_mask (m k : ℕ) : Nat.ldiff m (2 ^ k - 1) = m / 2 ^ k * 2 ^ k := by
  rw [← Nat.shiftRight_eq_div_pow, ← Nat.shiftLeft_eq]
  refine Nat.eq_of_testBit_eq fun i => ?_
  rw [Nat.testBit_ldiff, Nat.testBit_shiftLeft, Nat.testBit_shiftRight,
    Nat.testBit_two_pow_sub_one]
  rcases Nat.lt_or_ge i k with hlow | hhigh
  · simp [hlow, Nat.not_le.mpr hlow]
  · simp [hhigh, Nat.not_lt.mpr hhigh]

end Buffers
