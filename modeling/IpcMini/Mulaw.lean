/-
Silence in mu-law frames (`src/devices/hisi_3516cv610/dev_aplay.cpp`).

The classifier looks at the codes of a frame, the decoder turns them into samples.
Both ends of the code range are quiet for the classifier; the decoder has its quiet
samples at the upper end and in the middle, and at the lower end the loudest ones.

* `isMulawSilenceFrame`, `mulawToLinear` — the classifier and the decoder;
* `quietCode_iff`, `smallSample_iff` — the codes that each of them means;
* **`silence_heard_iff`** — they agree on a frame if and only if it does not matter which
  of the two kinds of negative codes is counted.
-/
import Mathlib.Algebra.Group.Nat.Defs
import Mathlib.Algebra.Order.Group.Unbundled.Int
import Mathlib.Data.List.Count

namespace IpcMini

def kMulawSilence : UInt8 := 0xff

/-- The test in the loop of `is_mulaw_silence_frame`. -/
def quietCode (code : UInt8) : Bool :=
  decide (kMulawSilence.toNat - code.toNat ≤ 2) || decide (code ≤ 2)

/-- `is_mulaw_silence_frame`; the empty list is also a null pointer. -/
def isMulawSilenceFrame (data : List UInt8) : Bool :=
  if data = [] then true
  -- `quiet` is an `unsigned`
  else decide (data.countP quietCode * 10 % 2 ^ 32 ≥ data.length * 9)

/-- `mulaw_to_linear`. -/
def mulawToLinear (mulaw : UInt8) : ℤ :=
  let mulaw := ~~~mulaw
  let sign := mulaw &&& 0x80
  let exponent := ((mulaw >>> 4) &&& 0x07).toNat
  let mantissa := (mulaw &&& 0x0f).toNat
  let sample : ℤ := (((mantissa <<< 3) + 0x84) <<< exponent : ℕ) - 0x84
  if sign ≠ 0 then -sample else sample

/-- What holds of the numbers below 256 holds of every code. -/
theorem forall_code {P : UInt8 → Prop} (h : ∀ n < 256, P (.ofNat n)) (code : UInt8) : P code := by
  have hcode := h code.toNat (UInt8.toNat_lt code)
  rwa [UInt8.ofNat_toNat] at hcode

/-- Every sample fits the `int16_t` that it is returned as. -/
theorem mulawToLinear_bounds (code : UInt8) :
    -32124 ≤ mulawToLinear code ∧ mulawToLinear code ≤ 32124 :=
  forall_code (P := fun code => -32124 ≤ mulawToLinear code ∧ mulawToLinear code ≤ 32124)
    (by decide +kernel) code

/-- The sample is inaudible. -/
def smallSample (code : UInt8) : Bool := decide (|mulawToLinear code| ≤ 16)

/-- The codes of the smallest positive samples. -/
def quietPositive (code : UInt8) : Bool := decide (0xfd ≤ code)

/-- The codes of the smallest negative samples. -/
def quietNegative (code : UInt8) : Bool := decide (0x7d ≤ code ∧ code ≤ 0x7f)

/-- The codes of the largest negative samples. -/
def loudNegative (code : UInt8) : Bool := decide (code ≤ 2)

theorem quietCode_iff (code : UInt8) :
    quietCode code = (quietPositive code || loudNegative code) :=
  forall_code (P := fun code => quietCode code = (quietPositive code || loudNegative code))
    (by decide +kernel) code

theorem smallSample_iff (code : UInt8) :
    smallSample code = (quietPositive code || quietNegative code) :=
  forall_code (P := fun code => smallSample code = (quietPositive code || quietNegative code))
    (by decide +kernel) code

/-- What the classifier takes for quiet is among the loudest samples. -/
theorem loudNegative_loud (code : UInt8) (h : loudNegative code = true) :
    mulawToLinear code ≤ -30076 :=
  forall_code (P := fun code => loudNegative code = true → mulawToLinear code ≤ -30076)
    (by decide +kernel) code h

/-! ### Frames -/

/-- Of two kinds of codes that no code is both of, each is counted by itself. -/
theorem countP_split {f p q : UInt8 → Bool} (hf : ∀ code, f code = (p code || q code))
    (h : ∀ code, p code = true → q code = false) (data : List UInt8) :
    data.countP f = data.countP p + data.countP q := by
  induction data with
  | nil => rfl
  | cons code data ih =>
    simp only [List.countP_cons, ih, hf code]
    have hcode := h code
    cases hp : p code
    · simp
      omega
    · have hq := hcode hp
      simp [hq]
      omega

theorem quiet_codes (data : List UInt8) :
    data.countP quietCode = data.countP quietPositive + data.countP loudNegative := by
  refine countP_split quietCode_iff (fun code hcode => ?_) data
  simp only [quietPositive, loudNegative, decide_eq_true_eq, decide_eq_false_iff_not,
    UInt8.le_iff_toNat_le, UInt8.reduceToNat] at hcode ⊢
  omega

theorem small_samples (data : List UInt8) :
    data.countP smallSample = data.countP quietPositive + data.countP quietNegative := by
  refine countP_split smallSample_iff (fun code hcode => ?_) data
  simp only [quietPositive, quietNegative, decide_eq_true_eq, decide_eq_false_iff_not,
    UInt8.le_iff_toNat_le, UInt8.reduceToNat] at hcode ⊢
  omega

/-- At least 90 percent of the samples of the frame are inaudible. -/
def Inaudible (data : List UInt8) : Prop := 9 * data.length ≤ 10 * data.countP smallSample

instance (data : List UInt8) : Decidable (Inaudible data) := Nat.decLe _ _

/-- The counter of the classifier does not wrap in a frame of at most 960 bytes. -/
theorem isMulawSilenceFrame_iff {data : List UInt8} (h : data.length ≤ 960) :
    isMulawSilenceFrame data = true ↔ 9 * data.length ≤ 10 * data.countP quietCode := by
  rcases eq_or_ne data [] with rfl | hne
  · simp [isMulawSilenceFrame]
  have hle : data.countP quietCode ≤ data.length := List.countP_le_length
  have hmod : data.countP quietCode * 10 % 2 ^ 32 = data.countP quietCode * 10 :=
    Nat.mod_eq_of_lt (by omega)
  simp only [isMulawSilenceFrame, if_neg hne, hmod, decide_eq_true_eq]
  omega

/-- The classifier and the decoder agree on the frame. -/
def SilenceHeard (data : List UInt8) : Prop :=
  (isMulawSilenceFrame data = true → Inaudible data) ∧
    (Inaudible data → isMulawSilenceFrame data = true)

instance (data : List UInt8) : Decidable (SilenceHeard data) := by
  unfold SilenceHeard; infer_instance

/-- **The classifier and the decoder agree on a frame** unless the 90 percent are reached
with the larger of the numbers of its codes 0 to 2 and 0x7d to 0x7f, and not with the
smaller one. -/
theorem silence_heard_iff (data : List UInt8) (h : data.length ≤ 960) :
    SilenceHeard data ↔
      ¬(10 * (data.countP quietPositive +
            min (data.countP loudNegative) (data.countP quietNegative)) < 9 * data.length ∧
        9 * data.length ≤ 10 * (data.countP quietPositive +
            max (data.countP loudNegative) (data.countP quietNegative))) := by
  have hquiet := quiet_codes data
  have hsmall := small_samples data
  rw [SilenceHeard, isMulawSilenceFrame_iff h, Inaudible, hquiet, hsmall]
  omega

/-- With nine small positive samples it does not matter what the tenth one counts for. -/
theorem positive_silence_heard : SilenceHeard (List.replicate 9 0xff ++ [0]) := by
  have hlen : (List.replicate 9 (0xff : UInt8) ++ [0]).length ≤ 960 := by decide
  exact (silence_heard_iff _ hlen).mpr (by decide)

/-- One sample of the largest negative value is taken for silence, and the sample before
zero is not. -/
theorem negative_silence_misheard : ¬SilenceHeard [0] ∧ ¬SilenceHeard [0x7f] := by decide

end IpcMini
