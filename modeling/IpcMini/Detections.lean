/-
The boxes of the detector (`src/devices/hisi_3516cv610/dev_svp_yolov8.cpp` and the
detection hook of `src/device_adapter/src/hisilicon_pipeline.cpp`).

The network answers with candidates in pixels of its input.  `get_svp_rio` drops those
that overlap a better one, rounds the corners of the others to even pixels, and the hook
divides them by the size of the picture.  Corners are converted to `td_u32`, which is
only defined for what an unsigned integer can hold; nothing is cut off at the border.

* `CalcIou`, `MulticlassNms`, `getSvpRio` — as in the source, in floats;
* `detectionHook` — for any rounding of its quotients;
* `Truncates` — what is known of the conversion;
* `side_iff` — one side of a box after the conversion;
* **`normalised_iff`** — the published boxes are normalised if and only if no kept
  candidate crosses the border of the picture.
-/
import Mathlib.Algebra.Order.Archimedean.Basic
import Mathlib.Data.Rat.Floor
import Mathlib.Tactic.NormNum
import Mathlib.Tactic.Positivity
import IpcMini.Buffers
import IpcMini.Floats

namespace IpcMini

namespace Detections

open Floats

/-! ### The network's output -/

/-- A `float`. -/
abbrev Single := Floating binary32

/-- What the buffers of the output hold. -/
structure NetworkOutput where
  rawOutNum : Single
  scoreData : ℕ → Single
  maxScoreIdx : ℕ → UInt16
  coord : ℕ → Single
  coordStrideOffset : ℕ
  maxClass : ℕ → UInt16

/-- A candidate: score, xmin, ymin, xmax, ymax, classId; with `isXywh` its middle has
the place of the lower corner and its size that of the upper one. -/
structure Candidate where
  score : Single
  xmin : Single
  ymin : Single
  xmax : Single
  ymax : Single
  classId : ℕ
  deriving DecidableEq

/-- A box of a valid candidate, whose numbers are finite: lx, ly, rx, ry, score,
class id, area. -/
structure FinalBox where
  lx : ℚ
  ly : ℚ
  rx : ℚ
  ry : ℚ
  score : ℚ
  classId : ℕ
  area : ℚ
  deriving DecidableEq

/-- `CalcIou`. -/
def CalcIou (box1 box2 : FinalBox) : Single :=
  let area1 : Single := .finite box1.area
  let area2 : Single := .finite box2.area
  let xx1 : Single := .finite (max box1.lx box2.lx)
  let yy1 : Single := .finite (max box1.ly box2.ly)
  let xx2 : Single := .finite (min box1.rx box2.rx)
  let yy2 : Single := .finite (min box1.ry box2.ry)
  let w := Floating.max 0 (xx2 - xx1 + 1)
  let h := Floating.max 0 (yy2 - yy1 + 1)
  let inter := w * h
  let denominator := area1 + area2 - inter
  match denominator with
  | .finite d => if d ≤ 0 then 0 else inter / denominator
  | _ => 0

/-- The size of a box from one corner to the other. -/
def boxArea (x1 y1 x2 y2 : ℚ) : Single :=
  (.finite x2 - .finite x1 + 1) * (.finite y2 - .finite y1 + 1)

/-- The box of a candidate, unless it is not valid. -/
def validBox (isXywh : Bool) (item : Candidate) : Option FinalBox := do
  let boxWidth ← item.xmax.value
  let boxHeight ← item.ymax.value
  let x1 ← (if isXywh then item.xmin - item.xmax / 2 else item.xmin).value
  let y1 ← (if isXywh then item.ymin - item.ymax / 2 else item.ymin).value
  let x2 ← (if isXywh then item.xmin + item.xmax / 2 else item.xmax).value
  let y2 ← (if isXywh then item.ymin + item.ymax / 2 else item.ymax).value
  let score ← item.score.value
  if (isXywh ∧ (boxWidth ≤ 0 ∨ boxHeight ≤ 0)) ∨ (¬isXywh ∧ (x2 ≤ x1 ∨ y2 ≤ y1)) then none
  else do
    let area ← (boxArea x1 y1 x2 y2).value
    if area ≤ 0 then none else some ⟨x1, y1, x2, y2, score, item.classId, area⟩

/-- The body of the loop of `MulticlassNms`. -/
def nmsStep (nmsThr : Single) (isXywh : Bool) (bboxes : List FinalBox) (item : Candidate) :
    List FinalBox :=
  match validBox isXywh item with
  | none => bboxes
  | some bbox => if bboxes.any (nmsThr < CalcIou bbox ·) then bboxes else bboxes ++ [bbox]

/-- `MulticlassNms`. -/
def MulticlassNms (bboxes : List FinalBox) (vaildBox : List Candidate) (nmsThr : Single)
    (isXywh : Bool) : List FinalBox :=
  vaildBox.foldl (nmsStep nmsThr isXywh) bboxes

/-! ### Rectangles -/

def SVP_RECT_NUM : ℕ := 64

/-- The threshold `0.45`, a `double`, as a `float`. -/
def nmsThreshold : Single := .round binary32 (binary64.nearest (45 / 100))

-- boxes of 290 pixels that share 180 of them do not overlap by more
example : CalcIou ⟨609, 100, 637, 109, 1, 0, 290⟩ ⟨620, 100, 648, 109, 1, 0, 290⟩ =
    nmsThreshold := by
  decide +kernel

structure OtPoint where
  x : ℤ
  y : ℤ
  deriving DecidableEq, Repr

/-- An `svp_npu_rect_t`; its points are left top, right top, right bottom, left bottom. -/
structure SvpNpuRect where
  classId : ℕ
  score : ℚ
  leftTop : OtPoint
  rightTop : OtPoint
  rightBottom : OtPoint
  leftBottom : OtPoint
  deriving DecidableEq

section Hook

-- the rounding of the hook's operations, the conversion of a `float` to `td_u32`, and the
-- largest `size_t`
variable (fl : ℚ → ℚ) (conv : ℚ → ℕ) (SIZE_MAX : ℕ)

/-- `(td_u32)(q) & (~1)`, as the coordinate of a point. -/
def evenPixel (q : ℚ) : ℤ := Int.bmod (Nat.ldiff (conv q) 1) (2 ^ 32)

/-- The candidate with index `idx`, unless its coordinates cannot be addressed. -/
def candidate (out : NetworkOutput) (idx : ℕ) : Option Candidate :=
  let coordIdx := (out.maxScoreIdx idx).toNat
  let stride := out.coordStrideOffset
  if stride = 0 ∨ stride > SIZE_MAX / 3 ∨ coordIdx > SIZE_MAX - 3 * stride then none
  else some
    { score := out.scoreData idx
      xmin := out.coord coordIdx
      ymin := out.coord (coordIdx + 1 * stride)
      xmax := out.coord (coordIdx + 2 * stride)
      ymax := out.coord (coordIdx + 3 * stride)
      classId := (out.maxClass coordIdx).toNat }

/-- The candidates that `get_svp_rio` gives to `MulticlassNms`. -/
def candidates (out : NetworkOutput) : List Candidate :=
  match out.rawOutNum.value with
  | none => []
  | some rawOutNum =>
    if rawOutNum ≤ 0 then []
    else (List.range ⌊min rawOutNum SVP_RECT_NUM⌋.toNat).filterMap (candidate SIZE_MAX out)

/-- The boxes that are kept. -/
def finalBoxes (out : NetworkOutput) : List FinalBox :=
  MulticlassNms [] (candidates SIZE_MAX out) nmsThreshold false

/-- The rectangle of a box. -/
def svpRect (box : FinalBox) : SvpNpuRect where
  classId := box.classId
  score := if box.score < 0 then 0 else if 1 < box.score then 1 else box.score
  leftTop := ⟨evenPixel conv box.lx, evenPixel conv box.ly⟩
  rightTop := ⟨evenPixel conv box.rx, evenPixel conv box.ly⟩
  rightBottom := ⟨evenPixel conv box.rx, evenPixel conv box.ry⟩
  leftBottom := ⟨evenPixel conv box.lx, evenPixel conv box.ry⟩

/-- `yolov8::get_svp_rio`; without one of the buffers there is no output. -/
def getSvpRio (out : Option NetworkOutput) : Option (List SvpNpuRect) :=
  out.map fun out => ((finalBoxes SIZE_MAX out).take SVP_RECT_NUM).map (svpRect conv)

/-- A `DetectionBox`. -/
structure DetectionBox where
  classId : ℕ
  score : ℚ
  x : ℚ
  y : ℚ
  w : ℚ
  h : ℚ
  deriving DecidableEq

/-- The box of a rectangle, in parts of the picture. -/
def detectionBox (normW normH : ℚ) (r : SvpNpuRect) : DetectionBox where
  classId := r.classId
  score := r.score
  x := fl (fl r.leftTop.x / normW)
  y := fl (fl r.leftTop.y / normH)
  w := fl (fl (fl r.rightBottom.x - fl r.leftTop.x) / normW)
  h := fl (fl (fl r.rightBottom.y - fl r.leftTop.y) / normH)

/-- The detection hook. -/
def detectionHook (aiWidth aiHeight : ℤ) (info : List SvpNpuRect) : List DetectionBox :=
  let normW : ℚ := if aiWidth > 0 then fl aiWidth else 640
  let normH : ℚ := if aiHeight > 0 then fl aiHeight else 640
  (info.take SVP_RECT_NUM).map (detectionBox fl normW normH)

/-- The boxes that are published for an output. -/
def published (aiWidth aiHeight : ℤ) (out : NetworkOutput) : List DetectionBox :=
  (getSvpRio conv SIZE_MAX (some out)).elim [] (detectionHook fl aiWidth aiHeight)

end Hook

/-! ### Kept boxes -/

section Nms

variable {nmsThr : Single} {isXywh : Bool}

/-- A box that is kept was kept before, or is that of a valid candidate. -/
theorem mem_nms {bboxes : List FinalBox} {vaildBox : List Candidate} {box : FinalBox}
    (h : box ∈ MulticlassNms bboxes vaildBox nmsThr isXywh) :
    box ∈ bboxes ∨ ∃ item ∈ vaildBox, validBox isXywh item = some box := by
  induction vaildBox generalizing bboxes with
  | nil => exact .inl h
  | cons item vaildBox ih =>
    have hlater : box ∈ MulticlassNms (nmsStep nmsThr isXywh bboxes item) vaildBox nmsThr isXywh :=
      h
    rcases ih hlater with hstep | ⟨later, hmem, hvalid⟩
    · rw [nmsStep] at hstep
      cases hvalid : validBox isXywh item with
      | none =>
        rw [hvalid] at hstep
        exact .inl hstep
      | some bbox =>
        simp only [hvalid] at hstep
        split at hstep
        · exact .inl hstep
        · rcases List.mem_append.mp hstep with hold | hnew
          · exact .inl hold
          · rw [List.mem_singleton.mp hnew]
            exact .inr ⟨item, List.mem_cons_self, hvalid⟩
    · exact .inr ⟨later, List.mem_cons_of_mem _ hmem, hvalid⟩

theorem length_nms (bboxes : List FinalBox) (vaildBox : List Candidate) :
    (MulticlassNms bboxes vaildBox nmsThr isXywh).length ≤ bboxes.length + vaildBox.length := by
  induction vaildBox generalizing bboxes with
  | nil => exact Nat.le_refl _
  | cons item vaildBox ih =>
    have hstep : (nmsStep nmsThr isXywh bboxes item).length ≤ bboxes.length + 1 := by
      rw [nmsStep]
      cases validBox isXywh item with
      | none => exact Nat.le_succ _
      | some bbox =>
        simp only
        split
        · exact Nat.le_succ _
        · simp
    have hrest := ih (nmsStep nmsThr isXywh bboxes item)
    simp only [MulticlassNms, List.foldl_cons, List.length_cons] at hrest ⊢
    omega

/-- A box, as a candidate that is given by its corners. -/
def FinalBox.candidate (box : FinalBox) : Candidate :=
  ⟨.finite box.score, .finite box.lx, .finite box.ly, .finite box.rx, .finite box.ry, box.classId⟩

/-- A valid candidate that is given by its corners has these in order. -/
theorem validBox_spec {item : Candidate} {box : FinalBox} (h : validBox false item = some box) :
    item = box.candidate ∧ box.lx < box.rx ∧ box.ly < box.ry := by
  simp only [validBox, Bool.false_eq_true, if_false, false_and, false_or, not_false_eq_true,
    true_and, Option.bind_eq_bind, Option.bind_eq_some_iff, Floating.value_eq_some] at h
  obtain ⟨_, -, _, -, x1, hx1, y1, hy1, x2, hx2, y2, hy2, score, hscore, h⟩ := h
  split at h
  · cases h
  · next hvalid =>
    obtain ⟨area, -, h⟩ := Option.bind_eq_some_iff.mp h
    split at h
    · cases h
    · obtain rfl := Option.some_inj.mp h
      simp only [not_or, not_le] at hvalid
      refine ⟨?_, hvalid⟩
      rw [FinalBox.candidate, ← hx1, ← hy1, ← hx2, ← hy2, ← hscore]

end Nms

section Kept

variable {SIZE_MAX : ℕ} {out : NetworkOutput}

theorem finalBoxes_ordered {box : FinalBox} (h : box ∈ finalBoxes SIZE_MAX out) :
    box.lx < box.rx ∧ box.ly < box.ry := by
  rcases mem_nms h with hnil | ⟨item, -, hvalid⟩
  · cases hnil
  · exact (validBox_spec hvalid).2

/-- There is a rectangle for each kept box. -/
theorem length_finalBoxes : (finalBoxes SIZE_MAX out).length ≤ SVP_RECT_NUM := by
  refine Nat.le_trans (length_nms [] (candidates SIZE_MAX out)) ?_
  rw [List.length_nil, Nat.zero_add, candidates]
  cases out.rawOutNum.value with
  | none => exact Nat.zero_le _
  | some rawOutNum =>
    simp only
    split
    · exact Nat.zero_le _
    · refine Nat.le_trans (List.length_filterMap_le _ _) ?_
      rw [List.length_range, Int.toNat_le, Int.floor_le_iff]
      have hmin : min rawOutNum (SVP_RECT_NUM : ℚ) ≤ SVP_RECT_NUM := min_le_right _ _
      push_cast
      linarith

/-- The published boxes are those of the kept ones. -/
theorem published_eq (fl : ℚ → ℚ) (conv : ℚ → ℕ) {aiWidth aiHeight : ℤ}
    (hwidth : 0 < aiWidth) (hheight : 0 < aiHeight) :
    published fl conv SIZE_MAX aiWidth aiHeight out =
      (finalBoxes SIZE_MAX out).map fun box =>
        detectionBox fl (fl aiWidth) (fl aiHeight) (svpRect conv box) := by
  have hrects : ((finalBoxes SIZE_MAX out).map (svpRect conv)).length ≤ SVP_RECT_NUM := by
    rw [List.length_map]
    exact length_finalBoxes
  simp only [published, getSvpRio, Option.map_some, Option.elim_some, detectionHook, gt_iff_lt,
    hwidth, hheight, if_true]
  rw [List.take_of_length_le length_finalBoxes, List.take_of_length_le hrects, List.map_map]
  rfl

end Kept

/-! ### One side of a box -/

/-- What is known of the conversion to `td_u32`: it truncates what an unsigned integer can
hold, and is undefined, though some `td_u32`, elsewhere. -/
structure Truncates (conv : ℚ → ℕ) : Prop where
  eq_floor : ∀ q : ℚ, -1 < q → q < 2 ^ 32 → conv q = ⌊q⌋.toNat
  lt_word : ∀ q : ℚ, conv q < 2 ^ 32

/-- An unsigned number taken as a signed one. -/
theorem bmod_word {n : ℕ} (h : n < 2 ^ 32) :
    Int.bmod n (2 ^ 32) = if n < 2 ^ 31 then (n : ℤ) else n - 2 ^ 32 := by
  have hmod : (n : ℤ) % (4294967296 : ℕ) = n := by omega
  rw [show (2 : ℕ) ^ 32 = 4294967296 by norm_num] at h ⊢
  rw [Int.bmod_def, hmod]
  norm_num

/-- The coordinate is even, and negative if the unsigned one does not fit. -/
theorem evenPixel_eq {conv : ℚ → ℕ} (h : Truncates conv) (q : ℚ) :
    evenPixel conv q =
      if conv q < 2 ^ 31 then ((conv q / 2 * 2 : ℕ) : ℤ)
      else ((conv q / 2 * 2 : ℕ) : ℤ) - 2 ^ 32 := by
  have hmask : Nat.ldiff (conv q) 1 = conv q / 2 * 2 := by
    simpa using Buffers.ldiff_mask (conv q) 1
  have hlt : conv q / 2 * 2 < 2 ^ 32 := by
    have := h.lt_word q
    omega
  have hsign : conv q / 2 * 2 < 2 ^ 31 ↔ conv q < 2 ^ 31 := by omega
  unfold evenPixel
  rw [hmask, bmod_word hlt]
  simp only [hsign]

/-- The two ends of a side are in the picture, in order. -/
def SideIn (conv : ℚ → ℕ) (W : ℤ) (lo hi : ℚ) : Prop :=
  0 ≤ evenPixel conv lo ∧ evenPixel conv lo ≤ evenPixel conv hi ∧ evenPixel conv hi ≤ W

/-- As parts of the picture. -/
theorem side_quotients {W x₀ x₁ : ℤ} (hW : 0 < W) :
    0 ≤ x₀ ∧ x₀ ≤ x₁ ∧ x₁ ≤ W ↔
      (0 : ℚ) ≤ x₀ / W ∧ (0 : ℚ) ≤ (x₁ - x₀) / W ∧ (x₀ / W + (x₁ - x₀) / W : ℚ) ≤ 1 := by
  have hWq : (0 : ℚ) < W := by exact_mod_cast hW
  have hsum : (x₀ / W + (x₁ - x₀) / W : ℚ) = x₁ / W := by
    rw [← add_div]
    congr 1
    ring
  have hsign : ∀ q : ℚ, 0 ≤ q / W ↔ 0 ≤ q := fun q => by rw [le_div_iff₀ hWq, zero_mul]
  rw [hsum, hsign, hsign, div_le_one hWq, sub_nonneg]
  norm_cast

/-- The conversion that gives `2 ^ 31` wherever it is undefined. -/
def wild (q : ℚ) : ℕ := if -1 < q ∧ q < 2 ^ 32 then ⌊q⌋.toNat else 2 ^ 31

theorem wild_truncates : Truncates wild where
  eq_floor q hlo hhi := if_pos ⟨hlo, hhi⟩
  lt_word q := by
    rw [wild]
    split
    · next h =>
      have hfloor : ⌊q⌋ < 2 ^ 32 := Int.floor_lt.mpr (by exact_mod_cast h.2)
      omega
    · decide

/-- **One side of a box** is in the picture, whatever the conversion does where it is
undefined, if and only if it does not cross the lower border by a pixel, nor the upper
one by more than the rounding takes back. -/
theorem side_iff {W : ℤ} (hW : 0 < W) (hWint : W < 2 ^ 31) {lo hi : ℚ} (hlt : lo < hi) :
    (∀ conv, Truncates conv → SideIn conv W lo hi) ↔ -1 < lo ∧ hi < 2 * (W / 2 : ℤ) + 2 := by
  constructor
  · intro h
    obtain ⟨hlo, hle, hhi⟩ := h wild wild_truncates
    rw [evenPixel_eq wild_truncates] at hlo hle
    rw [evenPixel_eq wild_truncates] at hle hhi
    -- out of range the conversion is `2 ^ 31`, which is a negative coordinate
    have hin : ∀ {q : ℚ}, wild q < 2 ^ 31 → -1 < q ∧ q < 2 ^ 32 := by
      intro q hq
      by_contra hout
      rw [wild, if_neg hout] at hq
      omega
    have hlow : wild lo < 2 ^ 31 := by
      by_contra hbig
      rw [if_neg hbig] at hlo
      have := wild_truncates.lt_word lo
      omega
    have hhigh : wild hi < 2 ^ 31 := by
      by_contra hbig
      rw [if_pos hlow, if_neg hbig] at hle
      have := wild_truncates.lt_word hi
      omega
    refine ⟨(hin hlow).1, ?_⟩
    rw [if_pos hhigh, wild_truncates.eq_floor hi (hin hhigh).1 (hin hhigh).2] at hhi
    have hfloor : ⌊hi⌋ < 2 * (W / 2) + 2 := by omega
    exact_mod_cast Int.floor_lt.mp hfloor
  · rintro ⟨hlo, hhi⟩ conv hconv
    -- both ends are in the range of the conversion, and below its sign
    have hhi' : hi < 2 ^ 32 := by
      have hbound : (2 * (W / 2 : ℤ) + 2 : ℚ) < 2 ^ 32 := by
        have : 2 * (W / 2) + 2 < 2 ^ 32 := by omega
        exact_mod_cast this
      linarith
    have hfloor : ⌊hi⌋ < 2 * (W / 2) + 2 := Int.floor_lt.mpr (by exact_mod_cast hhi)
    have hmono : ⌊lo⌋ ≤ ⌊hi⌋ := Int.floor_le_floor hlt.le
    have hclo := hconv.eq_floor lo hlo (by linarith)
    have hchi := hconv.eq_floor hi (by linarith) hhi'
    refine ⟨?_, ?_, ?_⟩ <;> simp only [evenPixel_eq hconv] <;> split <;> omega

/-! ### Published boxes -/

/-- A box as its declaration documents it. -/
structure Normalised (box : DetectionBox) : Prop where
  x_nonneg : 0 ≤ box.x
  y_nonneg : 0 ≤ box.y
  w_nonneg : 0 ≤ box.w
  h_nonneg : 0 ≤ box.h
  right_le : box.x + box.w ≤ 1
  bottom_le : box.y + box.h ≤ 1
  score_nonneg : 0 ≤ box.score
  score_le : box.score ≤ 1

/-- The score is clamped, whatever it is. -/
theorem score_clamped (conv : ℚ → ℕ) (box : FinalBox) :
    0 ≤ (svpRect conv box).score ∧ (svpRect conv box).score ≤ 1 := by
  simp only [svpRect]
  split
  · exact ⟨le_refl 0, zero_le_one⟩
  · split
    · exact ⟨zero_le_one, le_refl 1⟩
    · exact ⟨by linarith, by linarith⟩

theorem detectionBox_normalised_iff (conv : ℚ → ℕ) {aiWidth aiHeight : ℤ}
    (hwidth : 0 < aiWidth) (hheight : 0 < aiHeight) (box : FinalBox) :
    Normalised (detectionBox id aiWidth aiHeight (svpRect conv box)) ↔
      SideIn conv aiWidth box.lx box.rx ∧ SideIn conv aiHeight box.ly box.ry := by
  rw [SideIn, SideIn, side_quotients hwidth, side_quotients hheight]
  obtain ⟨hscore, hscore'⟩ := score_clamped conv box
  constructor
  · rintro ⟨hx, hy, hw, hh, hright, hbottom, -, -⟩
    simp only [detectionBox, svpRect, id_eq] at hx hy hw hh hright hbottom
    exact ⟨⟨hx, hw, hright⟩, ⟨hy, hh, hbottom⟩⟩
  · rintro ⟨⟨hx, hw, hright⟩, ⟨hy, hh, hbottom⟩⟩
    refine ⟨?_, ?_, ?_, ?_, ?_, ?_, hscore, hscore'⟩ <;>
      simp only [detectionBox, svpRect, id_eq]
    · exact hx
    · exact hy
    · exact hw
    · exact hh
    · exact hright
    · exact hbottom

/-- **The published boxes are normalised**, their quotients taken exactly and whatever an
undefined conversion gives, if and only if no kept box begins a pixel or more before the
picture or ends behind it by more than the rounding to even pixels takes back. -/
theorem normalised_iff (SIZE_MAX : ℕ) (out : NetworkOutput) (aiWidth aiHeight : ℤ)
    (hwidth : 0 < aiWidth ∧ aiWidth < 2 ^ 31) (hheight : 0 < aiHeight ∧ aiHeight < 2 ^ 31) :
    (∀ conv, Truncates conv →
        ∀ box ∈ published id conv SIZE_MAX aiWidth aiHeight out, Normalised box) ↔
      ∀ box ∈ finalBoxes SIZE_MAX out,
        (-1 < box.lx ∧ box.rx < 2 * (aiWidth / 2 : ℤ) + 2) ∧
          -1 < box.ly ∧ box.ry < 2 * (aiHeight / 2 : ℤ) + 2 := by
  constructor
  · intro h box hbox
    obtain ⟨hx, hy⟩ := finalBoxes_ordered hbox
    -- which boxes are kept does not depend on the conversion
    have hsides : ∀ conv, Truncates conv →
        SideIn conv aiWidth box.lx box.rx ∧ SideIn conv aiHeight box.ly box.ry := by
      intro conv hconv
      rw [← detectionBox_normalised_iff conv hwidth.1 hheight.1]
      refine h conv hconv _ ?_
      rw [published_eq id conv hwidth.1 hheight.1]
      exact List.mem_map.mpr ⟨box, hbox, rfl⟩
    exact ⟨(side_iff hwidth.1 hwidth.2 hx).mp fun conv hconv => (hsides conv hconv).1,
      (side_iff hheight.1 hheight.2 hy).mp fun conv hconv => (hsides conv hconv).2⟩
  · intro h conv hconv detection hmem
    rw [published_eq id conv hwidth.1 hheight.1] at hmem
    obtain ⟨box, hbox, rfl⟩ := List.mem_map.mp hmem
    obtain ⟨hx, hy⟩ := finalBoxes_ordered hbox
    obtain ⟨hxs, hys⟩ := h box hbox
    exact (detectionBox_normalised_iff conv hwidth.1 hheight.1 box).mpr
      ⟨(side_iff hwidth.1 hwidth.2 hx).mpr hxs conv hconv,
        (side_iff hheight.1 hheight.2 hy).mpr hys conv hconv⟩

/-- One candidate with the given ends of its sides in both directions. -/
def oneBox (lo hi : ℚ) : NetworkOutput where
  rawOutNum := 1
  scoreData _ := .finite (1 / 2)
  maxScoreIdx _ := 0
  coord i := .finite (if i < 2 then lo else hi)
  coordStrideOffset := 1
  maxClass _ := 0

/-- The conversion of a processor that saturates. -/
def saturating (q : ℚ) : ℕ := min ⌊q⌋.toNat 0xffffffff

theorem saturating_truncates : Truncates saturating where
  eq_floor q _ hhi := by
    have hfloor : ⌊q⌋ < 2 ^ 32 := Int.floor_lt.mpr (by exact_mod_cast hhi)
    exact Nat.min_eq_left (by omega)
  lt_word q := Nat.lt_of_le_of_lt (Nat.min_le_right _ _) (by norm_num)

/-- A box inside the picture is published in parts of it. -/
theorem inside_normalised :
    (published id saturating (2 ^ 32 - 1) 640 640 (oneBox 600 640)).length = 1 ∧
      ∀ box ∈ published id saturating (2 ^ 32 - 1) 640 640 (oneBox 600 640), Normalised box := by
  have hkept : finalBoxes (2 ^ 32 - 1) (oneBox 600 640) =
      [⟨600, 600, 640, 640, 1 / 2, 0, 1681⟩] := by decide +kernel
  refine ⟨by rw [published_eq id saturating (by decide) (by decide), hkept]; rfl, ?_⟩
  refine (normalised_iff (2 ^ 32 - 1) (oneBox 600 640) 640 640 (by decide)
    (by decide)).mpr ?_ saturating saturating_truncates
  intro box hbox
  rw [hkept, List.mem_singleton] at hbox
  subst hbox
  norm_num

/-- A box across the right border is published with an end beyond 1. -/
theorem across_not_normalised : Truncates saturating ∧
    ∃ box ∈ published id saturating (2 ^ 32 - 1) 640 640 (oneBox 600 700), ¬Normalised box := by
  have hpublished : published id saturating (2 ^ 32 - 1) 640 640 (oneBox 600 700) =
      [⟨0, 1 / 2, 600 / 640, 600 / 640, 100 / 640, 100 / 640⟩] := by decide +kernel
  refine ⟨saturating_truncates, ?_⟩
  rw [hpublished]
  refine ⟨_, List.mem_singleton_self _, fun h => ?_⟩
  have hright := h.right_le
  norm_num at hright

end Detections

end IpcMini
