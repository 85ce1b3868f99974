/-
Detections on the wire (`send_detections` of `protocol/webrtc/webrtc_peer_connection.cpp`,
`drawBoxes` of `cloud/signaling/public/viewer.js`).

The device writes the JSON by hand, with six decimals, and the viewer draws what it reads,
in doubles.  A float that is not finite is written as `nan` or `inf`, and the whole text is
refused.

* `toString`, `boxJson`, `detectionsJson` — the text of a result;
* `drawBoxes` — what the viewer draws, the class, the score and the frame of each box;
* `parseDetections` — the text is read exactly if all floats are finite;
* **`detections_drawn`** — then every box is drawn, in order, with its class and within half
  a millionth of the picture, up to what doubles round off;
* **`published_drawn`** — the text of what the detector publishes is always read and drawn.
-/
import Mathlib.Data.NNRat.Defs
import IpcMini.Detections
import IpcMini.Floats
import IpcMini.JsonTexts

namespace IpcMini

open Json hiding text
open Floats

namespace DetectionTexts

/-! ### Floats -/

/-- A `float`. -/
inductive Single
  | finite (negative : Bool) (magnitude : NNRat)
  | infinite (negative : Bool)
  | nan (negative : Bool)

namespace Single

def isFinite : Single → Bool
  | finite _ _ => true
  | _ => false

def value : Single → ℚ
  | finite negative q => (if negative then -1 else 1) * (q : ℚ)
  | _ => 0

/-- The millionths that `%f` shows. -/
def millionths (q : NNRat) : ℕ := (roundHalfEven (q * 10 ^ 6)).toNat

/-- `std::to_string`. -/
def toString : Single → List Char
  | finite negative q => pointText negative (millionths q / 10 ^ 6) (millionths q % 10 ^ 6) 6
  | infinite negative => (if negative then ['-'] else []) ++ ['i', 'n', 'f']
  | nan negative => (if negative then ['-'] else []) ++ ['n', 'a', 'n']

/-- The number that is read, if one is. -/
def read : Single → Option Number
  | finite negative q =>
    some (pointNumber negative (millionths q / 10 ^ 6) (millionths q % 10 ^ 6) 6)
  | _ => none

/-- What is left of a finite number. -/
def shown : Single → ℚ
  | finite negative q => (if negative then -1 else 1) * ((millionths q : ℚ) / 10 ^ 6)
  | _ => 0

/-- As a double. -/
def double (x : Single) : ℚ := binary64.nearest x.shown

end Single

/-! ### The text of a result -/

/-- A `DetectionBox` of the interface. -/
structure DetectionBox where
  classId : ℤ
  score : Single
  x : Single
  y : Single
  w : Single
  h : Single

structure DetectionResult where
  ptsMs : ℤ
  frameWidth : ℤ
  frameHeight : ℤ
  boxes : List DetectionBox

/-- The text of a box. -/
def boxJson (b : DetectionBox) : List Char :=
  "\x7b\"cls\":".toList ++ decimal b.classId ++ ",\"s\":".toList ++ b.score.toString ++
    ",\"x\":".toList ++ b.x.toString ++ ",\"y\":".toList ++ b.y.toString ++
    ",\"bw\":".toList ++ b.w.toString ++ ",\"bh\":".toList ++ b.h.toString ++ "\x7d".toList

/-- One turn of the loop over the boxes. -/
def appendBox (json : List Char) (b : DetectionBox × ℕ) : List Char :=
  (if b.2 = 0 then json else json ++ [',']) ++ boxJson b.1

/-- What `send_detections` gives to the data channel. -/
def detectionsJson (d : DetectionResult) : List Char :=
  d.boxes.zipIdx.foldl appendBox
      ("\x7b\"pts_ms\":".toList ++ decimal d.ptsMs ++ ",\"w\":".toList ++
        decimal d.frameWidth ++ ",\"h\":".toList ++ decimal d.frameHeight ++
        ",\"objs\":[".toList) ++
    "]\x7d".toList

/-! ### The viewer -/

/-- A box on the canvas. -/
structure Drawn where
  label : String
  score : ℤ
  x : ℚ
  y : ℚ
  width : ℚ
  height : ℚ

/-- `cocoNames`. -/
def cocoNames : List String :=
  ["人", "自行车", "汽车", "摩托车", "飞机", "公交车", "火车", "卡车", "船", "红绿灯",
    "消防栓", "停车标志", "停车计时器", "长椅", "鸟", "猫", "狗", "马", "羊", "牛",
    "大象", "熊", "斑马", "长颈鹿", "背包", "伞", "手提包", "领带", "行李箱", "飞盘",
    "滑雪板", "单板", "球", "风筝", "球棒", "手套", "滑板", "冲浪板", "网球拍", "瓶子",
    "酒杯", "杯子", "叉子", "刀", "勺子", "碗", "香蕉", "苹果", "三明治", "橙子",
    "西兰花", "胡萝卜", "热狗", "披萨", "甜甜圈", "蛋糕", "椅子", "沙发", "盆栽", "床",
    "餐桌", "马桶", "电视", "笔记本", "鼠标", "遥控器", "键盘", "手机", "微波炉", "烤箱",
    "烤面包机", "水槽", "冰箱", "书", "钟", "花瓶", "剪刀", "玩具熊", "吹风机", "牙刷"]

/-- `classLabel` of an integer. -/
def classLabel (id : ℤ) : String :=
  if 0 ≤ id ∧ id < cocoNames.length then cocoNames.getD id.toNat ""
  else "类别" ++ String.ofList (decimal id)

/-- A property that is a number. -/
def numberOf (object : Object) (key : String) : Option Number :=
  match object.field (units key) with
  | some (.number n) => some n
  | _ => none

/-- The number that `JSON.parse` makes of it. -/
def doubleOf (n : Number) : Option ℚ := n.rational.map binary64.nearest

/-- A product of doubles. -/
def times (a b : ℚ) : ℚ := binary64.nearest (a * b)

/-- `Math.round(s * 100)`. -/
def percent (s : ℚ) : ℤ := ⌊times s 100 + 1 / 2⌋

-- a score of 0.285 is less than 28.5 per cent
example : percent (binary64.nearest 0.285) = 28 := by decide +kernel

/-- What is drawn of an object; `none` where a property is no number, or the class no
integer. -/
def drawObject (width height : ℕ) : Value → Option Drawn
  | .object ms => do
    let id ← (← numberOf ms "cls").integer
    let s ← doubleOf (← numberOf ms "s")
    let x ← doubleOf (← numberOf ms "x")
    let y ← doubleOf (← numberOf ms "y")
    let bw ← doubleOf (← numberOf ms "bw")
    let bh ← doubleOf (← numberOf ms "bh")
    return ⟨classLabel id, percent s, times x width, times y height, times bw width,
      times bh height⟩
  | _ => none

/-- `message.objs`, or none. -/
def objs : Value → List Value
  | .object ms =>
    match Object.field ms (units "objs") with
    | some (.array items) => items
    | _ => []
  | _ => []

/-- `drawBoxes`, on a picture of that size. -/
def drawBoxes (width height : ℕ) (message : Value) : List (Option Drawn) :=
  (objs message).map (drawObject width height)

/-! ### Floats are read -/

namespace Single

theorem millionths_cast (q : NNRat) : (millionths q : ℚ) = roundHalfEven (q * 10 ^ 6) := by
  have hnonneg : 0 ≤ roundHalfEven ((q : ℚ) * 10 ^ 6) :=
    roundHalfEven_nonneg (mul_nonneg q.cast_nonneg (by positivity))
  exact_mod_cast congrArg (Int.cast (R := ℚ)) (Int.toNat_of_nonneg hnonneg)

/-- A finite number is off by half a millionth at most. -/
theorem abs_shown_sub_le (x : Single) : |x.shown - x.value| ≤ 1 / 2 / 10 ^ 6 := by
  cases x with
  | finite negative q =>
    have hround := abs_roundHalfEven_sub_le ((q : ℚ) * 10 ^ 6)
    rw [← millionths_cast] at hround
    have hscale : (millionths q : ℚ) / 10 ^ 6 - q = ((millionths q : ℚ) - q * 10 ^ 6) / 10 ^ 6 := by
      field_simp
    have habs : |(millionths q : ℚ) / 10 ^ 6 - q| ≤ 1 / 2 / 10 ^ 6 := by
      rw [hscale, abs_div, abs_of_pos (by positivity : (0 : ℚ) < 10 ^ 6)]
      exact div_le_div_of_nonneg_right hround (by positivity)
    have hsign : |(if negative then (-1 : ℚ) else 1)| = 1 := by cases negative <;> simp
    rw [shown, value, ← mul_sub, abs_mul, hsign, one_mul]
    exact habs
  | infinite negative =>
    simp only [shown, value, sub_self, abs_zero]
    positivity
  | nan negative =>
    simp only [shown, value, sub_self, abs_zero]
    positivity

theorem parses_toString (x : Single) : Parses x.toString (x.read.map .number) := by
  cases x with
  | finite negative q =>
    exact parses_point negative (millionths q / 10 ^ 6) (Nat.mod_lt _ (by decide)) (by decide)
  | infinite negative =>
    constructor
    · intro fuel c rest _ _
      cases negative <;>
        simp [toString, Single.read, readValue, readNumber, readMagnitude, readInt,
          readDigits]
    · cases negative <;> exact ⟨_, _, rfl, rfl, by decide⟩
  | nan negative =>
    constructor
    · intro fuel c rest _ _
      cases negative <;>
        simp [toString, Single.read, readValue, readName, readNumber, readMagnitude, readInt,
          readDigits]
    · cases negative <;> exact ⟨_, _, rfl, rfl, by decide⟩

theorem double_read {x : Single} {n : Number} (h : x.read = some n) :
    doubleOf n = some x.double := by
  suffices hrational : n.rational = some x.shown by rw [doubleOf, hrational]; rfl
  cases x with
  | finite negative q =>
    obtain rfl := Option.some_inj.mp h
    have hsplit : (millionths q : ℚ) = (millionths q / 10 ^ 6 : ℕ) * 10 ^ 6 +
        (millionths q % 10 ^ 6 : ℕ) := by
      exact_mod_cast (Nat.div_add_mod' (millionths q) (10 ^ 6)).symm
    rw [rational_point negative _ (Nat.mod_lt _ (by decide)) (by decide), shown]
    congr 2
    rw [hsplit]
    field_simp
  | infinite negative => cases h
  | nan negative => cases h

theorem read_isSome (x : Single) : x.read.isSome = x.isFinite := by cases x <;> rfl

end Single

/-! ### A box is read -/

namespace DetectionBox

def isFinite (b : DetectionBox) : Bool :=
  b.score.isFinite && b.x.isFinite && b.y.isFinite && b.w.isFinite && b.h.isFinite

/-- What is drawn of a box that is read. -/
def drawn (width height : ℕ) (b : DetectionBox) : Drawn :=
  ⟨classLabel b.classId, percent b.score.double, times b.x.double width,
    times b.y.double height, times b.w.double width, times b.h.double height⟩

def members (b : DetectionBox) : List MemberText :=
  [plainMember "cls" (decimal b.classId)
      (some (.number ⟨(decimal b.classId).flatMap charUnits, some b.classId⟩)) (by decide),
    plainMember "s" b.score.toString (b.score.read.map .number) (by decide),
    plainMember "x" b.x.toString (b.x.read.map .number) (by decide),
    plainMember "y" b.y.toString (b.y.read.map .number) (by decide),
    plainMember "bw" b.w.toString (b.w.read.map .number) (by decide),
    plainMember "bh" b.h.toString (b.h.read.map .number) (by decide)]

/-- The value that is read, if all numbers are. -/
def read (b : DetectionBox) : Option Value :=
  (b.members.mapM MemberText.member).map .object

theorem boxJson_eq (b : DetectionBox) : boxJson b = objectText b.members := by
  have htexts : b.members.map MemberText.memberText =
      [MemberText.textOf "cls".toList (decimal b.classId),
        MemberText.textOf "s".toList b.score.toString,
        MemberText.textOf "x".toList b.x.toString,
        MemberText.textOf "y".toList b.y.toString, MemberText.textOf "bw".toList b.w.toString,
        MemberText.textOf "bh".toList b.h.toString] := rfl
  rw [objectText, htexts]
  unfold boxJson
  simp only [itemsText, MemberText.textOf, String.reduceToList, List.append_assoc,
    List.cons_append, List.nil_append]

theorem parses (b : DetectionBox) : Parses (boxJson b) b.read := by
  rw [boxJson_eq]
  refine parses_object fun m hm => ?_
  simp only [members, List.mem_cons, List.not_mem_nil, or_false] at hm
  rcases hm with rfl | rfl | rfl | rfl | rfl | rfl
  · exact parses_decimal _
  all_goals exact Single.parses_toString _

/-- An object with the members of a box. -/
def object (cls s x y bw bh : Number) : Object :=
  [(units "cls", .number cls), (units "s", .number s), (units "x", .number x),
    (units "y", .number y), (units "bw", .number bw), (units "bh", .number bh)]

/-- All properties are found. -/
theorem numberOf_object (cls s x y bw bh : Number) :
    numberOf (object cls s x y bw bh) "cls" = some cls ∧
      numberOf (object cls s x y bw bh) "s" = some s ∧
      numberOf (object cls s x y bw bh) "x" = some x ∧
      numberOf (object cls s x y bw bh) "y" = some y ∧
      numberOf (object cls s x y bw bh) "bw" = some bw ∧
      numberOf (object cls s x y bw bh) "bh" = some bh :=
  ⟨rfl, rfl, rfl, rfl, rfl, rfl⟩

/-- **A box is read if its numbers are finite**, and drawn as it was shown. -/
theorem read_cases (b : DetectionBox) :
    (b.isFinite = true ∧ ∃ v, b.read = some v ∧
        ∀ width height, drawObject width height v = some (b.drawn width height)) ∨
      (b.isFinite = false ∧ b.read = none) := by
  have hread : b.read = b.score.read.bind fun s => b.x.read.bind fun x => b.y.read.bind fun y =>
      b.w.read.bind fun bw => b.h.read.map fun bh =>
        .object
          (object ⟨(decimal b.classId).flatMap charUnits, some b.classId⟩ s x y bw bh) := by
    rw [read, members]
    simp only [List.mapM_cons, List.mapM_nil, MemberText.member]
    cases b.score.read <;> cases b.x.read <;> cases b.y.read <;> cases b.w.read <;>
      cases b.h.read <;> rfl
  by_cases h : b.isFinite = true
  · refine .inl ⟨h, ?_⟩
    simp only [isFinite, ← Single.read_isSome, Bool.and_eq_true, Option.isSome_iff_exists] at h
    obtain ⟨⟨⟨⟨⟨s, hs⟩, x, hx⟩, y, hy⟩, bw, hw⟩, bh, hh⟩ := h
    rw [hread, hs, hx, hy, hw, hh]
    refine ⟨_, rfl, fun width height => ?_⟩
    obtain ⟨hcls, hs', hx', hy', hw', hh'⟩ := numberOf_object
      ⟨(decimal b.classId).flatMap charUnits, some b.classId⟩ s x y bw bh
    simp only [drawObject, hcls, hs', hx', hy', hw', hh', Option.bind_eq_bind, Option.bind_some,
      Single.double_read hs, Single.double_read hx, Single.double_read hy,
      Single.double_read hw, Single.double_read hh]
    rfl
  · refine .inr ⟨by simpa using h, ?_⟩
    -- one of the numbers is not read
    simp only [isFinite, ← Single.read_isSome] at h
    rw [hread]
    revert h
    cases b.score.read <;> cases b.x.read <;> cases b.y.read <;> cases b.w.read <;>
      cases b.h.read <;> intro h <;> first | rfl | exact absurd rfl h

end DetectionBox

/-! ### A result is read -/

theorem itemsText_cons (t : List Char) (ts : List (List Char)) :
    itemsText (t :: ts) = t ++ ts.flatMap fun u => ',' :: u := by
  induction ts generalizing t with
  | nil => simp [itemsText]
  | cons u ts ih => rw [itemsText, ih, List.flatMap_cons, List.cons_append]

/-- The loop puts commas between the boxes. -/
theorem foldl_appendBox (json : List Char) (boxes : List DetectionBox) :
    boxes.zipIdx.foldl appendBox json = json ++ itemsText (boxes.map boxJson) := by
  have hlater : ∀ (boxes : List DetectionBox) (json : List Char) (k : ℕ),
      (boxes.zipIdx (k + 1)).foldl appendBox json =
        json ++ (boxes.map boxJson).flatMap fun t => ',' :: t := by
    intro boxes
    induction boxes with
    | nil => simp
    | cons b boxes ih =>
      intro json k
      rw [List.zipIdx_cons, List.foldl_cons, ih, List.map_cons, List.flatMap_cons, appendBox]
      simp
  cases boxes with
  | nil => simp [itemsText]
  | cons b boxes =>
    rw [List.zipIdx_cons, List.foldl_cons, hlater, List.map_cons, itemsText_cons, appendBox]
    simp

namespace DetectionResult

/-- The boxes, and what they are read as. -/
def items (d : DetectionResult) : Items := d.boxes.map fun b => (boxJson b, b.read)

def members (d : DetectionResult) : List MemberText :=
  [plainMember "pts_ms" (decimal d.ptsMs)
      (some (.number ⟨(decimal d.ptsMs).flatMap charUnits, some d.ptsMs⟩)) (by decide),
    plainMember "w" (decimal d.frameWidth)
      (some (.number ⟨(decimal d.frameWidth).flatMap charUnits, some d.frameWidth⟩))
      (by decide),
    plainMember "h" (decimal d.frameHeight)
      (some (.number ⟨(decimal d.frameHeight).flatMap charUnits, some d.frameHeight⟩))
      (by decide),
    plainMember "objs" (arrayText d.items) ((d.items.mapM Prod.snd).map .array) (by decide)]

theorem detectionsJson_eq (d : DetectionResult) : detectionsJson d = objectText d.members := by
  have htexts : d.members.map MemberText.memberText =
      [MemberText.textOf "pts_ms".toList (decimal d.ptsMs),
        MemberText.textOf "w".toList (decimal d.frameWidth),
        MemberText.textOf "h".toList (decimal d.frameHeight),
        MemberText.textOf "objs".toList (arrayText d.items)] := rfl
  have hitems : d.items.map Prod.fst = d.boxes.map boxJson := by
    rw [items, List.map_map]
    rfl
  rw [objectText, htexts]
  unfold detectionsJson
  rw [foldl_appendBox, arrayText, hitems]
  simp only [itemsText, MemberText.textOf, String.reduceToList, List.append_assoc,
    List.cons_append, List.nil_append]

/-- The object that is read, with the values of the boxes. -/
def object (d : DetectionResult) (values : List Value) : Object :=
  [(units "pts_ms", .number ⟨(decimal d.ptsMs).flatMap charUnits, some d.ptsMs⟩),
    (units "w", .number ⟨(decimal d.frameWidth).flatMap charUnits, some d.frameWidth⟩),
    (units "h", .number ⟨(decimal d.frameHeight).flatMap charUnits, some d.frameHeight⟩),
    (units "objs", .array values)]

/-- A result is read with its own numbers, and if its boxes are. -/
theorem parseDetections (d : DetectionResult) :
    parse (detectionsJson d) =
      (d.boxes.mapM DetectionBox.read).map fun values => .object (d.object values) := by
  have hparses : ∀ m ∈ d.members, Parses m.text m.result := by
    intro m hm
    simp only [members, List.mem_cons, List.not_mem_nil, or_false] at hm
    rcases hm with rfl | rfl | rfl | rfl
    · exact parses_decimal _
    · exact parses_decimal _
    · exact parses_decimal _
    · refine parses_array fun item hitem => ?_
      obtain ⟨b, -, rfl⟩ := List.mem_map.mp hitem
      exact b.parses
  have hitems : d.items.mapM Prod.snd = d.boxes.mapM DetectionBox.read := by
    rw [items, List.mapM_map]
    rfl
  rw [detectionsJson_eq, parse_object hparses, members, hitems]
  simp only [List.mapM_cons, List.mapM_nil, MemberText.member]
  cases d.boxes.mapM DetectionBox.read <;> rfl

end DetectionResult

/-- The boxes are read if all are finite. -/
theorem mapM_read (boxes : List DetectionBox) :
    (boxes.all DetectionBox.isFinite = true ∧
      ∃ values, boxes.mapM DetectionBox.read = some values ∧
        ∀ width height, values.map (drawObject width height) =
          boxes.map fun b => some (b.drawn width height)) ∨
      (boxes.all DetectionBox.isFinite = false ∧ boxes.mapM DetectionBox.read = none) := by
  induction boxes with
  | nil => exact .inl ⟨rfl, [], rfl, fun _ _ => rfl⟩
  | cons b boxes ih =>
    rw [List.all_cons, List.mapM_cons]
    rcases b.read_cases with ⟨hb, v, hv, hdraw⟩ | ⟨hb, hv⟩
    · rw [hb, hv, Bool.true_and]
      rcases ih with ⟨hall, values, hvalues, hdraws⟩ | ⟨hall, hvalues⟩
      · refine .inl ⟨hall, v :: values, by rw [hvalues]; rfl, fun width height => ?_⟩
        rw [List.map_cons, hdraw, hdraws, List.map_cons]
      · exact .inr ⟨hall, by rw [hvalues]; rfl⟩
    · exact .inr ⟨by rw [hb, Bool.false_and], by rw [hv]; rfl⟩

/-! ### Boxes are drawn -/

/-- A length on the canvas is off by half a millionth of the picture at most, and by what
doubles round off. -/
def Near (size : ℕ) (x drawn : ℚ) : Prop :=
  |drawn - x * size| ≤ size / 2 / 10 ^ 6 + (|x| + 1) * size / 2 ^ 50

theorem near_times (size : ℕ) (x : Single) : Near size x.value (times x.double size) := by
  rw [Near, times]
  rcases Nat.eq_zero_or_pos size with rfl | hpos
  · simp
  have hsize : (1 : ℚ) ≤ size := by exact_mod_cast hpos
  have hshown := x.abs_shown_sub_le
  have hdouble : |x.double - x.shown| ≤ (|x.shown| + 1) / 2 ^ 53 := abs_binary64_sub_le _
  have htimes := abs_binary64_sub_le (x.double * size)
  generalize binary64.nearest (x.double * size) = drawn at htimes ⊢
  generalize x.double = d at *
  generalize x.shown = s at *
  generalize x.value = v at *
  -- the numbers that are rounded are not much larger than the one that is meant
  have hs : |s| ≤ |v| + 1 := by
    have htri := abs_add_le (s - v) v
    rw [sub_add_cancel] at htri
    norm_num at hshown ⊢
    linarith
  have hd : |d| ≤ 2 * |v| + 3 := by
    have htri := abs_add_le (d - s) s
    rw [sub_add_cancel] at htri
    norm_num at hdouble
    linarith [abs_nonneg v]
  rw [abs_mul, abs_of_pos (by linarith : (0 : ℚ) < size)] at htimes
  have hrounded : |drawn - d * size| ≤ (|d| + 1) * size / 2 ^ 53 := by
    refine htimes.trans (div_le_div_of_nonneg_right ?_ (by positivity))
    linarith
  calc |drawn - v * size|
      = |drawn - d * size + (d - s) * size + (s - v) * size| := by congr 1; ring
    _ ≤ |drawn - d * size| + |d - s| * size + |s - v| * size := by
        refine (abs_add_le _ _).trans (add_le_add ((abs_add_le _ _).trans ?_) ?_)
        · rw [abs_mul (d - s), abs_of_pos (by linarith : (0 : ℚ) < size)]
        · rw [abs_mul, abs_of_pos (by linarith : (0 : ℚ) < size)]
    _ ≤ (|d| + 1) * size / 2 ^ 53 + (|s| + 1) / 2 ^ 53 * size + 1 / 2 / 10 ^ 6 * size := by
        have h₁ := mul_le_mul_of_nonneg_right hdouble (by linarith : (0 : ℚ) ≤ size)
        have h₂ := mul_le_mul_of_nonneg_right hshown (by linarith : (0 : ℚ) ≤ size)
        linarith
    _ ≤ size / 2 / 10 ^ 6 + (|v| + 1) * size / 2 ^ 50 := by
        have hsum : (|d| + 1) + (|s| + 1) ≤ 8 * (|v| + 1) := by linarith [abs_nonneg v]
        have hscaled := mul_le_mul_of_nonneg_right hsum (by positivity : (0 : ℚ) ≤ size / 2 ^ 53)
        linarith

/-- **Detections are drawn.**  If all floats of a result are finite the viewer draws its
boxes, each once and in their order, with their classes and within half a millionth of the
picture, up to what doubles round off; otherwise it refuses the text and draws none of
them. -/
theorem detections_drawn (d : DetectionResult) (width height : UInt32) :
    (parse (detectionsJson d)).map (drawBoxes width.toNat height.toNat) =
        (if d.boxes.all DetectionBox.isFinite then
          some (d.boxes.map fun b => some (b.drawn width.toNat height.toNat)) else none) ∧
      ∀ b ∈ d.boxes,
        let shape := b.drawn width.toNat height.toNat
        shape.label = classLabel b.classId ∧ Near width.toNat b.x.value shape.x ∧
          Near height.toNat b.y.value shape.y ∧ Near width.toNat b.w.value shape.width ∧
            Near height.toNat b.h.value shape.height := by
  refine ⟨?_, fun b _ => ⟨rfl, near_times _ _, near_times _ _, near_times _ _, near_times _ _⟩⟩
  rw [d.parseDetections]
  rcases mapM_read d.boxes with ⟨hall, values, hvalues, hdraws⟩ | ⟨hall, hvalues⟩
  · rw [hvalues, if_pos hall, ← hdraws]
    rfl
  · rw [hvalues, hall]
    rfl

/-! ### What the detector publishes -/

/-- A float for an exact number. -/
def Single.of (q : ℚ) : Single := .finite (decide (q < 0)) ⟨|q|, abs_nonneg q⟩

theorem Single.value_of (q : ℚ) : (Single.of q).value = q := by
  have hvalue : (Single.of q).value = (if decide (q < 0) = true then -1 else 1) * |q| := rfl
  rw [hvalue]
  by_cases h : q < 0
  · rw [if_pos (decide_eq_true h), abs_of_neg h, neg_one_mul, neg_neg]
  · rw [if_neg (by simpa using h), abs_of_nonneg (not_lt.mp h), one_mul]

/-- A published box, with floats. -/
def DetectionBox.of (b : Detections.DetectionBox) : DetectionBox :=
  ⟨b.classId, .of b.score, .of b.x, .of b.y, .of b.w, .of b.h⟩

/-- What the canvas shows for a published box. -/
structure Shows (width height : ℕ) (b : Detections.DetectionBox) (shape : Drawn) : Prop where
  label : shape.label = classLabel b.classId
  x : Near width b.x shape.x
  y : Near height b.y shape.y
  width : Near width b.w shape.width
  height : Near height b.h shape.height

theorem shows_drawn (width height : ℕ) (b : Detections.DetectionBox) :
    Shows width height b ((DetectionBox.of b).drawn width height) := by
  have hnear : ∀ (size : ℕ) (q : ℚ), Near size q (times (Single.of q).double size) := by
    intro size q
    have h := near_times size (.of q)
    rwa [Single.value_of] at h
  exact ⟨rfl, hnear _ _, hnear _ _, hnear _ _, hnear _ _⟩

/-- **The text of what the detector publishes is drawn.**  For every output of the
network, every rounding of the hook's operations and every picture, a page that receives
the text draws one frame for each kept box, in their order and in its place. -/
theorem published_drawn (fl : ℚ → ℚ) (conv : ℚ → ℕ) (SIZE_MAX : ℕ) (aiWidth aiHeight : ℤ)
    (out : Detections.NetworkOutput) (ptsMs frameWidth frameHeight : ℤ)
    (width height : UInt32) :
    ∃ shapes, (parse (detectionsJson ⟨ptsMs, frameWidth, frameHeight,
        (Detections.published fl conv SIZE_MAX aiWidth aiHeight out).map .of⟩)).map
          (drawBoxes width.toNat height.toNat) = some (shapes.map some) ∧
      shapes.length = (Detections.finalBoxes SIZE_MAX out).length ∧
      List.Forall₂ (Shows width.toNat height.toNat)
        (Detections.published fl conv SIZE_MAX aiWidth aiHeight out) shapes := by
  have hlength : (Detections.published fl conv SIZE_MAX aiWidth aiHeight out).length =
      (Detections.finalBoxes SIZE_MAX out).length := by
    have hle := @Detections.length_finalBoxes SIZE_MAX out
    simp only [Detections.published, Detections.getSvpRio, Detections.detectionHook,
      Option.map_some, Option.elim_some, List.length_map, List.length_take]
    omega
  generalize Detections.published fl conv SIZE_MAX aiWidth aiHeight out = boxes at *
  have hfinite : (boxes.map DetectionBox.of).all DetectionBox.isFinite = true := by
    rw [List.all_map]
    exact List.all_eq_true.mpr fun _ _ => rfl
  refine ⟨boxes.map fun b => (DetectionBox.of b).drawn width.toNat height.toNat, ?_,
    by rw [List.length_map, hlength], ?_⟩
  · rw [DetectionResult.parseDetections]
    rcases mapM_read (boxes.map .of) with ⟨-, values, hvalues, hdraws⟩ | ⟨hall, -⟩
    · have hdraws' := hdraws width.toNat height.toNat
      rw [List.map_map] at hdraws'
      rw [hvalues, Option.map_some, Option.map_some, drawBoxes, List.map_map]
      exact congrArg some hdraws'
    · exact absurd (hfinite.symm.trans hall) (by decide)
  · rw [List.forall₂_map_right_iff]
    exact List.forall₂_same.mpr fun b _ => shows_drawn _ _ b

end DetectionTexts

end IpcMini
