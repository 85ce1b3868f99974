/-
Drawing text into a canvas (`src/devices/hisi_3516cv610/font_renderer.cpp`).

A character is drawn as a rectangle of its own width over all rows of the area.
`show_string` draws a text from the left; `show_string_compare` draws, of a text that
takes the place of another one, the characters from the first difference on.

* `drawRgb1555Char`, `showString`, `showStringCompare` — the stores that the
  functions make, in their order;
* `textColor` — the colour of a pixel of a text;
* `paint_text_at`, `text_written` — what drawing a text stores, and where;
* **`redraw_iff`** — redrawing gives the canvas of the new text if and only if what the
  old text shows beyond it was there before.
-/
import Mathlib.Algebra.Order.BigOperators.Group.List
import Mathlib.Algebra.Order.Ring.Int
import Mathlib.Data.Int.Bitwise
import Mathlib.Tactic.Linarith
import IpcMini.Writes

namespace IpcMini

namespace FontRenderer

open Writes

/-! ### Characters -/

/-- What the renderer uses of an `FT_Bitmap`: `buffer` has the bytes from its start on. -/
structure FtBitmap where
  width : ℕ
  rows : ℕ
  buffer : ℤ → UInt8

/-- A `basic_char_t` without its key. -/
structure BasicChar where
  glyphOri : FtBitmap
  glyphOutline : FtBitmap
  top : ℤ
  w : ℤ

/-- A `wchar_t`. -/
abbrev Wchar := ℤ

/-- The area that the functions are given, and the colours. -/
structure Area where
  areaW : ℤ
  areaH : ℤ
  bgColor : ℤ
  fgColor : ℤ
  outlineColor : ℤ
  deriving DecidableEq, Repr

def SHOW_LEVEL : UInt8 := 5

/-- The store of a pixel, with the row that its address is computed for. -/
structure Store where
  row : ℤ
  offset : ℤ
  color : ℤ
  deriving DecidableEq, Repr

/-- The offset of the pixel in row `i` and column `x`. -/
def offset (a : Area) (i x : ℤ) : ℤ := i * a.areaW * 2 + x * 2

/-- A value as an `int32_t`. -/
def int32 (n : ℕ) : ℤ := Int.bmod n (2 ^ 32)

/-- Half of an `unsigned` difference. -/
def halfDifference (m n : ℕ) : ℤ := int32 (((m + 2 ^ 32 - n) % 2 ^ 32) >>> 1)

example : halfDifference 4 2 = 1 := by decide

/-- The colour over the background in row `i` and column `j` of a character. -/
def glyphColor (a : Area) (g : BasicChar) (i j : ℤ) : Option ℤ :=
  let orig := g.glyphOri
  let outline := g.glyphOutline
  let hOffset := halfDifference outline.width orig.width
  let vOffset := halfDifference outline.rows orig.rows
  let starty := g.top
  if j ≥ hOffset ∧ j < int32 orig.width + hOffset ∧ i ≥ starty + vOffset ∧
      i < int32 orig.rows + starty + vOffset then
    if orig.buffer ((i - starty - vOffset) * orig.width + j - hOffset) ≥ SHOW_LEVEL then
      some a.fgColor
    else if outline.buffer ((i - starty) * outline.width + j) ≥ SHOW_LEVEL then
      some a.outlineColor
    else none
  else none

/-- The body of the loops of `draw_rgb1555_char`. -/
def drawPixel (a : Area) (g : BasicChar) (startx i j : ℤ) : List Store :=
  let pdata := offset a i (startx + j)
  ⟨i, pdata, a.bgColor⟩ :: (glyphColor a g i j).toList.map fun color => ⟨i, pdata, color⟩

/-- `draw_rgb1555_char`. -/
def drawRgb1555Char (a : Area) (g : BasicChar) (startx : ℤ) : List Store :=
  (List.range a.areaH.toNat).flatMap fun i : ℕ =>
    (List.range g.w.toNat).flatMap fun j : ℕ => drawPixel a g startx i j

/-! ### Texts -/

section Texts

-- the lookup of a character at the font size of the text
variable (getGlyphChar : Wchar → Option BasicChar)

/-- The loop of `show_string`. -/
def showFrom (a : Area) (startx : ℤ) : List Wchar → List Store
  | [] => []
  | c :: wstr =>
    match getGlyphChar c with
    | none => showFrom a startx wstr
    | some charInfo =>
      drawRgb1555Char a charInfo startx ++
        if startx + charInfo.w > a.areaW then [] else showFrom a (startx + charInfo.w) wstr

/-- `show_string`, of a string that is decoded. -/
def showString (a : Area) (wstr : List Wchar) : List Store := showFrom getGlyphChar a 0 wstr

/-- The loop of `show_string_compare`. -/
def compareFrom (a : Area) (startx : ℤ) (drawChar : Bool) :
    List Wchar → List Wchar → List Store
  | before :: wstrBefore, cur :: wstrCur =>
    let drawChar := drawChar || decide (cur ≠ before)
    match getGlyphChar cur with
    | none => compareFrom a startx drawChar wstrBefore wstrCur
    | some charInfo =>
      (if drawChar then drawRgb1555Char a charInfo startx else []) ++
        compareFrom a (startx + charInfo.w) drawChar wstrBefore wstrCur
  | _, _ => []

/-- `show_string_compare`. -/
def showStringCompare (a : Area) (wstrBefore wstrCur : List Wchar) : Bool × List Store :=
  if wstrCur.length ≠ wstrBefore.length then (false, [])
  else (true, compareFrom getGlyphChar a 0 false wstrBefore wstrCur)

/-- How far a character moves the next one; one without a glyph is left out. -/
def advance (c : Wchar) : ℤ := (getGlyphChar c).elim 0 (·.w)

def width (wstr : List Wchar) : ℤ := (wstr.map (advance getGlyphChar)).sum

/-- All characters of a text, drawn one after the other. -/
def drawText (a : Area) (startx : ℤ) : List Wchar → List Store
  | [] => []
  | c :: wstr =>
    ((getGlyphChar c).elim [] fun g => drawRgb1555Char a g startx) ++
      drawText a (startx + advance getGlyphChar c) wstr

/-- The text has no negative width and fits into the area. -/
structure Fits (a : Area) (wstr : List Wchar) : Prop where
  nonneg : ∀ c ∈ wstr, 0 ≤ advance getGlyphChar c
  width_le : width getGlyphChar wstr ≤ a.areaW

end Texts

/-! ### What is stored where -/

/-- The address and the value of a store. -/
def Store.pair (s : Store) : ℤ × ℤ := (s.offset, s.color)

/-- The canvas, by the offsets of its pixels, after the stores. -/
def paint (canvas : ℤ → ℤ) (stores : List Store) : ℤ → ℤ := apply (stores.map Store.pair) canvas

theorem written_pairs {stores : List Store} {addr : ℤ} :
    Written (stores.map Store.pair) addr ↔ ∃ w ∈ stores, w.offset = addr := by
  constructor
  · rintro ⟨color, hcolor⟩
    obtain ⟨w, hw, heq⟩ := List.mem_map.mp hcolor
    exact ⟨w, hw, congrArg Prod.fst heq⟩
  · rintro ⟨w, hw, rfl⟩
    exact ⟨w.color, List.mem_map.mpr ⟨w, hw, rfl⟩⟩

/-- Two pixels whose columns are in the area do not share an offset. -/
theorem offset_inj {a : Area} {i x i' x' : ℤ} (hx : 0 ≤ x) (hxw : x < a.areaW)
    (hx' : 0 ≤ x') (hxw' : x' < a.areaW) (h : offset a i x = offset a i' x') :
    i = i' ∧ x = x' := by
  have hsum : x + i * a.areaW = x' + i' * a.areaW := by
    simp only [offset] at h
    omega
  -- the column is the remainder by the width, and the row then the quotient
  have hcol : x = x' := by
    have hmod := congrArg (· % a.areaW) hsum
    simpa only [Int.add_mul_emod_self_right, Int.emod_eq_of_lt hx hxw,
      Int.emod_eq_of_lt hx' hxw'] using hmod
  refine ⟨?_, hcol⟩
  have hrow : i * a.areaW = i' * a.areaW := by omega
  exact Int.eq_of_mul_eq_mul_right (by omega) hrow

/-- The colour of a pixel of a character. -/
def charColor (a : Area) (g : BasicChar) (i j : ℤ) : ℤ :=
  (glyphColor a g i j).getD a.bgColor

section Characters

variable {a : Area} {g : BasicChar} {startx i j : ℤ}

/-- Both stores of a pixel go to its place. -/
theorem pixel_stores {Q : ℤ → ℤ → Prop} :
    (∃ w ∈ drawPixel a g startx i j, Q w.row w.offset) ↔ Q i (offset a i (startx + j)) := by
  cases h : glyphColor a g i j <;> simp [drawPixel, h]

theorem written_pixel {addr : ℤ} :
    Written ((drawPixel a g startx i j).map Store.pair) addr ↔
      offset a i (startx + j) = addr := by
  rw [written_pairs, pixel_stores (Q := fun _ o => o = addr)]

theorem apply_pixel (canvas : ℤ → ℤ) :
    apply ((drawPixel a g startx i j).map Store.pair) canvas (offset a i (startx + j)) =
      charColor a g i j := by
  cases h : glyphColor a g i j <;> simp [drawPixel, h, Store.pair, charColor]

/-- The pairs of a character, as the loops store them. -/
theorem draw_pairs (a : Area) (g : BasicChar) (startx : ℤ) :
    (drawRgb1555Char a g startx).map Store.pair =
      (List.range a.areaH.toNat).flatMap fun i : ℕ =>
        (List.range g.w.toNat).flatMap fun j : ℕ =>
          (drawPixel a g startx i j).map Store.pair := by
  simp only [drawRgb1555Char, List.map_flatMap]

theorem row_stores {Q : ℤ → ℤ → Prop} {n : ℕ} :
    (∃ w ∈ (List.range n).flatMap fun j : ℕ => drawPixel a g startx i j, Q w.row w.offset) ↔
      ∃ j : ℤ, 0 ≤ j ∧ j < n ∧ Q i (offset a i (startx + j)) := by
  simp only [List.mem_flatMap]
  constructor
  · rintro ⟨w, ⟨j, hj, hw⟩, hQ⟩
    have hlt := List.mem_range.mp hj
    exact ⟨j, by omega, by omega, pixel_stores.mp ⟨w, hw, hQ⟩⟩
  · rintro ⟨j, hj, hlt, hQ⟩
    obtain ⟨j, rfl⟩ := Int.eq_ofNat_of_zero_le hj
    obtain ⟨w, hw, hQ⟩ := pixel_stores.mpr hQ
    exact ⟨w, ⟨j, List.mem_range.mpr (by omega), hw⟩, hQ⟩

/-- A character is stored in its columns, over all rows of the area. -/
theorem char_stores {Q : ℤ → ℤ → Prop} :
    (∃ w ∈ drawRgb1555Char a g startx, Q w.row w.offset) ↔
      ∃ i x : ℤ, 0 ≤ i ∧ i < a.areaH ∧ startx ≤ x ∧ x < startx + g.w ∧ Q i (offset a i x) := by
  constructor
  · rintro ⟨w, hw, hQ⟩
    obtain ⟨i, hi, hw⟩ := List.mem_flatMap.mp hw
    have hrow := List.mem_range.mp hi
    obtain ⟨j, hj, hlt, hQ⟩ := row_stores.mp ⟨w, hw, hQ⟩
    exact ⟨i, startx + j, by omega, by omega, by omega, by omega, hQ⟩
  · rintro ⟨i, x, hi, hrow, hx, hlt, hQ⟩
    obtain ⟨i, rfl⟩ := Int.eq_ofNat_of_zero_le hi
    rw [show x = startx + (x - startx) by omega] at hQ
    obtain ⟨w, hw, hQ⟩ := (row_stores (n := g.w.toNat)).mpr ⟨x - startx, by omega, by omega, hQ⟩
    exact ⟨w, List.mem_flatMap.mpr ⟨i, List.mem_range.mpr (by omega), hw⟩, hQ⟩

/-- A character inside the area gives each of its pixels its colour. -/
theorem apply_char (canvas : ℤ → ℤ) (hstart : 0 ≤ startx) (hfits : startx + g.w ≤ a.areaW)
    (hi : 0 ≤ i) (hrow : i < a.areaH) (hj : 0 ≤ j) (hcol : j < g.w) :
    apply ((drawRgb1555Char a g startx).map Store.pair) canvas (offset a i (startx + j)) =
      charColor a g i j := by
  obtain ⟨i, rfl⟩ := Int.eq_ofNat_of_zero_le hi
  obtain ⟨j, rfl⟩ := Int.eq_ofNat_of_zero_le hj
  rw [draw_pairs]
  -- of the rows only its own one stores there, and of that one only its own column
  rw [apply_flatMap_single List.nodup_range (i := i) (List.mem_range.mpr (by omega)),
    apply_flatMap_single List.nodup_range (i := j) (List.mem_range.mpr (by omega))]
  · exact apply_pixel canvas
  · intro k hk hne hwritten
    have hlt := List.mem_range.mp hk
    obtain ⟨-, hcolumn⟩ := offset_inj (by omega) (by omega) (by omega) (by omega)
      (written_pixel.mp hwritten)
    omega
  · intro k _ hne hwritten
    obtain ⟨l, hl, hwritten⟩ := written_flatMap.mp hwritten
    have hlt := List.mem_range.mp hl
    obtain ⟨hsame, -⟩ := offset_inj (by omega) (by omega) (by omega) (by omega)
      (written_pixel.mp hwritten)
    omega

end Characters

/-! ### Texts on the canvas -/

section Painting

variable {getGlyphChar : Wchar → Option BasicChar} {a : Area}

theorem width_nonneg {wstr : List Wchar} (h : ∀ c ∈ wstr, 0 ≤ advance getGlyphChar c) :
    0 ≤ width getGlyphChar wstr := by
  refine List.sum_nonneg fun w hw => ?_
  obtain ⟨c, hc, rfl⟩ := List.mem_map.mp hw
  exact h c hc

@[simp] theorem width_cons (c : Wchar) (wstr : List Wchar) :
    width getGlyphChar (c :: wstr) = advance getGlyphChar c + width getGlyphChar wstr := by
  simp [width]

theorem width_append (p wstr : List Wchar) :
    width getGlyphChar (p ++ wstr) = width getGlyphChar p + width getGlyphChar wstr := by
  simp [width]

variable (getGlyphChar) in
/-- The colour of the pixel in row `i` and column `x` of a text, if it has one. -/
def textColor (a : Area) : List Wchar → ℤ → ℤ → Option ℤ
  | [], _, _ => none
  | c :: wstr, i, x =>
    if x < advance getGlyphChar c then (getGlyphChar c).map fun g => charColor a g i x
    else textColor a wstr i (x - advance getGlyphChar c)

theorem textColor_append {p : List Wchar} (hp : ∀ c ∈ p, 0 ≤ advance getGlyphChar c)
    (wstr : List Wchar) {i x : ℤ} (hx : width getGlyphChar p ≤ x) :
    textColor getGlyphChar a (p ++ wstr) i x =
      textColor getGlyphChar a wstr i (x - width getGlyphChar p) := by
  induction p generalizing x with
  | nil => simp [width]
  | cons c p ih =>
    obtain ⟨hc, hrest⟩ := List.forall_mem_cons.mp hp
    have hwidth := width_nonneg hrest
    rw [width_cons] at hx ⊢
    rw [List.cons_append, textColor, if_neg (by omega), ih hrest (by omega)]
    congr 1
    omega

theorem drawText_append (p wstr : List Wchar) (x : ℤ) :
    drawText getGlyphChar a x (p ++ wstr) =
      drawText getGlyphChar a x p ++
        drawText getGlyphChar a (x + width getGlyphChar p) wstr := by
  induction p generalizing x with
  | nil => simp [drawText, width]
  | cons c p ih =>
    rw [List.cons_append, drawText, drawText, ih, width_cons, List.append_assoc, Int.add_assoc]

/-- The stores of a text that begins with `c`. -/
theorem drawText_pairs (c : Wchar) (wstr : List Wchar) (x : ℤ) :
    (drawText getGlyphChar a x (c :: wstr)).map Store.pair =
      ((getGlyphChar c).elim [] fun g => (drawRgb1555Char a g x).map Store.pair) ++
        (drawText getGlyphChar a (x + advance getGlyphChar c) wstr).map Store.pair := by
  rw [drawText, List.map_append]
  cases getGlyphChar c <;> rfl

/-- A text is stored in its columns, over all rows of the area. -/
theorem text_stores {Q : ℤ → ℤ → Prop} {wstr : List Wchar}
    (h : ∀ c ∈ wstr, 0 ≤ advance getGlyphChar c) {startx : ℤ} :
    (∃ w ∈ drawText getGlyphChar a startx wstr, Q w.row w.offset) ↔
      ∃ i x : ℤ, 0 ≤ i ∧ i < a.areaH ∧ startx ≤ x ∧ x < startx + width getGlyphChar wstr ∧
        Q i (offset a i x) := by
  induction wstr generalizing startx with
  | nil =>
    refine iff_of_false (by simp [drawText]) ?_
    rintro ⟨i, x, -, -, hx, hlt, -⟩
    simp only [width, List.map_nil, List.sum_nil] at hlt
    omega
  | cons c wstr ih =>
    obtain ⟨hc, hrest⟩ := List.forall_mem_cons.mp h
    have hwidth := width_nonneg hrest
    -- the columns of the first character; without a glyph there are none
    have hfirst : (∃ w ∈ (getGlyphChar c).elim [] fun g => drawRgb1555Char a g startx,
          Q w.row w.offset) ↔
        ∃ i x : ℤ, 0 ≤ i ∧ i < a.areaH ∧ startx ≤ x ∧
          x < startx + advance getGlyphChar c ∧ Q i (offset a i x) := by
      cases hg : getGlyphChar c with
      | none =>
        refine iff_of_false (by simp) ?_
        rintro ⟨i, x, -, -, hx, hlt, -⟩
        simp only [advance, hg, Option.elim_none] at hlt
        omega
      | some g => simpa [advance, hg] using char_stores
    simp only [drawText, List.mem_append, or_and_right, exists_or]
    rw [hfirst, ih hrest, width_cons]
    constructor
    · rintro (⟨i, x, hi, hrow, hx, hlt, hQ⟩ | ⟨i, x, hi, hrow, hx, hlt, hQ⟩)
      · exact ⟨i, x, hi, hrow, hx, by omega, hQ⟩
      · exact ⟨i, x, hi, hrow, by omega, by omega, hQ⟩
    · rintro ⟨i, x, hi, hrow, hx, hlt, hQ⟩
      by_cases hin : x < startx + advance getGlyphChar c
      · exact .inl ⟨i, x, hi, hrow, hx, hin, hQ⟩
      · exact .inr ⟨i, x, hi, hrow, by omega, by omega, hQ⟩

theorem text_written {wstr : List Wchar} (h : ∀ c ∈ wstr, 0 ≤ advance getGlyphChar c)
    {startx addr : ℤ} :
    Written ((drawText getGlyphChar a startx wstr).map Store.pair) addr ↔
      ∃ i x : ℤ, 0 ≤ i ∧ i < a.areaH ∧ startx ≤ x ∧ x < startx + width getGlyphChar wstr ∧
        offset a i x = addr := by
  rw [written_pairs, text_stores (Q := fun _ o => o = addr) h]

/-- A text inside the area gives each of its pixels the colour that it has there. -/
theorem apply_text (canvas : ℤ → ℤ) {wstr : List Wchar}
    (h : ∀ c ∈ wstr, 0 ≤ advance getGlyphChar c) {startx i x : ℤ} (hstart : 0 ≤ startx)
    (hfits : startx + width getGlyphChar wstr ≤ a.areaW) (hi : 0 ≤ i) (hrow : i < a.areaH)
    (hx : 0 ≤ x) (hcol : x < width getGlyphChar wstr) :
    textColor getGlyphChar a wstr i x =
      some (apply ((drawText getGlyphChar a startx wstr).map Store.pair) canvas
        (offset a i (startx + x))) := by
  induction wstr generalizing canvas startx x with
  | nil =>
    simp only [width, List.map_nil, List.sum_nil] at hcol
    omega
  | cons c wstr ih =>
    obtain ⟨hc, hrest⟩ := List.forall_mem_cons.mp h
    have hwidth := width_nonneg hrest
    rw [width_cons] at hfits hcol
    rw [drawText_pairs, apply_append, textColor]
    by_cases hin : x < advance getGlyphChar c
    · -- the characters after the first one are stored to the right of the pixel
      have hlater : ¬Written ((drawText getGlyphChar a
          (startx + advance getGlyphChar c) wstr).map Store.pair) (offset a i (startx + x)) := by
        intro hwritten
        obtain ⟨k, y, -, -, hy, hlt, haddr⟩ := (text_written hrest).mp hwritten
        obtain ⟨-, hsame⟩ := offset_inj (by omega) (by omega) (by omega) (by omega) haddr
        omega
      rw [if_pos hin, apply_frame hlater]
      cases hg : getGlyphChar c with
      | none =>
        simp only [advance, hg, Option.elim_none] at hin
        omega
      | some g =>
        simp only [advance, hg, Option.elim_some] at hin hfits
        rw [Option.elim_some, apply_char canvas hstart (by omega) hi hrow hx hin, Option.map_some]
    · have hlater : startx + advance getGlyphChar c + (x - advance getGlyphChar c) =
          startx + x := by omega
      have hrest_color := ih (apply (((getGlyphChar c).elim [] fun g =>
          (drawRgb1555Char a g startx).map Store.pair)) canvas) hrest
        (show 0 ≤ startx + advance getGlyphChar c by omega) (by omega)
        (show 0 ≤ x - advance getGlyphChar c by omega) (by omega)
      rw [if_neg hin, hrest_color, hlater]

/-- A text that fits is shown whole. -/
theorem showFrom_fits {wstr : List Wchar} (h : ∀ c ∈ wstr, 0 ≤ advance getGlyphChar c)
    {startx : ℤ} (hfits : startx + width getGlyphChar wstr ≤ a.areaW) :
    showFrom getGlyphChar a startx wstr = drawText getGlyphChar a startx wstr := by
  induction wstr generalizing startx with
  | nil => rfl
  | cons c wstr ih =>
    obtain ⟨hc, hrest⟩ := List.forall_mem_cons.mp h
    have hwidth := width_nonneg hrest
    rw [width_cons] at hfits
    cases hg : getGlyphChar c with
    | none =>
      simp only [advance, hg, Option.elim_none] at hfits
      rw [showFrom, drawText, hg, Option.elim_none, List.nil_append, advance, hg,
        Option.elim_none, Int.add_zero]
      exact ih hrest (by omega)
    | some g =>
      -- the text fits, so that the loop does not break
      simp only [advance, hg, Option.elim_some] at hfits
      have hbreak : ¬startx + g.w > a.areaW := by omega
      rw [showFrom, drawText, hg, Option.elim_some, advance, hg, Option.elim_some]
      simp only [if_neg hbreak]
      rw [ih hrest (by omega)]

/-- After the first difference all characters are drawn. -/
theorem compareFrom_drawing {wstrBefore wstrCur : List Wchar}
    (hlen : wstrCur.length = wstrBefore.length) (startx : ℤ) :
    compareFrom getGlyphChar a startx true wstrBefore wstrCur =
      drawText getGlyphChar a startx wstrCur := by
  induction wstrCur generalizing wstrBefore startx with
  | nil => cases wstrBefore <;> rfl
  | cons cur wstrCur ih =>
    rcases wstrBefore with _ | ⟨before, wstrBefore⟩
    · simp at hlen
    have hrest := ih (show wstrCur.length = wstrBefore.length by simpa using hlen)
    cases hg : getGlyphChar cur <;>
      simp [compareFrom, drawText, advance, hg, hrest]

/-- The common beginning of two texts, and what is left of each. -/
def splitCommon : List Wchar → List Wchar → List Wchar × List Wchar × List Wchar
  | before :: wstrBefore, cur :: wstrCur =>
    if cur = before then
      let rest := splitCommon wstrBefore wstrCur
      (cur :: rest.1, rest.2)
    else ([], before :: wstrBefore, cur :: wstrCur)
  | wstrBefore, wstrCur => ([], wstrBefore, wstrCur)

theorem splitCommon_eq (wstrBefore wstrCur : List Wchar) :
    wstrBefore = (splitCommon wstrBefore wstrCur).1 ++
        (splitCommon wstrBefore wstrCur).2.1 ∧
      wstrCur = (splitCommon wstrBefore wstrCur).1 ++
        (splitCommon wstrBefore wstrCur).2.2 := by
  fun_induction splitCommon wstrBefore wstrCur with
  | case1 wstrBefore cur wstrCur rest ih =>
    exact ⟨congrArg (cur :: ·) ih.1, congrArg (cur :: ·) ih.2⟩
  | case2 before wstrBefore cur wstrCur hne => exact ⟨rfl, rfl⟩
  | case3 wstrBefore wstrCur hnil => exact ⟨rfl, rfl⟩

/-- What `show_string_compare` draws: the text from the first difference on. -/
theorem compareFrom_split {wstrBefore wstrCur : List Wchar}
    (hlen : wstrCur.length = wstrBefore.length) (startx : ℤ) :
    compareFrom getGlyphChar a startx false wstrBefore wstrCur =
      drawText getGlyphChar a
        (startx + width getGlyphChar (splitCommon wstrBefore wstrCur).1)
        (splitCommon wstrBefore wstrCur).2.2 := by
  induction wstrCur generalizing wstrBefore startx with
  | nil => cases wstrBefore <;> simp [compareFrom, splitCommon, drawText]
  | cons cur wstrCur ih =>
    rcases wstrBefore with _ | ⟨before, wstrBefore⟩
    · simp at hlen
    have hrest : wstrCur.length = wstrBefore.length := by simpa using hlen
    by_cases hsame : cur = before
    · subst hsame
      cases hg : getGlyphChar cur with
      | none =>
        simp only [compareFrom, hg, splitCommon, if_true, ne_eq, not_true_eq_false,
          decide_false, Bool.or_false, width_cons, advance, Option.elim_none, Int.zero_add]
        exact ih hrest startx
      | some g =>
        simp only [compareFrom, hg, splitCommon, if_true, ne_eq, not_true_eq_false,
          decide_false, Bool.or_false, width_cons, advance, Option.elim_some]
        rw [if_neg (by simp), List.nil_append, ih hrest, Int.add_assoc]
    · -- the rest of the text is drawn, with this character first
      have hdraw : compareFrom getGlyphChar a startx true (before :: wstrBefore)
          (cur :: wstrCur) = drawText getGlyphChar a startx (cur :: wstrCur) :=
        compareFrom_drawing hlen startx
      simp only [splitCommon, if_neg hsame, width, List.map_nil, List.sum_nil, Int.add_zero]
      rw [← hdraw]
      simp [compareFrom, hsame]

variable (getGlyphChar a) in
/-- The pixels that only the old text reaches had, in the canvas, the colours that the
old text has there. -/
def Blends (before now : List Wchar) (canvas : ℤ → ℤ) : Prop :=
  ∀ i x, 0 ≤ i → i < a.areaH → width getGlyphChar now ≤ x → x < width getGlyphChar before →
    textColor getGlyphChar a before i x = some (canvas (offset a i x))

/-- The pixels of two rests behind the same beginning `p`: what the old rest leaves
beside the new one. -/
theorem blends_iff {p b n : List Wchar} (hb : Fits getGlyphChar a (p ++ b))
    (hn : Fits getGlyphChar a (p ++ n)) (canvas : ℤ → ℤ) :
    let base := paint canvas (drawText getGlyphChar a 0 p)
    let old := (drawText getGlyphChar a (width getGlyphChar p) b).map Store.pair
    let new := (drawText getGlyphChar a (width getGlyphChar p) n).map Store.pair
    Blends getGlyphChar a (p ++ b) (p ++ n) canvas ↔
      ∀ addr, Written old addr → ¬Written new addr → apply old base addr = base addr := by
  intro base old new
  obtain ⟨hpos, hbpos⟩ := List.forall_mem_append.mp hb.nonneg
  obtain ⟨-, hnpos⟩ := List.forall_mem_append.mp hn.nonneg
  have hp0 := width_nonneg hpos
  have hn0 := width_nonneg hnpos
  have hbw := hb.width_le
  have hnw := hn.width_le
  rw [width_append] at hbw hnw
  -- the colours of the old rest, and what the beginning leaves alone
  have hold : ∀ i x, 0 ≤ i → i < a.areaH → width getGlyphChar p ≤ x →
      x < width getGlyphChar p + width getGlyphChar b →
      textColor getGlyphChar a (p ++ b) i x = some (apply old base (offset a i x)) := by
    intro i x hi hrow hx hlt
    rw [textColor_append hpos b hx,
      apply_text base hbpos hp0 (by omega) hi hrow (by omega) (by omega)]
    rw [show width getGlyphChar p + (x - width getGlyphChar p) = x by omega]
  have hbase : ∀ i x, width getGlyphChar p ≤ x → x < a.areaW →
      base (offset a i x) = canvas (offset a i x) := by
    intro i x hx hlt
    refine apply_frame fun hwritten => ?_
    obtain ⟨k, y, -, -, hy, hylt, haddr⟩ := (text_written hpos).mp hwritten
    obtain ⟨-, hsame⟩ := offset_inj (by omega) (by omega) (by omega) (by omega) haddr
    omega
  constructor
  · -- an address that only the old rest writes is a pixel beyond the new text
    intro hblend addr hwritten hnew
    obtain ⟨i, x, hi, hrow, hx, hlt, rfl⟩ := (text_written hbpos).mp hwritten
    have hbeyond : width getGlyphChar (p ++ n) ≤ x := by
      rw [width_append]
      by_contra hin
      exact hnew ((text_written hnpos).mpr ⟨i, x, hi, hrow, hx, by omega, rfl⟩)
    have hsame := hblend i x hi hrow hbeyond (by rw [width_append]; exact hlt)
    rw [hold i x hi hrow hx hlt] at hsame
    rw [hbase i x hx (by omega)]
    exact Option.some_inj.mp hsame
  · intro hrest i x hi hrow hbeyond hlt
    rw [width_append] at hbeyond hlt
    have hnew : ¬Written new (offset a i x) := by
      intro hwritten
      obtain ⟨k, y, -, -, hy, hylt, haddr⟩ := (text_written hnpos).mp hwritten
      obtain ⟨-, hsame⟩ := offset_inj (by omega) (by omega) (by omega) (by omega) haddr
      omega
    have hwritten : Written old (offset a i x) :=
      (text_written hbpos).mpr ⟨i, x, hi, hrow, by omega, by omega, rfl⟩
    rw [hold i x hi hrow (by omega) (by omega), hrest _ hwritten hnew,
      hbase i x (by omega) (by omega)]

end Painting

/-- **Redrawing** `now` over `before` gives the canvas of `now` if and only if the columns
that only `before` reaches had its colours already. -/
theorem redraw_iff (getGlyphChar : Wchar → Option BasicChar) (a : Area)
    (before now : List Wchar) (canvas : ℤ → ℤ) (hlen : now.length = before.length)
    (hbefore : Fits getGlyphChar a before) (hnow : Fits getGlyphChar a now) :
    paint (paint canvas (showString getGlyphChar a before))
          (showStringCompare getGlyphChar a before now).2 =
        paint canvas (showString getGlyphChar a now) ↔
      Blends getGlyphChar a before now canvas := by
  have hshow : ∀ {wstr}, Fits getGlyphChar a wstr →
      showString getGlyphChar a wstr = drawText getGlyphChar a 0 wstr := fun h =>
    showFrom_fits h.nonneg (by rw [Int.zero_add]; exact h.width_le)
  have hcompare : (showStringCompare getGlyphChar a before now).2 =
      compareFrom getGlyphChar a 0 false before now := by
    rw [showStringCompare, if_neg (not_not_intro hlen)]
  rw [hshow hbefore, hshow hnow, hcompare, compareFrom_split hlen, Int.zero_add]
  obtain ⟨hb, hn⟩ := splitCommon_eq before now
  generalize (splitCommon before now).1 = p at *
  generalize (splitCommon before now).2.1 = b at *
  generalize (splitCommon before now).2.2 = n at *
  subst hb hn
  -- both canvases have the common beginning; the old rest is drawn in between
  have hdraw : ∀ wstr, paint canvas (drawText getGlyphChar a 0 (p ++ wstr)) =
      paint (paint canvas (drawText getGlyphChar a 0 p))
        (drawText getGlyphChar a (width getGlyphChar p) wstr) := fun wstr => by
    rw [drawText_append, Int.zero_add, paint, List.map_append, apply_append]
    rfl
  rw [hdraw b, hdraw n]
  exact (apply_absorbed_iff _ _ _).trans (blends_iff hbefore hnow canvas).symm

/-- A font whose `1` is narrower than its other characters: a glyph of two by two pixels,
the first one empty, in an outline of four by four. -/
def strokedFont (c : Wchar) : Option BasicChar :=
  some ⟨⟨2, 2, fun k => if k = 0 then 0 else 255⟩, ⟨4, 4, fun _ => 255⟩, 0, if c = 49 then 3 else 4⟩

def smallArea : Area := ⟨64, 4, 0, 0x7fff, 0x1f⟩

-- the second row of `71`: the outline shows where the glyph is empty
example : (List.range 8).map (fun x : ℕ => textColor strokedFont smallArea [55, 49] 1 x) =
    [some 0, some 0x1f, some 0x7fff, some 0, some 0, some 0x1f, some 0x7fff, none] := by
  decide

/-- Redrawing `77` over `71` leaves nothing of the `1`. -/
theorem wider_redraw :
    paint (paint (fun _ => -1) (showString strokedFont smallArea [55, 49]))
        (showStringCompare strokedFont smallArea [55, 49] [55, 55]).2 =
      paint (fun _ => -1) (showString strokedFont smallArea [55, 55]) := by
  refine (redraw_iff strokedFont smallArea [55, 49] [55, 55] (fun _ => -1) rfl
    ⟨?_, ?_⟩ ⟨?_, ?_⟩).mpr ?_
  · simp [advance, strokedFont]
  · decide
  · simp [advance, strokedFont]
  · decide
  · intro i x _ _ hx hlt
    simp [width, advance, strokedFont] at hx hlt
    omega

/-- Redrawing `71` over `77` leaves the last column of the second `7`. -/
theorem narrower_redraw :
    Fits strokedFont smallArea [55, 55] ∧ Fits strokedFont smallArea [55, 49] ∧
      paint (paint (fun _ => -1) (showString strokedFont smallArea [55, 55]))
          (showStringCompare strokedFont smallArea [55, 55] [55, 49]).2 ≠
        paint (fun _ => -1) (showString strokedFont smallArea [55, 49]) := by
  refine ⟨⟨by simp [advance, strokedFont], by decide⟩,
    ⟨by simp [advance, strokedFont], by decide⟩, fun heq => ?_⟩
  have hcolumn := congrFun heq 14
  revert hcolumn
  decide +kernel

end FontRenderer

end IpcMini
