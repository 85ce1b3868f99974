/-
The date on the picture (`src/devices/hisi_3516cv610/dev_osd.cpp`).

`osd_date::start` measures one date and fixes the area by it; every refresh draws the
date of its time into that area, the first one whole and the later ones from the first
character that differs.

* `get_width`, `ROUND_UP`, `start`, `refresh` — as in the source;
* `InPlace` — a store is in the canvas and in the row that it is computed for;
* `draw_in_place_iff`, `show_in_place_iff` — when the stores of a text are;
* **`refreshes_in_place_iff`** — all stores of a run are in place if and only if no
  refresh that draws something has a date wider than the area.
-/
import Mathlib.Tactic.Ring
import IpcMini.Buffers
import IpcMini.FontRenderer
import IpcMini.Run

namespace IpcMini

namespace OsdDate

open FontRenderer Interleaving

def ROUND_UP (size align : ℤ) : ℤ := Int.land (size + (align - 1)) (Int.lnot (align - 1))

/-- The loop of `FontRenderer::get_width`: a character that has no glyph counts what
`char_info` was left with. -/
def getWidthFrom (getGlyphChar : Wchar → Option BasicChar) (w charInfoW : ℤ) :
    List Wchar → ℤ
  | [] => w
  | c :: wstr =>
    let charInfoW := (getGlyphChar c).elim charInfoW (·.w)
    getWidthFrom getGlyphChar (w + charInfoW) charInfoW wstr

/-- The overlay of an `osd_date` and its last date. -/
structure Osd where
  overlay : Area
  mLastDateStr : List Wchar

/-- `osd_date::start`; `charInfoW` is what the variable of `get_width` begins with. -/
def start (getGlyphChar : Wchar → Option BasicChar) (charInfoW mFontSize : ℤ)
    (mFontBgColor mFontFgColor mFontOutlineColor : ℤ) (dataStr : List Wchar) : Osd where
  overlay :=
    { areaW := ROUND_UP (getWidthFrom getGlyphChar 0 charInfoW dataStr) 64
      areaH := ROUND_UP (mFontSize + 4) 2
      bgColor := mFontBgColor
      fgColor := mFontFgColor
      outlineColor := mFontOutlineColor }
  mLastDateStr := []

/-- One refresh of `osd_date::on_refresh`: its stores, and the state after it. -/
def refresh (getGlyphChar : Wchar → Option BasicChar) (s : Osd)
    (curOsdDateStr : List Wchar) : List Store × Osd :=
  let stores :=
    if s.mLastDateStr.length = 0 then showString getGlyphChar s.overlay curOsdDateStr
    else (showStringCompare getGlyphChar s.overlay s.mLastDateStr curOsdDateStr).2
  (stores, { s with mLastDateStr := curOsdDateStr })

def step (getGlyphChar : Wchar → Option BasicChar) (s : Osd) (cur : List Wchar) : Option Osd :=
  some (refresh getGlyphChar s cur).2

/-! ### Stores in place -/

/-- The `data_size` of the area. -/
def dataSize (a : Area) : ℤ := a.areaW * a.areaH * 2

/-- The store is in the canvas, and in its row. -/
structure InPlace (a : Area) (row offset : ℤ) : Prop where
  nonneg : 0 ≤ offset
  in_canvas : offset + 2 ≤ dataSize a
  row_start : row * a.areaW * 2 ≤ offset
  row_end : offset + 2 ≤ (row + 1) * a.areaW * 2

/-- A pixel is in place if and only if its column is in the area. -/
theorem offset_in_place_iff {a : Area} {i x : ℤ} (hi : 0 ≤ i) (hrow : i < a.areaH) (hx : 0 ≤ x) :
    InPlace a i (offset a i x) ↔ x < a.areaW := by
  have hnext : (i + 1) * a.areaW * 2 = i * a.areaW * 2 + a.areaW * 2 := by ring
  constructor
  · intro h
    have hend := h.row_end
    rw [hnext, offset] at hend
    omega
  · intro hlt
    have hbefore : 0 ≤ i * a.areaW := Int.mul_nonneg hi (by omega)
    have hrows : (i + 1) * a.areaW ≤ a.areaH * a.areaW :=
      Int.mul_le_mul_of_nonneg_right (by omega) (by omega)
    have hsize : dataSize a = a.areaH * a.areaW * 2 := by rw [dataSize, Int.mul_comm a.areaW]
    refine ⟨?_, ?_, ?_, ?_⟩ <;> simp only [offset, hsize] <;> omega

section Texts

variable {getGlyphChar : Wchar → Option BasicChar} {a : Area}

/-- A text drawn from a column on is in place if it ends in the area, or has no pixels. -/
theorem draw_in_place_iff {wstr : List Wchar} (h : ∀ c ∈ wstr, 0 ≤ advance getGlyphChar c)
    {startx : ℤ} (hstart : 0 ≤ startx) :
    (∀ w ∈ drawText getGlyphChar a startx wstr, InPlace a w.row w.offset) ↔
      (0 < a.areaH → 0 < width getGlyphChar wstr →
        startx + width getGlyphChar wstr ≤ a.areaW) := by
  have hstray : (∃ w ∈ drawText getGlyphChar a startx wstr, ¬InPlace a w.row w.offset) ↔
      ∃ i x : ℤ, 0 ≤ i ∧ i < a.areaH ∧ startx ≤ x ∧ x < startx + width getGlyphChar wstr ∧
        ¬InPlace a i (offset a i x) := text_stores (Q := fun i o => ¬InPlace a i o) h
  constructor
  · intro hall hh hw
    by_contra hwide
    -- the last pixel of the first row is beyond the area
    have hout : ¬InPlace a 0 (offset a 0 (startx + width getGlyphChar wstr - 1)) := by
      rw [offset_in_place_iff (Int.le_refl 0) hh (by omega)]
      omega
    obtain ⟨w, hw, hbad⟩ := hstray.mpr ⟨0, startx + width getGlyphChar wstr - 1,
      Int.le_refl 0, hh, by omega, by omega, hout⟩
    exact hbad (hall w hw)
  · intro hfits w hw
    by_contra hbad
    obtain ⟨i, x, hi, hrow, hx, hlt, hout⟩ := hstray.mp ⟨w, hw, hbad⟩
    have hend := hfits (by omega) (by omega)
    exact hout ((offset_in_place_iff hi hrow (by omega)).mpr (by omega))

/-- `show_string` stops too late: what it draws of a text that does not fit ends beyond
the area. -/
theorem show_in_place_iff {wstr : List Wchar} (h : ∀ c ∈ wstr, 0 ≤ advance getGlyphChar c)
    {startx : ℤ} (hstart : 0 ≤ startx) (hin : startx ≤ a.areaW) :
    (∀ w ∈ showFrom getGlyphChar a startx wstr, InPlace a w.row w.offset) ↔
      (0 < a.areaH → 0 < width getGlyphChar wstr →
        startx + width getGlyphChar wstr ≤ a.areaW) := by
  induction wstr generalizing startx with
  | nil => simp [showFrom, width]
  | cons c wstr ih =>
    obtain ⟨hc, hrest⟩ := List.forall_mem_cons.mp h
    have hwidth := width_nonneg hrest
    rw [width_cons]
    cases hg : getGlyphChar c with
    | none =>
      simp only [showFrom, hg, advance, Option.elim_none, Int.zero_add]
      exact ih hrest hstart hin
    | some g =>
      have hadvance : advance getGlyphChar c = g.w := by simp [advance, hg]
      rw [hadvance] at hc ⊢
      -- the character alone
      have hone : ∀ d ∈ [c], 0 ≤ advance getGlyphChar d := by simp [hadvance, hc]
      have hchar := draw_in_place_iff (a := a) hone hstart
      simp only [drawText, hg, Option.elim_some, List.append_nil, width, List.map_cons,
        List.map_nil, List.sum_cons, List.sum_nil, hadvance, Int.add_zero] at hchar
      simp only [showFrom, hg, List.forall_mem_append]
      rw [hchar]
      split
      · -- the loop breaks behind the character
        simp only [List.not_mem_nil, false_imp_iff, implies_true, and_true]
        constructor
        · intro hfits hh _
          have := hfits hh (by omega)
          omega
        · intro hfits hh hw
          have := hfits hh (by omega)
          omega
      · rw [ih hrest (by omega) (by omega)]
        constructor
        · rintro ⟨hfits, hlater⟩ hh _
          rcases Int.lt_or_le 0 (width getGlyphChar wstr) with hpos | hzero
          · have := hlater hh hpos
            omega
          · omega
        · intro hfits
          refine ⟨fun _ _ => by omega, fun hh hpos => ?_⟩
          have := hfits hh (by omega)
          omega

/-- The characters that a refresh draws. -/
def redrawn (s : Osd) (cur : List Wchar) : List Wchar :=
  if s.mLastDateStr = [] then cur
  else if cur.length = s.mLastDateStr.length then (splitCommon s.mLastDateStr cur).2.2
  else []

/-- The stores of a refresh are in place if what it draws ends in the area, or has no
pixels. -/
theorem refresh_in_place_iff (h : ∀ c, 0 ≤ advance getGlyphChar c) {s : Osd}
    (harea : 0 ≤ s.overlay.areaW) (cur : List Wchar) :
    (∀ w ∈ (refresh getGlyphChar s cur).1, InPlace s.overlay w.row w.offset) ↔
      (0 < s.overlay.areaH → 0 < width getGlyphChar (redrawn s cur) →
        width getGlyphChar cur ≤ s.overlay.areaW) := by
  rcases eq_or_ne s.mLastDateStr [] with hfirst | hlater
  · -- the first date is drawn by `show_string`
    have hcur : ∀ c ∈ cur, 0 ≤ advance getGlyphChar c := fun c _ => h c
    have hshow := show_in_place_iff hcur (Int.le_refl 0) harea
    rw [Int.zero_add] at hshow
    simpa [refresh, redrawn, hfirst, showString] using hshow
  · have hlast : s.mLastDateStr.length ≠ 0 := by simpa using hlater
    by_cases hlen : cur.length = s.mLastDateStr.length
    · obtain ⟨-, hcur⟩ := splitCommon_eq s.mLastDateStr cur
      have hwidth : width getGlyphChar cur =
          width getGlyphChar (splitCommon s.mLastDateStr cur).1 +
            width getGlyphChar (splitCommon s.mLastDateStr cur).2.2 := by
        conv_lhs => rw [hcur, width_append]
      have hsame : ∀ c ∈ (splitCommon s.mLastDateStr cur).1,
          0 ≤ advance getGlyphChar c := fun c _ => h c
      have hrest : ∀ c ∈ (splitCommon s.mLastDateStr cur).2.2,
          0 ≤ advance getGlyphChar c := fun c _ => h c
      have hdraw := draw_in_place_iff (a := s.overlay) hrest (width_nonneg hsame)
      rw [← hwidth] at hdraw
      simpa [refresh, redrawn, hlast, hlater, hlen, showStringCompare,
        compareFrom_split hlen] using hdraw
    · -- of dates with different lengths nothing is drawn
      simp [refresh, redrawn, hlast, hlater, hlen, showStringCompare, width]

end Texts

/-! ### Runs -/

section Runs

variable {getGlyphChar : Wchar → Option BasicChar}

/-- Of characters that all have a glyph the text is as wide as they are. -/
theorem getWidthFrom_eq (glyph : Wchar → BasicChar) (w charInfoW : ℤ) (wstr : List Wchar) :
    getWidthFrom (fun c => some (glyph c)) w charInfoW wstr =
      w + width (fun c => some (glyph c)) wstr := by
  induction wstr generalizing w charInfoW with
  | nil => simp [getWidthFrom, width]
  | cons c wstr ih =>
    rw [getWidthFrom, ih, width_cons, advance]
    simp only [Option.elim_some]
    omega

theorem ROUND_UP_eq (k : ℕ) {size : ℤ} (h : 0 ≤ size + (2 ^ k - 1)) :
    ROUND_UP size (2 ^ k) = (size + (2 ^ k - 1)) / 2 ^ k * 2 ^ k := by
  obtain ⟨n, hn⟩ := Int.eq_ofNat_of_zero_le h
  have hmask : (2 : ℤ) ^ k - 1 = ((2 ^ k - 1 : ℕ) : ℤ) := by
    rw [Int.natCast_sub Nat.one_le_two_pow]
    norm_cast
  rw [ROUND_UP, hn, hmask]
  show ((Nat.ldiff n (2 ^ k - 1) : ℕ) : ℤ) = _
  rw [Buffers.ldiff_mask]
  norm_cast

/-- The width of the area is at least that of the text that it is measured by. -/
theorem le_ROUND_UP {size : ℤ} (h : 0 ≤ size) : size ≤ ROUND_UP size 64 := by
  have heq : ROUND_UP size 64 = (size + 63) / 64 * 64 :=
    ROUND_UP_eq 6 (show 0 ≤ size + (2 ^ 6 - 1) by omega)
  omega

/-- **The stores of a run are in place** if and only if no refresh that draws something
has a date wider than the area. -/
theorem refreshes_in_place_iff (glyph : Wchar → BasicChar) (hglyph : ∀ c, 0 ≤ (glyph c).w)
    (charInfoW mFontSize mFontBgColor mFontFgColor mFontOutlineColor : ℤ)
    (dataStr : List Wchar) (dates : List (List Wchar)) :
    let getGlyphChar := fun c => some (glyph c)
    let s₀ := start getGlyphChar charInfoW mFontSize mFontBgColor mFontFgColor
      mFontOutlineColor dataStr
    Along (step getGlyphChar) (fun s cur => ∀ w ∈ (refresh getGlyphChar s cur).1,
        InPlace s₀.overlay w.row w.offset) s₀ dates ↔
      Along (step getGlyphChar) (fun s cur => 0 < ROUND_UP (mFontSize + 4) 2 →
        0 < width getGlyphChar (redrawn s cur) →
        width getGlyphChar cur ≤ ROUND_UP (width getGlyphChar dataStr) 64) s₀ dates := by
  intro getGlyphChar s₀
  have hadvance : ∀ c, 0 ≤ advance getGlyphChar c := hglyph
  have harea : s₀.overlay.areaW = ROUND_UP (width getGlyphChar dataStr) 64 := by
    show ROUND_UP (getWidthFrom _ 0 charInfoW dataStr) 64 = _
    rw [getWidthFrom_eq, Int.zero_add]
  have hnonneg : 0 ≤ s₀.overlay.areaW := by
    rw [harea]
    have hdata : ∀ c ∈ dataStr, 0 ≤ advance getGlyphChar c := fun c _ => hadvance c
    have hwidth := width_nonneg hdata
    exact Int.le_trans hwidth (le_ROUND_UP hwidth)
  -- the overlay stays as `start` has set it
  refine along_congr (P := fun s => s.overlay = s₀.overlay) ?_ ?_ rfl
  · intro s cur t hs hstep
    obtain rfl := Option.some_inj.mp hstep
    exact hs
  · intro s cur hs
    rw [← hs, refresh_in_place_iff hadvance (hs ▸ hnonneg), hs, harea]
    exact Iff.rfl

end Runs

/-- A font whose `1` is narrower than its other digits. -/
def digitsFont (c : Wchar) : BasicChar :=
  ⟨⟨0, 0, fun _ => 0⟩, ⟨0, 0, fun _ => 0⟩, 0,
    if c = 50 then 12 else if c = 48 then 12 else 4⟩

/-- `2011-11-11 11:11:11` -/
def narrowDate : List Wchar :=
  [50, 48, 49, 49, 45, 49, 49, 45, 49, 49, 32, 49, 49, 58, 49, 49, 58, 49, 49]

/-- `2011-11-11 11:11:12`, a second later. -/
def nextDate : List Wchar :=
  [50, 48, 49, 49, 45, 49, 49, 45, 49, 49, 32, 49, 49, 58, 49, 49, 58, 49, 50]

/-- `2022-02-22 22:22:22` -/
def wideDate : List Wchar :=
  [50, 48, 50, 50, 45, 48, 50, 45, 50, 50, 32, 50, 50, 58, 50, 50, 58, 50, 50]

theorem digitsFont_nonneg (c : Wchar) : 0 ≤ (digitsFont c).w := by
  simp only [digitsFont]
  split
  · omega
  · split <;> omega

/-- The `2` of the next second, 8 wider than the `1`, is drawn in place. -/
theorem narrow_in_place :
    let s₀ := start (fun c => some (digitsFont c)) 0 16 0 0x7fff 0 narrowDate
    Along (step fun c => some (digitsFont c)) (fun s cur =>
      ∀ w ∈ (refresh (fun c => some (digitsFont c)) s cur).1, InPlace s₀.overlay w.row w.offset)
      s₀ [narrowDate, nextDate] := by
  refine (refreshes_in_place_iff digitsFont digitsFont_nonneg 0 16 0 0x7fff 0 narrowDate
    _).mpr ?_
  have hfirst : width (fun c => some (digitsFont c)) narrowDate = 92 := by decide
  have hnext : width (fun c => some (digitsFont c)) nextDate = 100 := by decide
  have harea : ROUND_UP 92 64 = 128 := ROUND_UP_eq 6 (show 0 ≤ 92 + (2 ^ 6 - 1) by decide)
  rw [hfirst, harea]
  exact ⟨fun _ _ => by omega, fun _ _ => ⟨fun _ _ => by omega, fun _ _ => trivial⟩⟩

/-- A later date with wider digits leaves the area. -/
theorem wide_out_of_place :
    let s₀ := start (fun c => some (digitsFont c)) 0 16 0 0x7fff 0 narrowDate
    ¬Along (step fun c => some (digitsFont c)) (fun s cur =>
      ∀ w ∈ (refresh (fun c => some (digitsFont c)) s cur).1, InPlace s₀.overlay w.row w.offset)
      s₀ [narrowDate, wideDate] := by
  intro s₀ halong
  have hwide := (halong.2 _ rfl).1
  have harea : s₀.overlay.areaW = 128 := ROUND_UP_eq 6 (show 0 ≤ 92 + (2 ^ 6 - 1) by decide)
  have hheight : s₀.overlay.areaH = 20 := ROUND_UP_eq 1 (show 0 ≤ 20 + (2 ^ 1 - 1) by decide)
  have hadvance : ∀ c, 0 ≤ advance (fun c => some (digitsFont c)) c := digitsFont_nonneg
  have hfits := (refresh_in_place_iff (s := { s₀ with mLastDateStr := narrowDate })
    hadvance (show 0 ≤ s₀.overlay.areaW by omega) wideDate).mp hwide
    (show 0 < s₀.overlay.areaH by omega) (by decide)
  -- the later date is 188 wide, the area 128
  have hwidth : width (fun c => some (digitsFont c)) wideDate = 188 := by decide
  have hover : (188 : ℤ) ≤ s₀.overlay.areaW := hwidth ▸ hfits
  omega

end OsdDate

end IpcMini
