import SortingLine.Gui.Equiv.Layout
import SortingLine.Gui.Paint
import SortingLine.Library.Painter

/-!
# Does a cell's text stay in the cell?

Drawing and clearing are painters (`Paints`), so what is left behind is a matter of the sets that
they paint.  A text is drawn in a box of at most as many characters as fit (`drawBox`); it is
cleared in a box as wide as all of it, which is cut off at the right edge of the cell only
(`clearBox`).  With centred texts the two boxes have the same middle: a text that is too long is
cleared to the left of its cell.
-/

namespace SortingLine.Gui.Painting

open Layout

/-! ### Characters and rectangles -/

theorem drawFont_paints (d : Display) (x y : ℤ) (width : ℕ) (rows : ℕ → ℕ) (color : UInt16) :
    ∃ A, Paints A color (drawFont d x y width rows color) ∧
      ∀ p ∈ A, x ≤ p.1 ∧ p.1 < x + width ∧ y ≤ p.2 ∧ p.2 < y + 16 := by
  by_cases hin : d.InBound x y ∧ d.InBound (x + width - 1) (y + consFontHeight - 1)
  · refine ⟨{p | glyphInk x y width rows p}, ⟨fun s p hp => ?_, fun s p hp => ?_⟩, fun p hp => ?_⟩
    · rw [drawFont, if_pos hin]
      exact if_pos hp
    · rw [drawFont, if_pos hin]
      exact if_neg hp
    · obtain ⟨hx, hx', hy, hy', -⟩ := hp
      exact ⟨hx, hx', hy, hy'⟩
  · have hid : drawFont d x y width rows color = fun s => s := by
      funext s
      rw [drawFont, if_neg hin]
    rw [hid]
    exact ⟨∅, Paints.id color, fun p hp => absurd hp (Set.notMem_empty p)⟩

/-- A text is painted within 8 columns for each of its bytes. -/
theorem fbTextout_paints (d : Display) (y : ℤ) (color : UInt16) :
    ∀ (str : List UInt8) (x : ℤ), ∃ A, Paints A color (fbTextout d y color str x) ∧
      ∀ p ∈ A, x ≤ p.1 ∧ p.1 < x + 8 * str.length ∧ y ≤ p.2 ∧ p.2 < y + 16
  | [], x => by
    refine ⟨∅, ?_, fun p hp => absurd hp (Set.notMem_empty p)⟩
    simpa only [fbTextout] using Paints.id color
  | [chr], x => by
    simp only [fbTextout, List.length_singleton]
    by_cases hasc : chr ≤ 0x7F
    · obtain ⟨A, hA, hbox⟩ := drawFont_paints d x y 8 (fun row => (d.asc chr row).toNat) color
      simp only [if_pos hasc]
      refine ⟨A, hA, fun p hp => ?_⟩
      have := hbox p hp
      omega
    · refine ⟨∅, by simpa only [if_neg hasc] using Paints.id color, fun p hp => ?_⟩
      exact absurd hp (Set.notMem_empty p)
  | chr :: chr' :: str, x => by
    obtain ⟨A, hA, hbox⟩ := fbTextout_paints d y color (chr' :: str) (x + 8)
    simp only [fbTextout]
    by_cases hasc : chr ≤ 0x7F
    · obtain ⟨B, hB, hbox'⟩ := drawFont_paints d x y 8 (fun row => (d.asc chr row).toNat) color
      simp only [if_pos hasc]
      refine ⟨B ∪ A, hB.comp hA, fun p hp => ?_⟩
      simp only [List.length_cons] at hbox ⊢
      rcases hp with hp | hp
      · have := hbox' p hp
        omega
      · have := hbox p hp
        omega
    · by_cases hgb : IsGb2312Char chr chr'
      · obtain ⟨B, hB, hbox'⟩ := drawFont_paints d x y 16
          (fun row => (d.song chr chr' row).toNat) color
        obtain ⟨A', hA', hbox''⟩ := fbTextout_paints d y color str (x + 16)
        simp only [if_neg hasc, if_pos hgb]
        refine ⟨B ∪ A', hB.comp hA', fun p hp => ?_⟩
        simp only [List.length_cons]
        rcases hp with hp | hp
        · have := hbox' p hp
          omega
        · have := hbox'' p hp
          omega
      · simp only [if_neg hasc, if_neg hgb]
        refine ⟨A, hA, fun p hp => ?_⟩
        have := hbox p hp
        simp only [List.length_cons] at this ⊢
        omega

theorem fbFillrect_paints (d : Display) {x1 y1 x2 y2 : ℤ} (color : UInt16) (hx : x1 ≤ x2)
    (hy : y1 ≤ y2) :
    Paints {p | clip x1 d.xres ≤ p.1 ∧ p.1 ≤ clip x2 d.xres ∧ clip y1 d.yres ≤ p.2 ∧
      p.2 ≤ clip y2 d.yres} color (fbFillrect d x1 y1 x2 y2 color) := by
  refine ⟨fun s p hp => ?_, fun s p hp => ?_⟩
  · simp only [fbFillrect, if_neg (not_lt.mpr hx), if_neg (not_lt.mpr hy)]
    exact if_pos hp
  · simp only [fbFillrect, if_neg (not_lt.mpr hx), if_neg (not_lt.mpr hy)]
    exact if_neg hp

theorem clip_eq_max {v res : ℤ} (h : v < res) (hres : 0 < res) : clip v res = max v 0 := by
  unfold clip
  dsimp only
  split_ifs <;> omega

/-! ### Boxes -/

/-- The cell is within the screen, and not at its left edge. -/
structure Within (d : Display) (rect : TRect) : Prop where
  left : 0 < rect.left
  top : 0 ≤ rect.top
  right : rect.right ≤ d.xres
  bottom : rect.bottom ≤ d.yres

/-- Half the width of a cell, as the source has it. -/
def halfWidth (rect : TRect) : ℤ := (rect.right - rect.left) / 2

/-- Where a text of `n` bytes begins. -/
def textLeft (align : AlignStyle) (rect : TRect) (n : ℤ) : ℤ :=
  if align = .center then rect.left + halfWidth rect - 4 * n else rect.left + 1

/-- The first row of a text. -/
def textTop (rect : TRect) : ℤ := rect.top + (rect.bottom - rect.top) / 2 - 8

/-- How many bytes of a text are drawn. -/
def fitting (rect : TRect) (n : ℕ) : ℕ := min ((rect.right - rect.left - 2) / 8).toNat n

/-- The box that a text of `n` bytes is drawn in. -/
def drawBox (align : AlignStyle) (rect : TRect) (n : ℕ) : Set (ℤ × ℤ) :=
  {p | textLeft align rect (fitting rect n) ≤ p.1 ∧
    p.1 < textLeft align rect (fitting rect n) + 8 * fitting rect n ∧
    textTop rect ≤ p.2 ∧ p.2 < textTop rect + 16}

/-- The box that a text of `n` bytes is cleared in. -/
def clearBox (align : AlignStyle) (rect : TRect) (n : ℕ) : Set (ℤ × ℤ) :=
  {p | max (textLeft align rect n) 0 ≤ p.1 ∧
    p.1 ≤ min (textLeft align rect n + 8 * n - 1) (rect.right - 1) ∧
    textTop rect ≤ p.2 ∧ p.2 < textTop rect + 16}

section Cell

variable {d : Display} {column : ColumnStyle} {cell : TCell}

theorem plusHalf_of_nonneg {v : ℤ} (h : 0 ≤ v) : plusHalf v = v := by
  rw [plusHalf, Int.tdiv_eq_ediv_of_nonneg (by omega)]
  omega

/-- The middle of a cell, from which a centred text is placed. -/
theorem center_x (hin : Within d cell.rect) (hp : Paintable true cell) :
    plusHalf (cell.rect.left + (cell.rect.right - cell.rect.left).tdiv 2) =
      cell.rect.left + halfWidth cell.rect := by
  obtain ⟨-, -, hw, -⟩ := hp
  have hleft := hin.left
  simp only [ascFontWidth] at hw
  rw [Int.tdiv_eq_ediv_of_nonneg (by omega), plusHalf_of_nonneg (by omega), halfWidth]

theorem center_y (hin : Within d cell.rect) (hp : Paintable true cell) :
    plusHalf (cell.rect.top + (cell.rect.bottom - cell.rect.top).tdiv 2) - 8 =
      textTop cell.rect := by
  obtain ⟨-, -, -, hh⟩ := hp
  have htop := hin.top
  simp only [ascFontHeight] at hh
  rw [Int.tdiv_eq_ediv_of_nonneg (by omega), plusHalf_of_nonneg (by omega), textTop]

/-- Texts at the left are on the same rows as centred ones. -/
theorem left_y (hin : Within d cell.rect) (hp : Paintable true cell) :
    plusHalf (cell.rect.top + (cell.rect.bottom - cell.rect.top - ascFontHeight).tdiv 2) =
      textTop cell.rect := by
  obtain ⟨-, -, -, hh⟩ := hp
  have htop := hin.top
  simp only [ascFontHeight] at hh ⊢
  rw [Int.tdiv_eq_ediv_of_nonneg (by omega), plusHalf_of_nonneg (by omega), textTop]
  omega

theorem textTop_bounds (hp : Paintable true cell) :
    cell.rect.top ≤ textTop cell.rect ∧ textTop cell.rect + 16 ≤ cell.rect.bottom := by
  obtain ⟨-, -, -, hh⟩ := hp
  simp only [ascFontHeight] at hh
  unfold textTop
  omega

theorem tdiv_two_bytes (n : ℕ) : ((n : ℤ) * 8).tdiv 2 = 4 * n := by
  rw [Int.tdiv_eq_ediv_of_nonneg (by omega)]
  omega

/-- As many bytes are copied as fit. -/
theorem nlen_eq (hp : Paintable true cell) :
    (if (if ((cell.rect.right - cell.rect.left - 2).tdiv ascFontWidth).toNat <
          cell.text.val.length then
        ((cell.rect.right - cell.rect.left - 2).tdiv ascFontWidth).toNat
        else cell.text.val.length) < cellTextMax then
      if ((cell.rect.right - cell.rect.left - 2).tdiv ascFontWidth).toNat <
          cell.text.val.length then
        ((cell.rect.right - cell.rect.left - 2).tdiv ascFontWidth).toNat
        else cell.text.val.length
      else cellTextMax) = fitting cell.rect cell.text.val.length := by
  obtain ⟨-, -, hw, -⟩ := hp
  have hmax : cell.text.val.length ≤ cellTextMax := cell.text.property
  simp only [ascFontWidth] at hw ⊢
  simp only [Int.tdiv_eq_ediv_of_nonneg (by omega : 0 ≤ cell.rect.right - cell.rect.left - 2)]
  unfold fitting
  split_ifs <;> omega

/-- **Where a text is drawn.** -/
theorem draw_eq (hin : Within d cell.rect) (hp : Paintable true cell) (ht : cell.text.val ≠ []) :
    gridDrawCellTextInternal d true column cell =
      fbTextout d (textTop cell.rect) column.fontcolor
        (cell.text.val.take (fitting cell.rect cell.text.val.length))
        (textLeft column.align cell.rect (fitting cell.rect cell.text.val.length)) := by
  have hno : ¬ (¬ Paintable true cell ∨ cell.text.val = []) := not_or.mpr ⟨not_not.mpr hp, ht⟩
  have hlen : (cell.text.val.take (fitting cell.rect cell.text.val.length)).length =
      fitting cell.rect cell.text.val.length := by
    rw [List.length_take, fitting]
    omega
  funext s
  simp only [gridDrawCellTextInternal, if_neg hno, nlen_eq hp, textLeft]
  split_ifs with hc
  · simp only [fbPutStringCenter, fbPutString, consFontWidth, consFontHeight, hlen,
      tdiv_two_bytes, center_x hin hp]
    rw [show (16 : ℤ).tdiv 2 = 8 from rfl, center_y hin hp]
  · rw [fbPutString, left_y hin hp]

theorem draw_paints (column : ColumnStyle) (cell : TCell) (hin : Within d cell.rect)
    (hp : Paintable true cell) :
    ∃ A, Paints A column.fontcolor (gridDrawCellTextInternal d true column cell) ∧
      A ⊆ drawBox column.align cell.rect cell.text.val.length := by
  by_cases ht : cell.text.val = []
  · have hid : gridDrawCellTextInternal d true column cell = fun s => s := by
      funext s
      exact if_pos (Or.inr ht)
    rw [hid]
    exact ⟨∅, Paints.id _, Set.empty_subset _⟩
  · rw [draw_eq hin hp ht]
    obtain ⟨A, hA, hbox⟩ := fbTextout_paints d (textTop cell.rect) column.fontcolor
      (cell.text.val.take (fitting cell.rect cell.text.val.length))
      (textLeft column.align cell.rect (fitting cell.rect cell.text.val.length))
    refine ⟨A, hA, fun p hpA => ?_⟩
    have hlen : (cell.text.val.take (fitting cell.rect cell.text.val.length)).length =
        fitting cell.rect cell.text.val.length := by
      rw [List.length_take, fitting]
      omega
    rw [hlen] at hbox
    exact hbox p hpA

/-- **Where a text is cleared.** -/
theorem clear_paints (hin : Within d cell.rect) (hp : Paintable true cell)
    (ht : cell.text.val ≠ []) :
    Paints (clearBox column.align cell.rect cell.text.val.length) column.fillcolor
      (gridClearCellRectInternal d true column cell) := by
  have hno : ¬ (¬ Paintable true cell ∨ cell.text.val = []) := not_or.mpr ⟨not_not.mpr hp, ht⟩
  have hpos : 0 < cell.text.val.length := List.length_pos_iff.mpr ht
  generalize hn : cell.text.val.length = n at hpos
  obtain ⟨htop, hbottom⟩ := textTop_bounds hp
  obtain ⟨-, -, hw, -⟩ := id hp
  obtain ⟨hl, ht0, hr, hb⟩ := hin
  rw [show ascFontWidth = 8 from rfl] at hw
  have heq : gridClearCellRectInternal d true column cell = fbFillrect d
      (textLeft column.align cell.rect n) (textTop cell.rect)
      (min (textLeft column.align cell.rect n + 8 * n - 1) (cell.rect.right - 1))
      (textTop cell.rect + 15) column.fillcolor := by
    funext s
    simp only [gridClearCellRectInternal, if_neg hno, textLeft, hn, ascFontWidth, tdiv_two_bytes]
    have hmin (a b : ℤ) : (if a < b then a else b) = min a b := (min_def_lt a b).symm
    by_cases hc : column.align = .center
    · simp only [if_pos hc, center_x ⟨hl, ht0, hr, hb⟩ hp, hmin]
      rw [show ascFontHeight.tdiv 2 = 8 from rfl, center_y ⟨hl, ht0, hr, hb⟩ hp,
        show ascFontHeight = 16 from rfl, Int.mul_comm n 8,
        show textTop cell.rect + 16 - 1 = textTop cell.rect + 15 by omega]
    · simp only [if_neg hc, left_y ⟨hl, ht0, hr, hb⟩ hp, hmin]
      rw [show ascFontHeight = 16 from rfl, Int.mul_comm n 8,
        show textTop cell.rect + 16 - 1 = textTop cell.rect + 15 by omega]
  have hleft : textLeft column.align cell.rect n ≤ cell.rect.right - 1 ∧
      cell.rect.left < textLeft column.align cell.rect n + 8 * n := by
    unfold textLeft halfWidth
    split_ifs <;> omega
  rw [heq]
  have hset : clearBox column.align cell.rect n =
      {p | clip (textLeft column.align cell.rect n) d.xres ≤ p.1 ∧
        p.1 ≤ clip (min (textLeft column.align cell.rect n + 8 * n - 1) (cell.rect.right - 1))
          d.xres ∧
        clip (textTop cell.rect) d.yres ≤ p.2 ∧ p.2 ≤ clip (textTop cell.rect + 15) d.yres} := by
    rw [clip_eq_max (by omega) (by omega), clip_eq_max (by omega) (by omega),
      clip_eq_max (by omega) (by omega), clip_eq_max (by omega) (by omega)]
    ext p
    simp only [clearBox, Set.mem_ofPred_eq, Int.lt_iff_add_one_le]
    omega
  rw [hset]
  exact fbFillrect_paints d column.fillcolor (by omega) (by omega)

/-- What is drawn in a cell is cleared, and is in the cell. -/
theorem drawBox_subset (hin : Within d cell.rect) (hp : Paintable true cell) (n : ℕ) :
    drawBox column.align cell.rect n ⊆ clearBox column.align cell.rect n ∩
      {p | cell.rect.left < p.1 ∧ p.1 < cell.rect.right ∧ cell.rect.top ≤ p.2 ∧
        p.2 < cell.rect.bottom} := by
  obtain ⟨htop, hbottom⟩ := textTop_bounds hp
  obtain ⟨-, -, hw, -⟩ := hp
  have hl := hin.left
  simp only [ascFontWidth] at hw
  rintro p ⟨hx, hx', hy, hy'⟩
  have hfit : fitting cell.rect n ≤ n := min_le_right _ _
  have hfit' : 8 * (fitting cell.rect n : ℤ) ≤ cell.rect.right - cell.rect.left - 2 := by
    unfold fitting
    omega
  simp only [clearBox, Set.mem_inter_iff, Set.mem_ofPred_eq]
  unfold textLeft halfWidth at hx hx' ⊢
  split_ifs at hx hx' ⊢ <;> omega

/-- The cell is cleared beyond its left edge when its text is centred and too long. -/
theorem clearBox_subset_iff (hin : Within d cell.rect) (hp : Paintable true cell) (n : ℕ) :
    clearBox column.align cell.rect n ⊆ {p | cell.rect.left ≤ p.1 ∧ p.1 ≤ cell.rect.right ∧
      cell.rect.top ≤ p.2 ∧ p.2 ≤ cell.rect.bottom} ↔
    ¬ (column.align = .center ∧ halfWidth cell.rect < 4 * n) := by
  obtain ⟨htop, hbottom⟩ := textTop_bounds hp
  obtain ⟨-, -, hw, -⟩ := hp
  have hl := hin.left
  rw [show ascFontWidth = 8 from rfl] at hw
  constructor
  · rintro hsub ⟨hc, hlong⟩
    -- the pixel to the left of the first row of the text
    have hmem : (cell.rect.left - 1, textTop cell.rect) ∈ clearBox column.align cell.rect n := by
      simp only [clearBox, Set.mem_ofPred_eq, textLeft, if_pos hc]
      unfold halfWidth at hlong ⊢
      omega
    have := (hsub hmem).1
    omega
  · intro h p hmem
    simp only [clearBox, Set.mem_ofPred_eq, textLeft] at hmem ⊢
    split_ifs at hmem with hc
    · have hshort : 4 * (n : ℤ) ≤ halfWidth cell.rect := by
        by_contra hlong
        exact h ⟨hc, by omega⟩
      omega
    · omega

/-! ### A cell -/

/-- The pixels within the lines around a cell. -/
def interior (rect : TRect) : Set (ℤ × ℤ) :=
  {p | rect.left < p.1 ∧ p.1 < rect.right ∧ rect.top < p.2 ∧ p.2 < rect.bottom}

/-- The pixels of a cell, with the lines around it. -/
def extent (rect : TRect) : Set (ℤ × ℤ) :=
  {p | rect.left ≤ p.1 ∧ p.1 ≤ rect.right ∧ rect.top ≤ p.2 ∧ p.2 ≤ rect.bottom}

/-- The interior of the cell shows the fill colour and the text as it is drawn. -/
def Shows (d : Display) (column : ColumnStyle) (cell : TCell) (s : Pixels) : Prop :=
  ∀ p ∈ interior cell.rect,
    s p = gridDrawCellTextInternal d true column cell (fun _ => column.fillcolor) p

/-- A repaint that leaves no residue, and nothing changed outside the cell. -/
def Clean (d : Display) (column : ColumnStyle) (cell : TCell) (str : Option (List UInt8)) : Prop :=
  ∀ s, Shows d column cell s →
    Shows d column { cell with text := str.elim default .ofString }
      (repaint d true column cell str s) ∧
    ∀ p ∉ extent cell.rect, repaint d true column cell str s p = s p

theorem repaint_eq (str : Option (List UInt8)) (s : Pixels) :
    repaint d true column cell str s =
      gridDrawCellTextInternal d true column { cell with text := str.elim default .ofString }
        (gridClearCellRectInternal d true column cell s) := by
  have hclear : (if cell.text.val = [] then s else gridClearCellRectInternal d true column cell s) =
      gridClearCellRectInternal d true column cell s := by
    split_ifs with ht
    · exact (if_pos (Or.inr ht)).symm
    · rfl
  unfold repaint
  simp only [hclear]
  cases str with
  | none => exact (if_pos (Or.inr rfl)).symm
  | some str => rfl

/-- What is cleared is all that was drawn. -/
theorem exists_clear_paints (column : ColumnStyle) (hin : Within d cell.rect)
    (hp : Paintable true cell) :
    ∃ E, Paints E column.fillcolor (gridClearCellRectInternal d true column cell) ∧
      drawBox column.align cell.rect cell.text.val.length ⊆ E ∧
      (E ⊆ extent cell.rect ↔
        ¬ (column.align = .center ∧ halfWidth cell.rect < 4 * cell.text.val.length)) := by
  by_cases ht : cell.text.val = []
  · have hid : gridClearCellRectInternal d true column cell = fun s => s := by
      funext s
      exact if_pos (Or.inr ht)
    have hw := hp.2.2.1
    rw [show ascFontWidth = 8 from rfl] at hw
    rw [hid, ht]
    refine ⟨∅, Paints.id _, fun p hpd => ?_, iff_of_true (Set.empty_subset _) fun h => ?_⟩
    · have hfit : fitting cell.rect (List.length ([] : List UInt8)) = 0 := Nat.min_zero _
      obtain ⟨hx, hx', -, -⟩ := hpd
      rw [hfit] at hx hx'
      omega
    · have := h.2
      simp only [halfWidth, List.length_nil] at this
      omega
  · exact ⟨_, clear_paints hin hp ht, fun p hpd => (drawBox_subset hin hp _ hpd).1,
      clearBox_subset_iff hin hp _⟩

/-- **A repaint is clean** unless it clears a centred text that is wider than its cell. -/
theorem clean_iff (hin : Within d cell.rect) (hp : Paintable true cell)
    (str : Option (List UInt8)) : Clean d column cell str ↔
      ¬ (column.align = .center ∧ halfWidth cell.rect < 4 * cell.text.val.length) := by
  obtain ⟨A, hA, hAbox⟩ := draw_paints column cell hin hp
  obtain ⟨E, hE, hdraw, hiff⟩ := exists_clear_paints column hin hp
  obtain ⟨B, hB, hBbox⟩ :=
    draw_paints column { cell with text := str.elim default .ofString } hin hp
  have hcell (n : ℕ) : drawBox column.align cell.rect n ⊆ extent cell.rect := by
    intro p hpd
    obtain ⟨-, hl, hr, ht, hb⟩ := drawBox_subset hin hp n hpd
    exact ⟨hl.le, hr.le, ht, hb.le⟩
  rw [← hiff]
  constructor
  · intro hclean
    by_contra hsub
    obtain ⟨p, hpE, hpout⟩ := Set.not_subset.mp hsub
    -- a screen on which the cell stands out from its surroundings
    let other : UInt16 := if column.fillcolor = 0 then 1 else 0
    have hother : other ≠ column.fillcolor := by
      simp only [other]
      split_ifs with h0
      · rw [h0]
        decide
      · exact fun h => h0 h.symm
    let ground : Pixels := fun q => if q = p then other else column.fillcolor
    have hshows : Shows d column cell (gridDrawCellTextInternal d true column cell ground) := by
      intro q hq
      refine hA.agree (if_neg ?_)
      rintro rfl
      exact hpout ⟨hq.1.le, hq.2.1.le, hq.2.2.1.le, hq.2.2.2.le⟩
    have hsame := (hclean _ hshows).2 p hpout
    rw [repaint_eq, hB.outside _ p fun h => hpout (hcell _ (hBbox h)), hE.inside _ p hpE,
      hA.outside _ p fun h => hpout (hcell _ (hAbox h))] at hsame
    exact hother ((if_pos rfl).symm.trans hsame.symm)
  · intro hsub s hs
    refine ⟨fun p hpi => ?_, fun p hpout => ?_⟩
    · rw [repaint_eq]
      exact hA.redraw hE hB (fun q _ hq => hdraw (hAbox hq)) hs p hpi
    · rw [repaint_eq, hB.outside _ p fun h => hpout (hcell _ (hBbox h)),
        hE.outside _ p fun h => hpout (hsub h)]

end Cell

/-! ### A grid -/

/-- The grid with these texts in its cells, by the numbers of the column and the cell. -/
def withTexts (grid : TGrid) (texts : ℕ → ℕ → CellText) : TGrid :=
  { grid with columns := grid.columns.map fun column =>
      { column with cells := column.cells.map fun cell =>
          { cell with text := texts column.index cell.index } } }

/-- The loops over a queue find the element whose number is looked for. -/
theorem find?_index {α : Type*} {index : α → ℕ} {l : List α} (hl : (l.map index).Nodup) {a : α}
    (ha : a ∈ l) (i : ℤ) (hi : index a = i) : l.find? (fun b => (index b : ℤ) = i) = some a := by
  induction l with
  | nil => cases ha
  | cons b l ih =>
    obtain ⟨hb, hl⟩ := List.nodup_cons.mp hl
    rcases List.mem_cons.mp ha with rfl | ha
    · rw [List.find?_cons_of_pos (by simpa using hi)]
    · rw [List.find?_cons_of_neg, ih hl ha]
      intro h
      have heq : index b = index a := by
        have := of_decide_eq_true h
        omega
      exact hb (List.mem_map.mpr ⟨a, ha, heq.symm⟩)

/-- What is repainted by `grid_set_cell_text` for a cell of the grid that is not a title. -/
theorem gridSetCellText_fst {d : Display} {style : ℕ → ColumnStyle} {grid : TGrid}
    (hcols : grid.columns.map TColumn.index = List.range grid.cols)
    {column : TColumn} (hcolumn : column ∈ grid.columns)
    (hshape : TColumn.Shape grid.rows column) {cell : TCell} (hcell : cell ∈ column.cells)
    (hrow : 0 < cell.index) (str : Option (List UInt8)) (s : Pixels) :
    (gridSetCellText d grid.group style grid (cell.index - 1) column.index str s).1 =
      repaint d true (style column.index) cell str s := by
  have hcol : column.index < grid.cols := by
    have hmem : column.index ∈ grid.columns.map TColumn.index := List.mem_map_of_mem hcolumn
    rw [hcols] at hmem
    exact List.mem_range.mp hmem
  have hcellindex : cell.index < grid.rows + 1 := by
    have hmem : cell.index ∈ column.cells.map TCell.index := List.mem_map_of_mem hcell
    rw [hshape.cells] at hmem
    exact List.mem_range.mp hmem
  have hno : ¬ ((cell.index : ℤ) - 1 < 0 ∨ (grid.rows : ℤ) ≤ (cell.index : ℤ) - 1 ∨
      (column.index : ℤ) < 0 ∨ (grid.cols : ℤ) ≤ column.index) := by omega
  have hfind := find?_index (hcols ▸ List.nodup_range) hcolumn column.index rfl
  have hfind' := find?_index (hshape.cells ▸ List.nodup_range) hcell (cell.index - 1 + 1) (by omega)
  rw [gridSetCellText, if_neg hno]
  simp only [hfind, hfind', decide_true]

theorem map_modifyFirst {α β : Type*} {p : α → Bool} {f : α → α} {q : β → Bool} {g : β → β}
    {φ : α → β} (hp : ∀ a, p a = q (φ a)) (hf : ∀ a, φ (f a) = g (φ a)) (l : List α) :
    (modifyFirst p f l).map φ = modifyFirst q g (l.map φ) := by
  induction l with
  | nil => rfl
  | cons a l ih =>
    simp only [modifyFirst, List.map_cons, ← hp]
    split
    · rw [List.map_cons, hf]
    · rw [List.map_cons, ih]

/-- Nothing changes if the element that is found does not. -/
theorem modifyFirst_eq_self {α : Type*} {p : α → Bool} {f : α → α} {l : List α}
    (h : ∀ a, l.find? p = some a → f a = a) : modifyFirst p f l = l := by
  induction l with
  | nil => rfl
  | cons a l ih =>
    by_cases hp : p a = true
    · rw [modifyFirst, if_pos hp, h a (List.find?_cons_of_pos hp)]
    · rw [modifyFirst, if_neg hp, ih]
      intro b hb
      exact h b ((List.find?_cons_of_neg hp).trans hb)

/-- The texts after a call are those of the grid without its layout. -/
theorem toGrid_gridSetCellText (d : Display) (activeGroup : ℤ) (style : ℕ → ColumnStyle)
    (grid : TGrid) (row col : ℤ) (str : Option (List UInt8)) (s : Pixels) :
    toGrid (gridSetCellText d activeGroup style grid row col str s).2 =
      Gui.gridSetCellText (toGrid grid) row col str := by
  have hset : toGrid (setText grid row col str) =
      { toGrid grid with
        columns := modifyFirst (fun column => column.index = col)
          (fun column =>
            { column with
              cells := modifyFirst (fun cell => cell.index = row + 1)
                (fun cell => { cell with text := str.elim default .ofString }) column.cells })
          (toGrid grid).columns } := by
    simp only [toGrid, setText, Grid.mk.injEq, true_and]
    apply map_modifyFirst
    · intro column
      rfl
    · intro column
      simp only [Column.mk.injEq, true_and]
      apply map_modifyFirst
      · intro cell
        rfl
      · intro cell
        rfl
  unfold gridSetCellText Gui.gridSetCellText
  by_cases hout : row < 0 ∨ grid.rows ≤ row ∨ col < 0 ∨ grid.cols ≤ col
  · rw [if_pos hout]
    exact (if_pos hout).symm
  · refine Eq.trans ?_ (hset.trans (if_neg hout).symm)
    rw [if_neg hout]
    split
    · next hnone =>
      have hself : setText grid row col str = grid := by
        rw [setText, modifyFirst_eq_self fun column h => absurd h (by simp [hnone])]
      rw [hself]
    · next column hcolumn =>
      split
      · next hnone =>
        have hself : setText grid row col str = grid := by
          rw [setText, modifyFirst_eq_self]
          intro column' h
          obtain rfl := Option.some.inj (hcolumn.symm.trans h)
          rw [modifyFirst_eq_self fun cell h => absurd h (by simp [hnone])]
        rw [hself]
      · rfl

/-- The cells of a column after the layout pass, when no column has a negative width. -/
theorem exists_cellRect_of_mem (f : Frame) {columns : List TColumn}
    (hwidth : ∀ column ∈ columns, 0 ≤ column.width) (i : ℕ) (left : ℤ) {column : TColumn}
    (hcolumn : column ∈ layColumns f i left columns) {cell : TCell} (hcell : cell ∈ column.cells) :
    ∃ l dx j, left ≤ l ∧ cell.rect = cellRect f l dx j ∧ cell.visible = decide (l < f.rMax) := by
  induction columns generalizing i left with
  | nil => cases hcolumn
  | cons c columns ih =>
    obtain ⟨hc, hwidth⟩ := List.forall_mem_cons.mp hwidth
    rcases List.mem_cons.mp hcolumn with rfl | hcolumn
    · obtain ⟨hrects, -, hvisible⟩ :=
        layCells_title f left c.width (decide (left < f.rMax)) c.cells
      have hrect : cell.rect ∈ (List.range c.cells.length).map (cellRect f left c.width) :=
        hrects ▸ List.mem_map_of_mem hcell
      obtain ⟨j, -, hj⟩ := List.mem_map.mp hrect
      exact ⟨left, c.width, j, le_rfl, hj.symm, hvisible cell hcell⟩
    · obtain ⟨l, dx, j, hl, hrest⟩ := ih hwidth (i + 1) (left + c.width) hcolumn
      exact ⟨l, dx, j, by omega, hrest⟩

/-- The cells of a grid that has just been created and in which a character fits are within the
screen. -/
theorem within_created {d : Display} {rect : TRect} {rows cols : ℤ} (group : ℤ)
    (h : Creatable ⟨d.xres, d.yres⟩ rect rows cols) {column : TColumn}
    (hcolumn : column ∈ (created rect rows cols group).columns) {cell : TCell}
    (hcell : cell ∈ column.cells) (hp : Paintable true cell) : Within d cell.rect := by
  obtain ⟨-, hvisible, -, hh⟩ := hp
  rw [show ascFontHeight = 16 from rfl] at hh
  unfold Creatable at h
  simp only [not_or, not_lt, not_le] at h
  obtain ⟨hleft, htop, hright, hbottom, -, hcols⟩ := h
  have hnorm : (normalizeRect rect).left ≤ (normalizeRect rect).right := by
    simp only [normalizeRect]
    split_ifs <;> omega
  have hwidth : 0 ≤ ((normalizeRect rect).right - (normalizeRect rect).left).tdiv cols :=
    Int.tdiv_nonneg (by omega) hcols.le
  have hwidths : ∀ column ∈ (List.range cols.toNat).map (newColumn rows.toNat
      (((normalizeRect rect).right - (normalizeRect rect).left).tdiv cols)), 0 ≤ column.width := by
    intro column hcolumn
    obtain ⟨i, -, rfl⟩ := List.mem_map.mp hcolumn
    simpa only [newColumn, TColumn.width, sub_zero] using hwidth
  generalize hf : frame (created rect rows cols group) = f
  have hmem : column ∈ layColumns f 0 f.left ((List.range cols.toNat).map (newColumn rows.toNat
      (((normalizeRect rect).right - (normalizeRect rect).left).tdiv cols))) := by
    subst hf
    exact hcolumn
  obtain ⟨l, dx, j, hl, hrect, hvis⟩ := exists_cellRect_of_mem f hwidths 0 f.left hmem hcell
  rw [hvisible, eq_comm, decide_eq_true_iff] at hvis
  have hframe : f.left = (normalizeRect rect).left + 2 ∧ f.top = (normalizeRect rect).top + 2 ∧
      f.rMax = (normalizeRect rect).right - 2 ∧ f.bMax = (normalizeRect rect).bottom - 2 ∧
      f.th = f.ch := by
    subst hf
    exact ⟨rfl, rfl, rfl, rfl, rfl⟩
  obtain ⟨hfl, hft, hfr, hfb, hth⟩ := hframe
  have hstep := rowTop_succ f j
  rw [hth, ite_self] at hstep
  rw [hrect] at hh ⊢
  simp only [cellRect] at hh
  have hch : 0 ≤ f.ch := by omega
  have hrow : 0 ≤ rowTop f j := by
    unfold rowTop
    split_ifs with h0
    · omega
    · have := Int.mul_nonneg (by omega : (0 : ℤ) ≤ j - 1) hch
      omega
  exact ⟨by simp only [cellRect]; omega, hrow, by simp only [cellRect]; omega,
    by simp only [cellRect]; omega⟩

/-- What is promised of a call for this cell: what shows the old text shows the new one then, and
no pixel outside the cell has changed. -/
def SetsCleanly (d : Display) (style : ℕ → ColumnStyle) (grid : TGrid) (column : TColumn)
    (cell : TCell) (str : Option (List UInt8)) : Prop :=
  ∀ s, Shows d (style column.index) cell s →
    let s' := (gridSetCellText d grid.group style grid (cell.index - 1) column.index str s).1
    Shows d (style column.index) { cell with text := str.elim default .ofString } s' ∧
      ∀ p ∉ extent cell.rect, s' p = s p

/-- The text is centred and wider than the cell. -/
def Overlong (column : ColumnStyle) (cell : TCell) : Prop :=
  column.align = .center ∧ halfWidth cell.rect < 4 * cell.text.val.length

theorem setsCleanly_created {d : Display} {rect : TRect} {rows cols : ℤ} (group : ℤ)
    (h : Creatable ⟨d.xres, d.yres⟩ rect rows cols) (texts : ℕ → ℕ → CellText)
    (style : ℕ → ColumnStyle) {column : TColumn}
    (hcolumn : column ∈ (withTexts (created rect rows cols group) texts).columns) {cell : TCell}
    (hcell : cell ∈ column.cells) (hrow : 0 < cell.index) (hp : Paintable true cell)
    (str : Option (List UInt8)) :
    SetsCleanly d style (withTexts (created rect rows cols group) texts) column cell str ↔
      ¬ Overlong (style column.index) cell := by
  have hindex : (withTexts (created rect rows cols group) texts).columns.map TColumn.index =
      List.range (withTexts (created rect rows cols group) texts).cols := by
    have hrange : (created rect rows cols group).columns.map TColumn.index =
        List.range cols.toNat := by
      refine (index_layColumns _ _ _ _).trans ?_
      rw [List.length_map, List.length_range, List.range_eq_range']
    rw [withTexts, List.map_map]
    exact hrange
  obtain ⟨c, hc, rfl⟩ := List.mem_map.mp hcolumn
  obtain ⟨cell₀, hcell₀, rfl⟩ := List.mem_map.mp hcell
  have hin₀ : Within d cell₀.rect := within_created group h hc hcell₀ hp
  have hin : Within d ({ cell₀ with text := texts c.index cell₀.index } : TCell).rect := hin₀
  have hshape := (sized_created h group).columns c hc
  have hshape' : TColumn.Shape rows.toNat { c with cells := c.cells.map fun cell =>
      { cell with text := texts c.index cell.index } } := by
    refine ⟨hshape.cellcount, ?_⟩
    rw [List.map_map]
    exact hshape.cells
  have hclean : SetsCleanly d style (withTexts (created rect rows cols group) texts) _ _ str ↔
      Clean d (style c.index) { cell₀ with text := texts c.index cell₀.index } str :=
    forall_congr' fun s => by
      rw [gridSetCellText_fst hindex hcolumn hshape' hcell hrow str s]
  exact hclean.trans (clean_iff hin hp str)

/-- **When the text of a cell stays in its cell**: for each grid that `create_grid` accepts, in
the active group, whatever texts it has, each cell of it in which a character fits, and each new
text. -/
theorem setsCleanly_iff (d : Display) {rect : TRect} {rows cols group : ℤ} {grid : TGrid}
    (h : Layout.createGrid ⟨d.xres, d.yres⟩ rect rows cols group = some grid)
    (texts : ℕ → ℕ → CellText)
    (style : ℕ → ColumnStyle) {column : TColumn} (hcolumn : column ∈ (withTexts grid texts).columns)
    {cell : TCell} (hcell : cell ∈ column.cells) (hrow : 0 < cell.index)
    (hp : Paintable true cell) (str : Option (List UInt8)) :
    SetsCleanly d style (withTexts grid texts) column cell str ↔
      ¬ Overlong (style column.index) cell := by
  rw [Layout.createGrid_eq] at h
  split_ifs at h with hcreatable
  obtain rfl := Option.some.inj h
  exact setsCleanly_created group hcreatable texts style hcolumn hcell hrow hp str

/-! ### A grid of one cell -/

/-- A screen whose characters are full boxes. -/
def sampleDisplay : Display where
  xres := 800
  yres := 480
  asc := fun _ _ => 0xFF
  song := fun _ _ _ => 0xFFFF

/-- A text of `n` letters in each cell. -/
def sampleTexts (n : ℕ) : ℕ → ℕ → CellText := fun _ _ => .ofString (List.replicate n 0x41)

/-- The only row of a grid with one column, 96 pixels wide, and its column. -/
def sampleCell (n : ℕ) : TCell :=
  { rect := ⟨2, 50, 98, 98⟩, index := 1, border := 0, visible := true, text := sampleTexts n 0 1 }

def sampleColumn (n : ℕ) : TColumn :=
  { rect := ⟨2, 2, 102, 98⟩, index := 0, visible := true, cellcount := 2
    cells := [{ sampleCell n with rect := ⟨2, 2, 98, 50⟩, index := 0, border := 8 },
      sampleCell n] }

/-- Centred, black on white. -/
def sampleStyle : ℕ → ColumnStyle := fun _ =>
  { align := .center, fillcolor := 0xFFFF, fontcolor := 0 }

/-- 12 centred letters are replaced cleanly. -/
theorem setsCleanly_iff_fullCell :
    SetsCleanly sampleDisplay sampleStyle (withTexts (created ⟨0, 0, 100, 100⟩ 1 1 0)
      (sampleTexts 12)) (sampleColumn 12) (sampleCell 12) none :=
  (setsCleanly_iff sampleDisplay ((Layout.createGrid_eq _ _ _ _ _).trans (if_pos (by decide)))
    (sampleTexts 12) sampleStyle
    (by decide) (by decide) (by decide) (by decide) none).mpr fun h => absurd h.2 (by decide)

/-- 13 centred letters are cleared beyond the left edge of the cell. -/
theorem not_setsCleanly_overlong :
    Layout.createGrid ⟨800, 480⟩ ⟨0, 0, 100, 100⟩ 1 1 0 = some (created ⟨0, 0, 100, 100⟩ 1 1 0) ∧
      ¬ SetsCleanly sampleDisplay sampleStyle (withTexts (created ⟨0, 0, 100, 100⟩ 1 1 0)
        (sampleTexts 13)) (sampleColumn 13) (sampleCell 13) none := by
  refine ⟨(Layout.createGrid_eq _ _ _ _ _).trans (if_pos (by decide)), fun h => ?_⟩
  exact (setsCleanly_created 0 (by decide) (sampleTexts 13) sampleStyle (by decide) (by decide)
    (by decide) (by decide) none).mp h ⟨rfl, by decide⟩

end SortingLine.Gui.Painting
