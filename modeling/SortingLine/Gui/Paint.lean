import SortingLine.Gui.Layout

/-!
# Painting the texts of cells

The functions of `ls1x_fb_utils.c` that draw characters and fill rectangles, and those of
`simple_gui.c` that clear and draw the text of a cell.  The frame buffer gives each pixel its value,
also outside the screen, where nothing is written.  The two fonts are those that are configured, 8
and 16 pixels wide and 16 high, by the rows of their characters.

`DEFAULT_COLOR_INDEX` has no `XORMODE` bit; a colour is the value that its palette entry has.
-/

namespace SortingLine.Gui

/-- The contents of the frame buffer. -/
abbrev Pixels := ℤ × ℤ → UInt16

/-- The screen, and the fonts `asc_iso8859_8x16` and `gb2312_song_16x16`. -/
structure Display where
  xres : ℤ
  yres : ℤ
  asc : UInt8 → ℕ → UInt8
  song : UInt8 → UInt8 → ℕ → UInt16

/-- `IN_BOUND` -/
def Display.InBound (d : Display) (x y : ℤ) : Prop := 0 ≤ x ∧ x < d.xres ∧ 0 ≤ y ∧ y < d.yres

instance (d : Display) (x y : ℤ) : Decidable (d.InBound x y) :=
  inferInstanceAs (Decidable (_ ∧ _ ∧ _ ∧ _))

namespace Painting

/-! ### Characters -/

/-- `CONS_FONT_WIDTH` -/
def consFontWidth : ℤ := 8

/-- `CONS_FONT_HEIGHT` -/
def consFontHeight : ℤ := 16

/-- The pixels that the loops over the rows and columns of a character write: the bits of each row
that are set, the leftmost first. -/
def glyphInk (x y : ℤ) (width : ℕ) (rows : ℕ → ℕ) (p : ℤ × ℤ) : Prop :=
  x ≤ p.1 ∧ p.1 < x + width ∧ y ≤ p.2 ∧ p.2 < y + consFontHeight ∧
    (rows (p.2 - y).toNat).testBit (width - 1 - (p.1 - x).toNat) = true

instance (x y : ℤ) (width : ℕ) (rows : ℕ → ℕ) (p : ℤ × ℤ) :
    Decidable (glyphInk x y width rows p) :=
  inferInstanceAs (Decidable (_ ∧ _ ∧ _ ∧ _ ∧ _))

/-- What the two functions that draw a character do: nothing, unless all of it is on the screen. -/
def drawFont (d : Display) (x y : ℤ) (width : ℕ) (rows : ℕ → ℕ) (color : UInt16) (s : Pixels) :
    Pixels :=
  if d.InBound x y ∧ d.InBound (x + width - 1) (y + consFontHeight - 1) then
    fun p => if glyphInk x y width rows p then color else s p
  else s

/-- `fb_draw_ascii_char` -/
def fbDrawAsciiChar (d : Display) (x y : ℤ) (chr : UInt8) (color : UInt16) (s : Pixels) : Pixels :=
  drawFont d x y 8 (fun row => (d.asc chr row).toNat) color s

/-- `fb_draw_gb2312_char` -/
def fbDrawGb2312Char (d : Display) (x y : ℤ) (ch1 ch2 : UInt8) (color : UInt16) (s : Pixels) :
    Pixels :=
  drawFont d x y 16 (fun row => (d.song ch1 ch2 row).toNat) color s

/-- `IS_GB2312_CHAR` -/
def IsGb2312Char (ch1 ch2 : UInt8) : Prop :=
  ((0xA1 ≤ ch1 ∧ ch1 ≤ 0xA9) ∨ (0xB0 ≤ ch1 ∧ ch1 ≤ 0xF7)) ∧ 0xA1 ≤ ch2 ∧ ch2 ≤ 0xFE

instance (ch1 ch2 : UInt8) : Decidable (IsGb2312Char ch1 ch2) :=
  inferInstanceAs (Decidable (_ ∧ _ ∧ _))

/-- `fb_textout`, from `dx` on; `x` is `x + dx` of the source.  A byte that is in no font is as wide
as one of ASCII. -/
def fbTextout (d : Display) (y : ℤ) (color : UInt16) : List UInt8 → ℤ → Pixels → Pixels
  | [], _, s => s
  | [chr], x, s => if chr ≤ 0x7F then fbDrawAsciiChar d x y chr color s else s
  | chr :: chr' :: str, x, s =>
    if chr ≤ 0x7F then
      fbTextout d y color (chr' :: str) (x + 8) (fbDrawAsciiChar d x y chr color s)
    else if IsGb2312Char chr chr' then
      fbTextout d y color str (x + 16) (fbDrawGb2312Char d x y chr chr' color s)
    else fbTextout d y color (chr' :: str) (x + consFontWidth) s

/-- `fb_put_string` -/
def fbPutString (d : Display) (x y : ℤ) (str : List UInt8) (color : UInt16) (s : Pixels) :
    Pixels :=
  fbTextout d y color str x s

/-- `fb_put_string_center` -/
def fbPutStringCenter (d : Display) (x y : ℤ) (str : List UInt8) (color : UInt16) (s : Pixels) :
    Pixels :=
  fbPutString d (x - (str.length * consFontWidth).tdiv 2) (y - consFontHeight.tdiv 2) str color s

/-! ### Rectangles -/

/-- A coordinate clipped to `0 .. res - 1`. -/
def clip (v res : ℤ) : ℤ :=
  let v := if v < 0 then 0 else v
  if res ≤ v then res - 1 else v

/-- `fb_fillrect` -/
def fbFillrect (d : Display) (x1 y1 x2 y2 : ℤ) (color : UInt16) (s : Pixels) : Pixels :=
  let (x1, x2) := if x2 < x1 then (x2, x1) else (x1, x2)
  let (y1, y2) := if y2 < y1 then (y2, y1) else (y1, y2)
  let x1 := clip x1 d.xres
  let x2 := clip x2 d.xres
  let y1 := clip y1 d.yres
  let y2 := clip y2 d.yres
  -- the loops write nothing when `x1 > x2` or `y1 > y2`
  fun p => if x1 ≤ p.1 ∧ p.1 ≤ x2 ∧ y1 ≤ p.2 ∧ p.2 ≤ y2 then color else s p

/-! ### Cells -/

/-- `align_style_t` -/
inductive AlignStyle
  | left
  | center
  | right
deriving DecidableEq

/-- How the texts of a column are drawn. -/
structure ColumnStyle where
  align : AlignStyle
  fillcolor : UInt16
  fontcolor : UInt16

/-- `m_asc_font_width` -/
def ascFontWidth : ℤ := 8

/-- `m_asc_font_height` -/
def ascFontHeight : ℤ := 16

/-- `v + 0.5` as an `int`. -/
def plusHalf (v : ℤ) : ℤ := (2 * v + 1).tdiv 2

/-- The first check of the two functions: the cell is shown, and a character fits. -/
def Paintable (active : Bool) (cell : TCell) : Prop :=
  active = true ∧ cell.visible = true ∧ ascFontWidth ≤ cell.rect.right - cell.rect.left ∧
    ascFontHeight ≤ cell.rect.bottom - cell.rect.top

instance (active : Bool) (cell : TCell) : Decidable (Paintable active cell) :=
  inferInstanceAs (Decidable (_ ∧ _ ∧ _ ∧ _))

/-- `grid_clear_cell_rect_internal`; `active` says if the group of the grid is. -/
def gridClearCellRectInternal (d : Display) (active : Bool) (column : ColumnStyle) (cell : TCell)
    (s : Pixels) : Pixels :=
  let rect := cell.rect
  if ¬ Paintable active cell ∨ cell.text.val = [] then s
  else
    let nlen : ℤ := cell.text.val.length
    let (x1, y1) :=
      if column.align = .center then
        (plusHalf (rect.left + (rect.right - rect.left).tdiv 2) - (nlen * ascFontWidth).tdiv 2,
          plusHalf (rect.top + (rect.bottom - rect.top).tdiv 2) - ascFontHeight.tdiv 2)
      else
        (rect.left + 1, plusHalf (rect.top + (rect.bottom - rect.top - ascFontHeight).tdiv 2))
    let x2 := x1 + nlen * ascFontWidth - 1
    let x2 := if x2 < rect.right - 1 then x2 else rect.right - 1
    let y2 := y1 + ascFontHeight - 1
    fbFillrect d x1 y1 x2 y2 column.fillcolor s

/-- `grid_draw_cell_text_internal` -/
def gridDrawCellTextInternal (d : Display) (active : Bool) (column : ColumnStyle) (cell : TCell)
    (s : Pixels) : Pixels :=
  let rect := cell.rect
  if ¬ Paintable active cell ∨ cell.text.val = [] then s
  else
    let nlen := ((rect.right - rect.left - 2).tdiv ascFontWidth).toNat
    let nlen := if nlen < cell.text.val.length then nlen else cell.text.val.length
    let nlen := if nlen < cellTextMax then nlen else cellTextMax
    let temp := cell.text.val.take nlen
    if column.align = .center then
      fbPutStringCenter d (plusHalf (rect.left + (rect.right - rect.left).tdiv 2))
        (plusHalf (rect.top + (rect.bottom - rect.top).tdiv 2)) temp column.fontcolor s
    else
      fbPutString d (rect.left + 1)
        (plusHalf (rect.top + (rect.bottom - rect.top - ascFontHeight).tdiv 2)) temp
        column.fontcolor s

/-- What `grid_set_cell_text` paints when it has found the cell: the old text is cleared, and the
new one drawn unless it is a null pointer. -/
def repaint (d : Display) (active : Bool) (column : ColumnStyle) (cell : TCell)
    (str : Option (List UInt8)) (s : Pixels) : Pixels :=
  let s := if cell.text.val = [] then s else gridClearCellRectInternal d active column cell s
  match str with
  | none => s
  | some str => gridDrawCellTextInternal d active column { cell with text := .ofString str } s

/-- The texts of a grid after `grid_set_cell_text`. -/
def setText (grid : TGrid) (row col : ℤ) (str : Option (List UInt8)) : TGrid :=
  { grid with columns := modifyFirst (fun column => column.index = col) (fun column =>
      { column with cells := modifyFirst (fun cell => cell.index = row + 1) (fun cell =>
          { cell with text := str.elim default .ofString }) column.cells }) grid.columns }

/-- `grid_set_cell_text`: the frame buffer and the grid.  `style` gives the style of each column. -/
def gridSetCellText (d : Display) (activeGroup : ℤ) (style : ℕ → ColumnStyle) (grid : TGrid)
    (row col : ℤ) (str : Option (List UInt8)) (s : Pixels) : Pixels × TGrid :=
  if row < 0 ∨ grid.rows ≤ row ∨ col < 0 ∨ grid.cols ≤ col then (s, grid)
  else
    match grid.columns.find? fun column => column.index = col with
    | none => (s, grid)
    | some column =>
      -- the first cell is the title
      match column.cells.find? fun cell => cell.index = row + 1 with
      | none => (s, grid)
      | some cell =>
        (repaint d (decide (grid.group = activeGroup)) (style column.index) cell str s,
          setText grid row col str)

end Painting

end SortingLine.Gui
