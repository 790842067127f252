import Mathlib.Algebra.Order.Ring.Rat
import Mathlib.Data.Set.Defs
import SortingLine.Gui.Layout

/-!
# The layout of grids, in machine integers

The functions of `Layout` that compute rectangles, with each sum checked: where a value leaves the
range of `int` the source has no defined behaviour, and the result here is `none`.  What the sums
are made of (`b_max`, the heights of the rows and so on) stays in range by itself, as no screen is
larger than the driver allows.
-/

namespace SortingLine.Gui.Tiling

open Layout

/-- The largest `int`. -/
def intMax : ℤ := 2147483647

/-- The value as an `int`. -/
def int32 (v : ℤ) : Option ℤ := if -intMax - 1 ≤ v ∧ v ≤ intMax then some v else none

/-- The sizes that `LS1x_fb_parse_vgamode` does not refuse, and the size before there is a screen.
-/
structure Supported (fb : Framebuffer) : Prop where
  pixelsx : fb.pixelsx ≤ 2000
  pixelsy : fb.pixelsy ≤ 2000

/-! ### The layout pass -/

/-- The loop over the cells of a column, with `j` and `_top`. -/
def layCells (f : Frame) (left dx : ℤ) (visible : Bool) : ℕ → ℤ → List TCell → Option (List TCell)
  | _, _, [] => some []
  | j, top, cell :: cells =>
    (int32 (left + dx)).bind fun right =>
    (int32 (top + if j = 0 then f.th else f.ch)).bind fun bottom =>
    (layCells f left dx visible (j + 1) bottom cells).map fun cells =>
      { cell with
        border := (if right < f.rMax then borderRight else 0) |||
          (if bottom < f.bMax then borderBottom else 0)
        visible
        rect := {
          left
          top
          right := if right < f.rMax then right else f.rMax
          bottom := if bottom < f.bMax then bottom else f.bMax }
        index := j } :: cells

/-- The loop over the columns, with `i` and `_left`. -/
def layColumns (f : Frame) : ℕ → ℤ → List TColumn → Option (List TColumn)
  | _, _, [] => some []
  | i, left, column :: columns =>
    (int32 column.width).bind fun dx =>
    (int32 (left + dx)).bind fun right =>
    (layCells f left dx (decide (left < f.rMax)) 0 f.top column.cells).bind fun cells =>
    (layColumns f (i + 1) right columns).map fun columns =>
      { column with
        rect := {
          left
          top := f.top
          right
          bottom := (cells.getLast?).elim f.bMax fun cell => cell.rect.bottom }
        visible := decide (left < f.rMax)
        cells
        index := i } :: columns

/-- `grid_calcurate_cell_rect_internal` -/
def gridCalcurateCellRectInternal (grid : TGrid) : Option TGrid :=
  if ¬ grid.layoutChanged ∨ grid.rows = 0 ∨ grid.cols = 0 then some grid
  else
    (layColumns (frame grid) 0 (frame grid).left grid.columns).map fun columns =>
      { grid with columns, layoutChanged := false }

/-! ### Calls -/

/-- `create_grid`; the inner `none` is a null pointer. -/
def createGrid (fb : Framebuffer) (rect : TRect) (rows cols group : ℤ) : Option (Option TGrid) :=
  if Creatable fb rect rows cols then
    let rect := normalizeRect rect
    let cw := (rect.right - rect.left).tdiv cols
    let grid : TGrid :=
      { rect, rows := rows.toNat, cols := cols.toNat, borderwidth := 2, titleheight := 0, group,
        layoutChanged := true, columns := [], cyclic := false, drawn := none }
    let grid := (List.range cols.toNat).foldl
      (fun grid i => Layout.gridNewColumnInternal grid cw i) grid
    (gridCalcurateCellRectInternal grid).map some
  else some none

/-- The arguments of a call of `grid_set_column_width`. -/
structure WidthCall where
  index : ℤ
  width : ℤ
deriving DecidableEq

/-- `grid_set_column_width` -/
def gridSetColumnWidth (grid : TGrid) (call : WidthCall) : Option TGrid :=
  match gridGetColumn grid call.index with
  | none => some grid
  | some q =>
    if (grid.columns[q]?).map TColumn.width = some call.width then some grid
    else
      ((grid.columns[q]?).bind fun column =>
          int32 (column.rect.left + call.width)).bind fun right =>
        gridCalcurateCellRectInternal { grid with
          layoutChanged := true
          columns := grid.columns.modify q fun column =>
            { column with rect := { column.rect with right } } }

/-- The grid after these calls. -/
def afterCalls (grid : TGrid) (calls : List WidthCall) : Option TGrid :=
  calls.foldlM gridSetColumnWidth grid

/-! ### Tilings -/

/-- The points within a rectangle, between the pixels too. -/
def interior (rect : TRect) : Set (ℚ × ℚ) :=
  {p | rect.left < p.1 ∧ p.1 < rect.right ∧ rect.top < p.2 ∧ p.2 < rect.bottom}

/-- Cell `j` of column `i`. -/
def cellAt (grid : TGrid) (i j : ℕ) : Option TCell :=
  (grid.columns[i]?).bind fun column => column.cells[j]?

/-- The rectangle is within the border of the grid. -/
def InFrame (f : Frame) (rect : TRect) : Prop :=
  f.left ≤ rect.left ∧ rect.right ≤ f.rMax ∧ f.top ≤ rect.top ∧ rect.bottom ≤ f.bMax

/-- Column `i'` is the next visible one after column `i`. -/
structure NextVisible (grid : TGrid) (i i' : ℕ) : Prop where
  lt : i < i'
  between : ∀ k column, i < k → k < i' → grid.columns[k]? = some column → column.visible = false

/-- **The visible cells tile the grid.** -/
structure Tiles (grid : TGrid) : Prop where
  ordered : ∀ column ∈ grid.columns, column.visible = true → ∀ cell ∈ column.cells,
    cell.rect.left ≤ cell.rect.right ∧ cell.rect.top ≤ cell.rect.bottom
  inFrame : ∀ column ∈ grid.columns, column.visible = true → ∀ cell ∈ column.cells,
    InFrame (frame grid) cell.rect
  /-- Neighbours share an edge, unless it is the border. -/
  rightEdge : ∀ i i' column column', NextVisible grid i i' → grid.columns[i]? = some column →
    grid.columns[i']? = some column' → column.visible = true → column'.visible = true →
    ∀ cell ∈ column.cells, ∀ cell' ∈ column'.cells,
      cell.rect.right = cell'.rect.left ∨ cell.rect.right = (frame grid).rMax
  bottomEdge : ∀ column ∈ grid.columns, column.visible = true → ∀ j cell cell',
    column.cells[j]? = some cell → column.cells[j + 1]? = some cell' →
      cell.rect.bottom = cell'.rect.top ∨ cell.rect.bottom = (frame grid).bMax
  apart : ∀ i j i' j' cell cell', cellAt grid i j = some cell → cellAt grid i' j' = some cell' →
    cell.visible = true → cell'.visible = true → (i, j) ≠ (i', j') →
    ∀ p ∈ interior cell.rect, p ∉ interior cell'.rect

end SortingLine.Gui.Tiling
