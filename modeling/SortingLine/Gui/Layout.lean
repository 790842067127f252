import SortingLine.Gui.Grid

/-!
# The layout of grids

The part of `simple_gui.c` that creates grids, adds, moves, widens and deletes their columns,
computes the rectangles of the cells, and paints the grids of the active group.  `layout_changed`
asks for both: `grid_calcurate_cell_rect_internal` does nothing unless it is set, and neither does
`paint_grid`; both clear it.

Coordinates are integers: a sum that leaves the range of `int` is undefined in the source.  Colours,
titles and formats are left out, and so is what is drawn, but for the rectangles of the cells.  A
pointer to a grid, or to a column, is its place in its queue.
-/

namespace SortingLine.Gui

/-- `TRect` -/
structure TRect where
  left : ℤ
  top : ℤ
  right : ℤ
  bottom : ℤ
deriving DecidableEq

/-- `TCell` -/
structure TCell where
  rect : TRect
  index : ℕ
  border : ℕ
  visible : Bool
  text : CellText
deriving DecidableEq

/-- `TColumn` -/
structure TColumn where
  rect : TRect
  index : ℕ
  visible : Bool
  cellcount : ℕ
  cells : List TCell
deriving DecidableEq

/-- The width of a column, as the source computes it wherever it needs it. -/
def TColumn.width (column : TColumn) : ℤ := column.rect.right - column.rect.left

/-- `TGrid` -/
structure TGrid where
  rect : TRect
  rows : ℕ
  cols : ℕ
  borderwidth : ℤ
  titleheight : ℤ
  group : ℤ
  layoutChanged : Bool
  columns : List TColumn
  /-- A column was inserted before itself: a loop over the columns does not end. -/
  cyclic : Bool
  /-- The rectangles of the cells that were drawn last, a history value. -/
  drawn : Option (List TRect)
deriving DecidableEq

namespace Layout

/-! ### The layout pass -/

/-- The margins of a grid and the heights of its rows, as `grid_calcurate_cell_rect_internal`
computes them. -/
structure Frame where
  left : ℤ
  top : ℤ
  rMax : ℤ
  bMax : ℤ
  th : ℤ
  ch : ℤ

/-- The first lines of `grid_calcurate_cell_rect_internal`. -/
def frame (grid : TGrid) : Frame :=
  let inner := grid.rect.bottom - grid.rect.top - grid.borderwidth * 2
  let ch := if grid.titleheight ≤ 0 then inner.tdiv (grid.rows + 1)
    else (inner - grid.titleheight).tdiv grid.rows
  { left := grid.rect.left + grid.borderwidth
    top := grid.rect.top + grid.borderwidth
    rMax := grid.rect.right - grid.borderwidth
    bMax := grid.rect.bottom - grid.borderwidth
    th := if grid.titleheight ≤ 0 then ch else grid.titleheight
    ch }

/-- `border_right` -/
def borderRight : ℕ := 4

/-- `border_bottom` -/
def borderBottom : ℕ := 8

/-- The loop over the cells of a column, with `j` and `_top`. -/
def layCells (f : Frame) (left dx : ℤ) (visible : Bool) : ℕ → ℤ → List TCell → List TCell
  | _, _, [] => []
  | j, top, cell :: cells =>
    -- the first cell is the title
    let dy := if j = 0 then f.th else f.ch
    { cell with
      border := (if left + dx < f.rMax then borderRight else 0) |||
        (if top + dy < f.bMax then borderBottom else 0)
      visible
      rect := {
        left
        top
        right := if left + dx < f.rMax then left + dx else f.rMax
        bottom := if top + dy < f.bMax then top + dy else f.bMax }
      index := j } :: layCells f left dx visible (j + 1) (top + dy) cells

/-- The loop over the columns, with `i` and `_left`. -/
def layColumns (f : Frame) : ℕ → ℤ → List TColumn → List TColumn
  | _, _, [] => []
  | i, left, column :: columns =>
    let dx := column.width
    let visible := decide (left < f.rMax)
    let cells := layCells f left dx visible 0 f.top column.cells
    { column with
      rect := {
        left
        top := f.top
        right := left + dx
        bottom := (cells.getLast?).elim f.bMax fun cell => cell.rect.bottom }
      visible
      cells
      index := i } :: layColumns f (i + 1) (left + dx) columns

/-- `grid_calcurate_cell_rect_internal` -/
def gridCalcurateCellRectInternal (grid : TGrid) : TGrid :=
  if ¬ grid.layoutChanged ∨ grid.rows = 0 ∨ grid.cols = 0 then grid
  else { grid with
    columns := layColumns (frame grid) 0 (frame grid).left grid.columns
    layoutChanged := false }

/-! ### Columns -/

/-- The cell `grid_new_column_internal` makes. -/
def newCell (width : ℤ) (index : ℕ) : TCell where
  rect := ⟨0, 0, width, 0⟩
  index
  border := 0
  visible := false
  text := default

/-- The column `grid_new_column_internal` makes. -/
def newColumn (rows : ℕ) (width : ℤ) (index : ℕ) : TColumn where
  rect := ⟨0, 0, width, 0⟩
  index
  visible := true
  cellcount := rows + 1
  cells := (List.range (rows + 1)).map (newCell width)

/-- `grid_new_column_internal`, with the index that the caller gives the column, or 0. -/
def gridNewColumnInternal (grid : TGrid) (width : ℤ) (index : ℕ) : TGrid :=
  { grid with
    columns := grid.columns ++ [newColumn grid.rows width index]
    layoutChanged := true }

/-- `grid_get_column`: the place of the column. -/
def gridGetColumn (grid : TGrid) (index : ℤ) : Option ℕ :=
  grid.columns.findIdx? fun column => column.index = index

/-- `TAILQ_REMOVE` of the element at place `p`, and `TAILQ_INSERT_BEFORE` the one at place `q`. -/
def moveBefore {α : Type*} (l : List α) (p q : ℕ) : List α :=
  match l[p]? with
  | none => l
  | some a => (l.eraseIdx p).insertIdx (if q < p then q else q - 1) a

/-- `grid_set_column_index` of the column at place `p`. -/
def gridSetColumnIndex (grid : TGrid) (p : ℕ) (index : ℤ) : TGrid :=
  match gridGetColumn grid index with
  | none => grid
  | some q =>
    -- an element inserted before itself is its own successor
    if q = p then { grid with layoutChanged := true, cyclic := true }
    else gridCalcurateCellRectInternal
      { grid with layoutChanged := true, columns := moveBefore grid.columns p q }

/-- `grid_set_column_width` -/
def gridSetColumnWidth (grid : TGrid) (index width : ℤ) : TGrid :=
  match gridGetColumn grid index with
  | none => grid
  | some q =>
    if (grid.columns[q]?).map TColumn.width = some width then grid
    else gridCalcurateCellRectInternal { grid with
      layoutChanged := true
      columns := grid.columns.modify q fun column =>
        { column with rect := { column.rect with right := column.rect.left + width } } }

/-- `grid_new_column` -/
def gridNewColumn (grid : TGrid) (index width : ℤ) : TGrid :=
  if grid.columns = [] then grid
  else gridSetColumnIndex (gridNewColumnInternal grid width 0) grid.columns.length index

/-- `grid_delete_column` -/
def gridDeleteColumn (grid : TGrid) (index : ℤ) : TGrid :=
  match gridGetColumn grid index with
  | none => grid
  | some q => gridCalcurateCellRectInternal
      { grid with layoutChanged := true, columns := grid.columns.eraseIdx q }

/-! ### Grids -/

/-- `normalize_rect` -/
def normalizeRect (rect : TRect) : TRect where
  left := if rect.right < rect.left then rect.right else rect.left
  top := if rect.bottom < rect.top then rect.bottom else rect.top
  right := if rect.right < rect.left then rect.left else rect.right
  bottom := if rect.bottom < rect.top then rect.top else rect.bottom

/-- What `fb_get_pixelsx` and `fb_get_pixelsy` return. -/
structure Framebuffer where
  pixelsx : ℤ
  pixelsy : ℤ

/-- The check at the start of `create_grid`. -/
def Creatable (fb : Framebuffer) (rect : TRect) (rows cols : ℤ) : Prop :=
  ¬ ((normalizeRect rect).left < 0 ∨ (normalizeRect rect).top < 0 ∨
    fb.pixelsx < (normalizeRect rect).right ∨ fb.pixelsy < (normalizeRect rect).bottom ∨
    rows ≤ 0 ∨ cols ≤ 0)

instance (fb : Framebuffer) (rect : TRect) (rows cols : ℤ) :
    Decidable (Creatable fb rect rows cols) :=
  inferInstanceAs (Decidable (¬ _))

/-- `create_grid` -/
def createGrid (fb : Framebuffer) (rect : TRect) (rows cols group : ℤ) : Option TGrid :=
  if Creatable fb rect rows cols then
    let rect := normalizeRect rect
    let cw := (rect.right - rect.left).tdiv cols
    let grid : TGrid :=
      { rect, rows := rows.toNat, cols := cols.toNat, borderwidth := 2, titleheight := 0, group,
        layoutChanged := true, columns := [], cyclic := false, drawn := none }
    let grid := (List.range cols.toNat).foldl
      (fun grid i => gridNewColumnInternal grid cw i) grid
    some (gridCalcurateCellRectInternal grid)
  else none

/-- The rectangles of the cells that `paint_grid` draws. -/
def visibleCells (grid : TGrid) : List TRect :=
  grid.columns.flatMap fun column =>
    if column.visible then (column.cells.filter TCell.visible).map TCell.rect else []

/-- `paint_grid` -/
def paintGrid (grid : TGrid) : TGrid :=
  if ¬ grid.layoutChanged then grid
  else { grid with drawn := some (visibleCells grid), layoutChanged := false }

/-! ### The screen -/

/-- `gui_grids` and `gui_active_group`. -/
structure Screen where
  grids : List TGrid
  activeGroup : ℤ

/-- No grid yet. -/
def empty : Screen := { grids := [], activeGroup := -1 }

/-- `paint_active_grids` -/
def paintActiveGrids (s : Screen) : Screen :=
  { s with
    grids := s.grids.map fun grid => if grid.group = s.activeGroup then paintGrid grid else grid }

/-- `set_gui_active_group` -/
def setGuiActiveGroup (s : Screen) (group : ℤ) : Screen where
  grids := s.grids.map fun grid => { grid with layoutChanged := true }
  activeGroup := group

/-- A call about the columns of one grid. -/
inductive ColumnCall
  | new (index width : ℤ)
  | delete (index : ℤ)
  | setIndex (p : ℕ) (index : ℤ)
  | setWidth (index width : ℤ)
deriving DecidableEq

/-- A call. -/
inductive Call
  | createGrid (rect : TRect) (rows cols group : ℤ)
  | column (k : ℕ) (call : ColumnCall)
  | setGuiActiveGroup (group : ℤ)
  | paintActiveGrids
deriving DecidableEq

/-- The grid after a call about its columns; `none` if the column given is not one of the grid. -/
def columnCall (grid : TGrid) : ColumnCall → Option TGrid
  | .new index width => some (gridNewColumn grid index width)
  | .delete index => some (gridDeleteColumn grid index)
  | .setIndex p index =>
    if p < grid.columns.length then some (gridSetColumnIndex grid p index) else none
  | .setWidth index width => some (gridSetColumnWidth grid index width)

/-- One call; `none` if the grid given is none of the screen, or an earlier call has not returned.
-/
def step (fb : Framebuffer) (s : Screen) (call : Call) : Option Screen :=
  if s.grids.any TGrid.cyclic then none
  else
    match call with
    | .createGrid rect rows cols group =>
      match createGrid fb rect rows cols group with
      | none => some s
      | some grid => some { s with grids := s.grids ++ [grid] }
    | .column k call =>
      (s.grids[k]?).bind fun grid => (columnCall grid call).map fun grid =>
        { s with grids := s.grids.set k grid }
    | .setGuiActiveGroup group => some (setGuiActiveGroup s group)
    | .paintActiveGrids => some (paintActiveGrids s)

/-- The texts of a grid. -/
def toGrid (grid : TGrid) : Grid where
  rows := grid.rows
  cols := grid.cols
  columns := grid.columns.map fun column =>
    { index := column.index, cellcount := column.cellcount,
      cells := column.cells.map fun cell => { index := cell.index, text := cell.text } }

end Layout

end SortingLine.Gui
