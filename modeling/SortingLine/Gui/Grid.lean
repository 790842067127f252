import SortingLine.Gui.TextMatrix
import SortingLine.Library.Run
import Mathlib.Data.Fin.Basic

/-!
# The texts of a grid

The part of `simple_gui.c` that creates a grid and moves texts between its cells, without the
painting.  The columns of a grid and the cells of a column are queues; the first cell of a column
is its title.  A string is the list of its bytes before the terminating zero.
-/

namespace SortingLine.Gui

/-- `CELL_TEXT_MAX` -/
def cellTextMax : ℕ := 100

/-- The text of a cell, which fits in its buffer. -/
def CellText := { s : List UInt8 // s.length ≤ cellTextMax }

instance : DecidableEq CellText :=
  inferInstanceAs (DecidableEq { s : List UInt8 // s.length ≤ cellTextMax })

instance : Inhabited CellText := ⟨⟨[], Nat.zero_le _⟩⟩

/-- `strncpy` of at most `CELL_TEXT_MAX` bytes. -/
def CellText.ofString (s : List UInt8) : CellText :=
  ⟨s.take cellTextMax, List.length_take_le cellTextMax s⟩

/-- `TCell` -/
structure Cell where
  index : ℕ
  text : CellText
deriving DecidableEq

/-- `TColumn` -/
structure Column where
  index : ℕ
  cellcount : ℕ
  cells : List Cell
deriving DecidableEq

/-- `TGrid` -/
structure Grid where
  rows : ℕ
  cols : ℕ
  columns : List Column
deriving DecidableEq

/-! ### Creation -/

/-- `grid_new_column_internal`; the index is set by the caller. -/
def gridNewColumnInternal (rows index : ℕ) : Column where
  index
  cellcount := rows + 1
  cells := (List.range (rows + 1)).map fun i => { index := i, text := default }

/-- `create_grid` with a rectangle on the screen. -/
def createGrid (rows cols : ℕ) : Grid where
  rows
  cols
  columns := (List.range cols).map (gridNewColumnInternal rows)

/-! ### Operations -/

/-- The loop that looks for an element, changes it and leaves. -/
def modifyFirst {α : Type*} (p : α → Bool) (f : α → α) : List α → List α
  | [] => []
  | a :: as => if p a then f a :: as else a :: modifyFirst p f as

/-- `grid_set_cell_text`; `none` is a null pointer. -/
def gridSetCellText (grid : Grid) (row col : ℤ) (str : Option (List UInt8)) : Grid :=
  if row < 0 ∨ grid.rows ≤ row ∨ col < 0 ∨ grid.cols ≤ col then grid
  else
    let setText (cell : Cell) : Cell := { cell with text := str.elim default .ofString }
    -- the first cell is the title
    let setColumn (column : Column) : Column :=
      { column with cells := modifyFirst (fun cell => cell.index = row + 1) setText column.cells }
    { grid with columns := modifyFirst (fun column => column.index = col) setColumn grid.columns }

/-- `grid_blank_row` -/
def gridBlankRow (grid : Grid) (row : ℤ) : Grid :=
  { grid with columns := grid.columns.map fun column =>
      { column with cells := column.cells.map fun cell =>
          if cell.index = row then { cell with text := default } else cell } }

/-- `grid_get_cell`: the place of the cell in the queue. -/
def gridGetCell (column : Column) (index : ℤ) : Option ℕ :=
  if index < 1 ∨ column.cellcount ≤ index then none
  else column.cells.findIdx? fun cell => cell.index = index

/-- The text of the cell at a place in the queue. -/
def textAt (column : Column) (p : ℕ) : CellText :=
  (column.cells[p]?).elim default Cell.text

/-- The column with another text in the cell at a place in the queue. -/
def setTextAt (column : Column) (p : ℕ) (text : CellText) : Column :=
  { column with cells := column.cells.modify p fun cell => { cell with text } }

/-- One pass of the inner loop of `grid_scroll_rows`, with `p_cell` at place `p` in the queue.  A
sum of the indices that leaves the range of `int` names no cell, wrapped around or not. -/
def scrollCell (rows : ℤ) (column : Column) (p : ℕ) : Column :=
  match column.cells[p]? with
  | none => column
  | some pCell =>
    let column := setTextAt column p default
    match gridGetCell column (pCell.index + rows) with
    | none => column
    | some q =>
      let text := textAt column q
      if text = default then column else setTextAt (setTextAt column p text) q default

/-- `grid_scroll_rows` -/
def gridScrollRows (grid : Grid) (rows : ℤ) : Grid :=
  { grid with columns := grid.columns.map fun column =>
      (List.range column.cells.length).foldl (scrollCell rows) column }

/-- A call. -/
inductive GridOp
  | setCellText (row col : ℤ) (str : Option (List UInt8))
  | blankRow (row : ℤ)
  | scrollRows (rows : ℤ)
deriving DecidableEq

/-- The grid after a call. -/
def Grid.apply (grid : Grid) : GridOp → Grid
  | .setCellText row col str => gridSetCellText grid row col str
  | .blankRow row => gridBlankRow grid row
  | .scrollRows rows => gridScrollRows grid rows

/-! ### Grid and matrix side by side -/

/-- What a call should do. -/
def applyOp {rows cols : ℕ} (m : TextMatrix CellText rows cols) :
    GridOp → TextMatrix CellText rows cols
  | .setCellText row col str => m.set row col (str.elim default .ofString)
  | .blankRow row => m.blank row
  | .scrollRows k => m.scroll k

/-- The texts that a grid of this size shows. -/
def Grid.texts (grid : Grid) (rows cols : ℕ) : TextMatrix CellText rows cols where
  entry i j := (grid.columns[j.val]?).elim default fun column => textAt column (i + 1)
  title j := (grid.columns[j.val]?).elim default fun column => textAt column 0

/-- The code's grid and the matrix that it should show. -/
structure Paired (rows cols : ℕ) where
  grid : Grid
  matrix : TextMatrix CellText rows cols

namespace Paired

variable {rows cols : ℕ}

/-- After `create_grid`. -/
def start (rows cols : ℕ) : Paired rows cols where
  grid := createGrid rows cols
  matrix := .empty

/-- One call, on both. -/
def step (s : Paired rows cols) (op : GridOp) : Option (Paired rows cols) :=
  some { grid := s.grid.apply op, matrix := applyOp s.matrix op }

/-- The state `s` is reached by the calls `tr`. -/
def Reaches (tr : List (Paired rows cols × GridOp)) (s : Paired rows cols) : Prop :=
  Run step (start rows cols) tr s

/-- The grid shows the matrix, and no text in a title cell. -/
def Refines (s : Paired rows cols) : Prop :=
  s.grid.texts rows cols = s.matrix ∧ ∀ j, (s.grid.texts rows cols).title j = default

end Paired

end SortingLine.Gui
