import SortingLine.Gui.Layout
import SortingLine.Library.TailqEdit

/-!
# The queue of columns

`grid_get_column`, `grid_set_column_index` and the layout pass once more, with the columns as nodes
of a tail queue.  A pointer to a column is its node.  Loops make at most `n` passes.
-/

namespace SortingLine.Gui

/-- A grid whose columns are linked: `columns` is in the place of the list in `grid`, which is not
read. -/
structure LinkedGrid (ι : Type*) where
  grid : TGrid
  columns : Tailq ι TColumn

namespace Queue

open Layout

variable {ι : Type*}

/-- `grid_get_column` -/
def gridGetColumn (n : ℕ) (g : LinkedGrid ι) (index : ℤ) : Option (Option ι) :=
  g.columns.find (fun column => column.index = index) n g.columns.first

/-- The body of the loop over the columns, with `i` and `_left`. -/
def layColumn (f : Frame) (s : ℕ × ℤ) (column : TColumn) : TColumn × (ℕ × ℤ) :=
  let (i, left) := s
  let dx := column.width
  let visible := decide (left < f.rMax)
  let cells := layCells f left dx visible 0 f.top column.cells
  ({ column with
      rect := {
        left
        top := f.top
        right := left + dx
        bottom := (cells.getLast?).elim f.bMax fun cell => cell.rect.bottom }
      visible
      cells
      index := i }, (i + 1, left + dx))

variable [DecidableEq ι]

/-- `grid_calcurate_cell_rect_internal` -/
def gridCalcurateCellRectInternal (n : ℕ) (g : LinkedGrid ι) : Option (LinkedGrid ι) :=
  if ¬ g.grid.layoutChanged ∨ g.grid.rows = 0 ∨ g.grid.cols = 0 then some g
  else
    let f := frame g.grid
    (Tailq.foreach (layColumn f) n g.columns (0, f.left) g.columns.first).map fun columns =>
      { grid := { g.grid with layoutChanged := false }, columns }

/-- `grid_set_column_index` -/
def gridSetColumnIndex (n : ℕ) (g : LinkedGrid ι) (column : ι) (index : ℤ) :
    Option (LinkedGrid ι) :=
  (gridGetColumn n g index).bind fun col =>
  match col with
  | none => some g
  | some col =>
    (g.columns.remove column).bind fun columns =>
    (columns.insertBefore col column).bind fun columns =>
    gridCalcurateCellRectInternal n { grid := { g.grid with layoutChanged := true }, columns }

/-! ### What is promised -/

/-- The grid has these columns, and the number of each is its place. -/
structure Numbered (g : LinkedGrid ι) (l : List ι) : Prop where
  rows : g.grid.rows ≠ 0
  cols : g.grid.cols ≠ 0
  represents : g.columns.Represents l
  indices : l.map (fun a => (g.columns.dataOf a).map TColumn.index) =
    (List.range l.length).map some

/-- Moving the column at place `p` puts it at place `i`, with enough passes for each loop. -/
def MovesTo (g : LinkedGrid ι) (l : List ι) (p i : ℕ) (column : ι) : Prop :=
  ∃ N, ∀ n ≥ N, ∃ g', gridSetColumnIndex n g column i = some g' ∧
    Numbered g' ((l.eraseIdx p).insertIdx i column) ∧
    g'.columns.nodes n g'.columns.first = some ((l.eraseIdx p).insertIdx i column)

end Queue

end SortingLine.Gui
