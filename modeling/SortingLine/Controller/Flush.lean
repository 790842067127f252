import SortingLine.Controller.Data

/-!
# The flush task

`rt_flush_task` of `gui/new_gui.c` takes the messages from `output_datas_mq` one by one and writes
them into the cells of the table on the screen.  A cell is modelled by the values that were last
formatted into it; the fixed captions of the columns 0, 2 and 4 are left out.
-/

namespace SortingLine

/-- What was formatted into a cell. -/
inductive Cell
  /-- `rt_sprintf (.., " %i", v)`. -/
  | num (v : UInt32)
  /-- `rt_sprintf (.., "%i.%i.%i", year, mon, day)`. -/
  | date (year mon day : UInt32)
  /-- The text `OK`. -/
  | ok
deriving DecidableEq, Repr

/-- The table: the last thing written to each cell, if any. -/
def Grid : Type := Nat → Nat → Option Cell

namespace Grid

/-- No cell written. -/
def blank : Grid := fun _ _ => none

/-- `gui_drawtext_in_grid (row, col, ..)`. -/
def set (g : Grid) (row col : Nat) (c : Cell) : Grid :=
  fun r k => if r = row ∧ k = col then some c else g r k

/-- The `switch` of `rt_flush_task`. -/
def draw (g : Grid) : OutMsg → Grid
  | .data vMeasure qualified total qualifiedAmount =>
    (((g.set 0 1 (.num vMeasure)).set 2 1 (.num qualified)).set 0 3 (.num total)).set 1 3
      (.num qualifiedAmount)
  | .threshold v => g.set 1 1 (.num v)
  | .rtc year mon day => g.set 2 3 (.date year mon day)
  | .productInfo total qualifiedAmount =>
    (g.set 0 3 (.num total)).set 1 3 (.num qualifiedAmount)
  | .csq v => g.set 0 5 (.num v)
  | .msgId v => (g.set 1 5 (.num v)).set 2 5 .ok

/-- Draw the messages of a list in order. -/
def drawAll (g : Grid) (ms : List OutMsg) : Grid := ms.foldl draw g

end Grid

end SortingLine
