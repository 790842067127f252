import Mathlib.Data.Int.Notation
import Mathlib.Order.Basic

/-!
# What a grid of texts is for

A matrix of texts with a title above each column, and what setting an entry, blanking a row and
scrolling should do to it.  Rows and columns are named by integers, of which those outside the
matrix name nothing.
-/

namespace SortingLine

/-- A matrix of texts under one title a column. -/
@[ext]
structure TextMatrix (α : Type*) (rows cols : ℕ) where
  entry : Fin rows → Fin cols → α
  title : Fin cols → α

namespace TextMatrix

variable {α : Type*} [Inhabited α] {rows cols : ℕ}

/-- No text anywhere; the default text is the empty one. -/
def empty : TextMatrix α rows cols where
  entry _ _ := default
  title _ := default

/-- Replace one entry. -/
def set (m : TextMatrix α rows cols) (r c : ℤ) (s : α) : TextMatrix α rows cols :=
  { m with entry := fun i j => if (i : ℤ) = r ∧ (j : ℤ) = c then s else m.entry i j }

/-- Empty one row. -/
def blank (m : TextMatrix α rows cols) (r : ℤ) : TextMatrix α rows cols :=
  { m with entry := fun i j => if (i : ℤ) = r then default else m.entry i j }

/-- Move the rows up by `k`, or down if `k` is negative; rows that come from outside are empty. -/
def scroll (m : TextMatrix α rows cols) (k : ℤ) : TextMatrix α rows cols :=
  { m with entry := fun i j =>
      if h : 0 ≤ (i : ℤ) + k ∧ (i : ℤ) + k < rows then m.entry ⟨((i : ℤ) + k).toNat, by omega⟩ j
      else default }

/-- There is no text in the row. -/
def RowEmpty (m : TextMatrix α rows cols) (i : Fin rows) : Prop := ∀ j, m.entry i j = default

instance [DecidableEq α] (m : TextMatrix α rows cols) (i : Fin rows) : Decidable (m.RowEmpty i) :=
  inferInstanceAs (Decidable (∀ _, _ = _))

end TextMatrix

end SortingLine
