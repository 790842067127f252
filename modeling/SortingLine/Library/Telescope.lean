import Mathlib.Algebra.BigOperators.Group.List.Basic
import Mathlib.Algebra.Order.Group.Abs
import Mathlib.Algebra.Order.Group.MinMax
import Mathlib.Data.List.Chain

/-!
# Clamped differences

The differences of a sequence, each cut off at 0.  Without the cut their sum telescopes; the cut can
only add to it, and adds nothing exactly when the sequence never increases.
-/

namespace SortingLine

variable {α : Type*} [AddCommGroup α] [LinearOrder α]

/-- What each element of `a :: as` loses to the next one, and 0 where it gains. -/
def drops : α → List α → List α
  | _, [] => []
  | a, b :: bs => max 0 (a - b) :: drops b bs

theorem drops_append (a : α) (as : List α) (b : α) :
    drops a (as ++ [b]) = drops a as ++ [max 0 (as.getLastD a - b)] := by
  induction as generalizing a with
  | nil => rfl
  | cons c cs ih => rw [List.cons_append, drops, ih, drops, List.getLastD_cons, List.cons_append]

variable [IsOrderedAddMonoid α]

/-- **The sum of the drops is at least the whole drop.** -/
theorem sub_getLast_le_sum_drops (a : α) (as : List α) :
    a - as.getLastD a ≤ (drops a as).sum := by
  induction as generalizing a with
  | nil => simp [drops]
  | cons b bs ih =>
    rw [drops, List.sum_cons, List.getLastD_cons]
    calc a - bs.getLastD b = (a - b) + (b - bs.getLastD b) := (sub_add_sub_cancel ..).symm
      _ ≤ max 0 (a - b) + (drops b bs).sum := add_le_add (le_max_right ..) (ih b)

/-- **The sum of the drops is the whole drop** exactly when the sequence never increases. -/
theorem sum_drops_eq_iff (a : α) (as : List α) :
    (drops a as).sum = a - as.getLastD a ↔
      (a :: as).IsChain (· ≥ ·) := by
  induction as generalizing a with
  | nil => simp [drops]
  | cons b bs ih =>
    have hle := sub_getLast_le_sum_drops b bs
    have hcut : a - b ≤ max 0 (a - b) := le_max_right ..
    rw [drops, List.sum_cons, List.getLastD_cons, List.isChain_cons_cons, ← ih b,
      ← sub_add_sub_cancel a b (bs.getLastD b)]
    constructor
    · intro h
      -- neither part can make up for the other
      obtain ⟨hab, hrest⟩ := (add_eq_add_iff_eq_and_eq hcut hle).mp h.symm
      exact ⟨by simpa using hab.symm, hrest.symm⟩
    · rintro ⟨hab, hrest⟩
      rw [hrest, max_eq_right (sub_nonneg.mpr hab)]

end SortingLine
