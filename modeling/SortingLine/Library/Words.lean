import Mathlib.Algebra.Order.Group.Int
import Mathlib.Data.List.Basic

/-!
# Machine words and integers

A word of 32 bits as the code makes it from an integer, and as it reads it: unsigned, or signed.
-/

namespace SortingLine

theorem toNat_ofInt (n : Int) : (UInt32.ofInt n).toNat = (n % 4294967296).toNat := by
  rw [UInt32.ofInt, UInt32.toNat_ofNat']
  omega

/-- An integer in range is the word it makes. -/
theorem natCast_toNat_ofInt {n : Int} (h₀ : 0 ≤ n) (h : n < 4294967296) :
    ((UInt32.ofInt n).toNat : Int) = n := by
  rw [toNat_ofInt]
  omega

/-- A word as an `int`. -/
def signed (w : UInt32) : Int := w.toInt32.toInt

theorem signed_eq (w : UInt32) :
    signed w = if w.toNat < 2147483648 then (w.toNat : Int) else w.toNat - 4294967296 := by
  rw [signed, Int32.toInt, UInt32.toInt32, BitVec.toInt_eq_toNat_cond]
  have := w.toNat_lt
  show (if 2 * w.toNat < _ then (w.toNat : Int) else w.toNat - _) = _
  split_ifs <;> omega

/-- An integer in the range of `int` is read back from the word it makes. -/
theorem signed_ofInt {n : Int} (h₀ : -2147483648 ≤ n) (h : n < 2147483648) :
    signed (UInt32.ofInt n) = n := by
  rw [signed_eq, toNat_ofInt]
  split_ifs <;> omega

theorem ofInt_signed (w : UInt32) : UInt32.ofInt (signed w) = w := by
  rw [← UInt32.toNat_inj, toNat_ofInt, signed_eq]
  have := w.toNat_lt
  split_ifs <;> omega

/-- Adding to a word adds to the `int`, as long as this does not overflow. -/
theorem signed_add {w : UInt32} {n : Int} (h₀ : -2147483648 ≤ signed w + n)
    (h : signed w + n < 2147483648) : signed (w + UInt32.ofInt n) = signed w + n := by
  conv_lhs => rw [← ofInt_signed w, ← UInt32.ofInt_add]
  exact signed_ofInt h₀ h

end SortingLine
