import Mathlib.Algebra.Order.Ring.Int
import Mathlib.Tactic.Linarith
import Mathlib.Tactic.Ring

/-!
# Integers of C

`int` has 32 bits.  `checked` is arithmetic that is not defined outside of them, `Int32.ofInt` an
assignment that drops the bits above (`toInt_ofInt_eq_iff`).  A division rounds towards zero, so the
numbers with one quotient form a cell that lies on the outer side of the product, and on both sides
of zero (`tdiv_eq_iff`).
-/

namespace SortingLine

/-- The value is an `int`. -/
def InInt (v : ℤ) : Prop := -2147483648 ≤ v ∧ v ≤ 2147483647

instance (v : ℤ) : Decidable (InInt v) := inferInstanceAs (Decidable (_ ∧ _))

/-- The value is an `int64_t`. -/
def InInt64 (v : ℤ) : Prop := -9223372036854775808 ≤ v ∧ v ≤ 9223372036854775807

/-- A result of `int` arithmetic, if it is defined. -/
def checked (v : ℤ) : Option ℤ := if InInt v then some v else none

theorem checked_eq_some_iff {v w : ℤ} : checked v = some w ↔ InInt v ∧ v = w := by
  unfold checked
  split_ifs with h
  · simp [h]
  · simp [h]

/-- Arithmetic that goes on with a result. -/
theorem bind_checked_eq_some {α : Type} {v : ℤ} {k : ℤ → Option α} {a : α} :
    (checked v >>= k) = some a ↔ InInt v ∧ k v = some a := by
  simp only [Option.bind_eq_bind, Option.bind_eq_some_iff, checked_eq_some_iff]
  constructor
  · rintro ⟨_, ⟨h, rfl⟩, hk⟩
    exact ⟨h, hk⟩
  · rintro ⟨h, hk⟩
    exact ⟨v, ⟨h, rfl⟩, hk⟩

/-- An assignment keeps the value up to a multiple of `2 ^ 32`. -/
theorem toInt_ofInt_eq_iff {v w : ℤ} :
    (Int32.ofInt v).toInt = w ↔ InInt w ∧ ∃ k : ℤ, v = w + k * 4294967296 := by
  have hsize : Int32.size = 4294967296 := rfl
  rw [Int32.toInt_ofInt, hsize, InInt]
  constructor
  · rintro rfl
    have hle : -(((4294967296 : ℕ) : ℤ) / 2) ≤ v.bmod 4294967296 := Int.le_bmod (by decide)
    have hlt : v.bmod 4294967296 < (((4294967296 : ℕ) : ℤ) + 1) / 2 := Int.bmod_lt (by decide)
    have hsum := Int.bmod_add_bdiv' v 4294967296
    push_cast at hle hlt hsum
    exact ⟨⟨by omega, by omega⟩, v.bdiv 4294967296, hsum.symm⟩
  · rintro ⟨hw, k, rfl⟩
    have hdrop := Int.add_mul_bmod_self_right w k 4294967296
    push_cast at hdrop
    rw [hdrop, Int.bmod_eq_of_le (by push_cast; omega) (by push_cast; omega)]

theorem toInt_ofInt_eq_self_iff {v : ℤ} : (Int32.ofInt v).toInt = v ↔ InInt v := by
  rw [toInt_ofInt_eq_iff]
  exact ⟨fun h => h.1, fun h => ⟨h, 0, by omega⟩⟩

/-- A sum of two registers. -/
theorem exists_toInt_add (u v : Int32) :
    ∃ k : ℤ, u.toInt + v.toInt = (u + v).toInt + k * 4294967296 := by
  have hsum := Int.bmod_add_bdiv' (u.toInt + v.toInt) 4294967296
  rw [Int32.toInt_add]
  exact ⟨(u.toInt + v.toInt).bdiv 4294967296, hsum.symm⟩

/-- A difference of two registers. -/
theorem exists_toInt_sub (u v : Int32) :
    ∃ k : ℤ, u.toInt - v.toInt = (u - v).toInt + k * 4294967296 := by
  have hsum := Int.bmod_add_bdiv' (u.toInt - v.toInt) 4294967296
  rw [Int32.toInt_sub]
  exact ⟨(u.toInt - v.toInt).bdiv 4294967296, hsum.symm⟩

theorem inInt_toInt (v : Int32) : InInt v.toInt := by
  have hle := v.le_toInt
  have hlt := v.toInt_lt
  unfold InInt
  omega

/-- A sum without an overflow. -/
theorem toInt_add_of_inInt {u v : Int32} {a b : ℤ} (hu : u.toInt = a) (hv : v.toInt = b)
    (h : InInt (a + b)) : (u + v).toInt = a + b := by
  obtain ⟨k, hk⟩ := exists_toInt_add u v
  have hsum := inInt_toInt (u + v)
  unfold InInt at h hsum
  omega

/-- A difference without an overflow. -/
theorem toInt_sub_of_inInt {u v : Int32} {a b : ℤ} (hu : u.toInt = a) (hv : v.toInt = b)
    (h : InInt (a - b)) : (u - v).toInt = a - b := by
  obtain ⟨k, hk⟩ := exists_toInt_sub u v
  have hdiff := inInt_toInt (u - v)
  unfold InInt at h hdiff
  omega

/-- The bits of a number that is not negative. -/
theorem toInt_eq_natCast_iff {v : Int32} {k : ℕ} (hk : k < 2147483648) :
    v.toInt = k ↔ v.toBitVec = BitVec.ofNat 32 k := by
  have hint : (Int32.ofInt k).toInt = k := toInt_ofInt_eq_self_iff.mpr ⟨by omega, by omega⟩
  have hbits : (Int32.ofInt k).toBitVec = BitVec.ofNat 32 k := BitVec.ofInt_natCast 32 k
  rw [← hbits, Int32.toBitVec_inj, ← Int32.toInt_inj, hint]

/-! ### Quotients -/

/-- The numbers whose quotient by `c` is `q`. -/
structure InCell (c q s : ℤ) : Prop where
  lower : q * c - c < s
  upper : s < q * c + c
  pos : 0 < q → q * c ≤ s
  neg : q < 0 → s ≤ q * c

variable {c q q' s : ℤ}

theorem inCell_tdiv (hc : 0 < c) (s : ℤ) : InCell c (s.tdiv c) s := by
  rcases le_total 0 s with hs | hs
  · have hq : 0 ≤ s / c := Int.ediv_nonneg hs hc.le
    have hmod := Int.emod_nonneg s hc.ne'
    have hlt := Int.emod_lt_of_pos s hc
    have hsum := Int.emod_add_mul_ediv s c
    rw [Int.tdiv_eq_ediv_of_nonneg hs]
    exact ⟨by linarith, by linarith, fun _ => by linarith, fun h => absurd hq (not_le.mpr h)⟩
  · have hq : 0 ≤ -s / c := Int.ediv_nonneg (by omega) hc.le
    have hmod := Int.emod_nonneg (-s) hc.ne'
    have hlt := Int.emod_lt_of_pos (-s) hc
    have hsum := Int.emod_add_mul_ediv (-s) c
    have heq : s.tdiv c = -(-s / c) := by
      rw [← Int.tdiv_eq_ediv_of_nonneg (by omega), Int.neg_tdiv, neg_neg]
    rw [heq]
    exact ⟨by linarith, by linarith, fun h => by omega, fun _ => by linarith⟩

/-- The cells are disjoint. -/
theorem InCell.le (hc : 0 < c) (h : InCell c q s) (h' : InCell c q' s) : q' ≤ q := by
  by_contra hlt
  push Not at hlt
  obtain ⟨d, rfl⟩ : ∃ d, q' = q + 1 + d := ⟨q' - (q + 1), by ring⟩
  have hd : 0 ≤ d * c := mul_nonneg (by omega) hc.le
  have hlower := h'.lower
  have hupper := h.upper
  -- at the border between two cells one of the two is on the outer side of its product
  rcases lt_or_ge q 0 with hq | hq
  · have hneg := h.neg hq
    linarith
  · have hpos := h'.pos (by omega)
    linarith

/-- **The quotient** of a division that rounds towards zero. -/
theorem tdiv_eq_iff (hc : 0 < c) : s.tdiv c = q ↔ InCell c q s := by
  constructor
  · rintro rfl
    exact inCell_tdiv hc s
  · intro h
    exact le_antisymm (h.le hc (inCell_tdiv hc s)) ((inCell_tdiv hc s).le hc h)

end SortingLine
