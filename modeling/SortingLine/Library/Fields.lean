import Mathlib.Algebra.Group.Nat.Defs
import Mathlib.Data.List.Basic

/-!
# Words with fields

A field is some neighbouring bits of a word.  In a layout no two of them overlap, so each field of a
word that was put together has the value that was put there (`WordLayout.get_pack`), less the bits
that it has no place for (`BitField.ofNat_and_mask`).
-/

namespace SortingLine

/-- Bits of a word, from `low` on. -/
structure BitField where
  low : ℕ
  width : ℕ

namespace BitField

variable {n : ℕ} {f g : BitField}

def mask (f : BitField) : BitVec n := BitVec.ofNat n (2 ^ f.width - 1)

/-- A word with a value in a field. -/
def put (f : BitField) (v : BitVec n) : BitVec n := (v &&& f.mask) <<< f.low

/-- The value of a field. -/
def get (f : BitField) (w : BitVec n) : BitVec n := w >>> f.low &&& f.mask

/-- One of the two ends before the other begins. -/
def Disjoint (f g : BitField) : Prop := f.low + f.width ≤ g.low ∨ g.low + g.width ≤ f.low

instance (f g : BitField) : Decidable (f.Disjoint g) := inferInstanceAs (Decidable (_ ∨ _))

theorem Disjoint.symm (h : f.Disjoint g) : g.Disjoint f := Or.symm h

theorem getLsbD_mask (f : BitField) (i : ℕ) :
    (f.mask : BitVec n).getLsbD i = (decide (i < n) && decide (i < f.width)) := by
  rw [mask, BitVec.getLsbD_ofNat, Nat.testBit_two_pow_sub_one]

theorem getLsbD_put (f : BitField) (v : BitVec n) (i : ℕ) : (f.put v).getLsbD i =
    (decide (i < n) && !decide (i < f.low) && (v.getLsbD (i - f.low) &&
      (decide (i - f.low < n) && decide (i - f.low < f.width)))) := by
  rw [put, BitVec.getLsbD_shiftLeft, BitVec.getLsbD_and, getLsbD_mask]

theorem getLsbD_get (f : BitField) (w : BitVec n) (i : ℕ) : (f.get w).getLsbD i =
    (w.getLsbD (f.low + i) && (decide (i < n) && decide (i < f.width))) := by
  rw [get, BitVec.getLsbD_and, BitVec.getLsbD_ushiftRight, getLsbD_mask]

theorem get_or (f : BitField) (u w : BitVec n) : f.get (u ||| w) = f.get u ||| f.get w := by
  unfold get
  rw [BitVec.ushiftRight_or_distrib, BitVec.and_or_distrib_right]

@[simp]
theorem get_zero (f : BitField) : f.get (0#n) = 0#n := by
  unfold get
  rw [BitVec.zero_ushiftRight, BitVec.zero_and]

theorem get_put (h : f.low + f.width ≤ n) (v : BitVec n) : f.get (f.put v) = v &&& f.mask := by
  apply BitVec.eq_of_getLsbD_eq
  intro i hi
  rw [getLsbD_get, getLsbD_put, BitVec.getLsbD_and, getLsbD_mask, Nat.add_sub_cancel_left]
  by_cases hw : i < f.width
  · have hlt : f.low + i < n := by omega
    simp [hi, hw, hlt]
  · simp [hw]

theorem get_put_of_disjoint (h : f.Disjoint g) (v : BitVec n) : f.get (g.put v) = 0#n := by
  apply BitVec.eq_of_getLsbD_eq
  intro i hi
  rw [getLsbD_get, getLsbD_put, BitVec.getLsbD_zero]
  by_cases hw : i < f.width
  · -- The bit is below the other field or above it.
    rcases h with h | h
    · have hlow : f.low + i < g.low := by omega
      simp [hlow]
    · have hwidth : ¬ f.low + i - g.low < g.width := by omega
      simp [hwidth]
  · simp [hw]

/-- A field keeps the lower bits. -/
theorem toNat_and_mask (h : f.width ≤ n) (v : BitVec n) :
    (v &&& f.mask).toNat = v.toNat % 2 ^ f.width := by
  have hpos := Nat.two_pow_pos f.width
  have hle := Nat.pow_le_pow_right Nat.zero_lt_two h
  rw [BitVec.toNat_and, mask, BitVec.toNat_ofNat, Nat.mod_eq_of_lt (by omega),
    Nat.and_two_pow_sub_one_eq_mod]

theorem ofNat_and_mask (h : f.width ≤ n) (k : ℕ) :
    BitVec.ofNat n k &&& f.mask = BitVec.ofNat n (k % 2 ^ f.width) := by
  apply BitVec.eq_of_toNat_eq
  rw [toNat_and_mask h, BitVec.toNat_ofNat, BitVec.toNat_ofNat,
    Nat.mod_mod_of_dvd k (Nat.pow_dvd_pow 2 h), Nat.mod_eq_of_lt (a := k % 2 ^ f.width)]
  exact Nat.lt_of_lt_of_le (Nat.mod_lt k (Nat.two_pow_pos f.width))
    (Nat.pow_le_pow_right Nat.zero_lt_two h)

end BitField

/-- Fields of a word that do not overlap. -/
structure WordLayout (n : ℕ) where
  fields : List BitField
  disjoint : fields.Pairwise BitField.Disjoint
  le : ∀ f ∈ fields, f.low + f.width ≤ n

/-- The values in their fields. -/
def packFields {n : ℕ} : List BitField → List (BitVec n) → BitVec n
  | f :: fs, v :: vs => f.put v ||| packFields fs vs
  | _, _ => 0#n

namespace WordLayout

variable {n : ℕ}

/-- A word of a layout, for numbers. -/
def pack (L : WordLayout n) (ks : List ℕ) : BitVec n :=
  packFields L.fields (ks.map (BitVec.ofNat n))

theorem get_packFields_of_disjoint {f : BitField} {fs : List BitField} (h : ∀ g ∈ fs, f.Disjoint g)
    (vs : List (BitVec n)) : f.get (packFields fs vs) = 0#n := by
  induction fs generalizing vs with
  | nil => exact f.get_zero
  | cons g fs ih =>
    cases vs with
    | nil => exact f.get_zero
    | cons v vs =>
      obtain ⟨hg, hfs⟩ := List.forall_mem_cons.mp h
      rw [packFields, BitField.get_or, BitField.get_put_of_disjoint hg, ih hfs, BitVec.or_zero]

theorem get_packFields {fs : List BitField} (hdisj : fs.Pairwise BitField.Disjoint)
    (hle : ∀ f ∈ fs, f.low + f.width ≤ n) {vs : List (BitVec n)} {i : ℕ} {f : BitField}
    {v : BitVec n} (hf : fs[i]? = some f) (hv : vs[i]? = some v) :
    f.get (packFields fs vs) = v &&& f.mask := by
  induction fs generalizing vs i with
  | nil => exact absurd hf (by simp)
  | cons g fs ih =>
    obtain ⟨hg, hdisj⟩ := List.pairwise_cons.mp hdisj
    obtain ⟨hgle, hle⟩ := List.forall_mem_cons.mp hle
    cases vs with
    | nil => exact absurd hv (by simp)
    | cons u vs =>
      rw [packFields, BitField.get_or]
      cases i with
      | zero =>
        obtain rfl := Option.some.inj hf
        obtain rfl := Option.some.inj hv
        rw [BitField.get_put hgle, get_packFields_of_disjoint hg, BitVec.or_zero]
      | succ i =>
        have hmem : f ∈ fs := List.mem_of_getElem? hf
        rw [BitField.get_put_of_disjoint (hg f hmem).symm, ih hdisj hle hf hv, BitVec.zero_or]

/-- **Reading a field** of a word. -/
theorem get_pack (L : WordLayout n) {ks : List ℕ} {i : ℕ} {f : BitField} {k : ℕ}
    (hf : L.fields[i]? = some f) (hk : ks[i]? = some k) :
    f.get (L.pack ks) = BitVec.ofNat n (k % 2 ^ f.width) := by
  have hle := L.le f (List.mem_of_getElem? hf)
  have hv : (ks.map (BitVec.ofNat n))[i]? = some (BitVec.ofNat n k) := by
    rw [List.getElem?_map, hk, Option.map_some]
  rw [pack, get_packFields L.disjoint L.le hf hv, BitField.ofNat_and_mask (by omega)]

end WordLayout

end SortingLine
