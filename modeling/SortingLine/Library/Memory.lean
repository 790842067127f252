import Mathlib.Algebra.Order.Ring.Nat
import Mathlib.Data.Nat.Basic
import Mathlib.Logic.Function.Basic

/-!
# Byte memories

A memory gives a byte for each address.  `rdLe m a k` is the number in the `k` bytes from `a` on,
least significant first, and `wrLe` stores one.  What is stored is read back modulo `256 ^ k`
(`rdLe_wrLe`), and nothing outside of the bytes changes (`wrLe_of_outside`, `rdLe_wrLe_of_disjoint`).

`bytesAt` is a stretch of a memory as a list, `copyBytes` is `memcpy` and `zeroBytes` clears a stretch.
-/

namespace SortingLine

/-- A memory, by address. -/
abbrev Memory := ℕ → UInt8

namespace Memory

variable {m m' : Memory} {a b k n v x : ℕ}

/-- The number in the `k` bytes from `a` on. -/
def rdLe (m : Memory) (a : ℕ) : ℕ → ℕ
  | 0 => 0
  | k + 1 => (m a).toNat + 256 * rdLe m (a + 1) k

/-- A number of `k` bytes is stored from `a` on. -/
def wrLe (m : Memory) (a : ℕ) : ℕ → ℕ → Memory
  | 0, _ => m
  | k + 1, v => fun x => if x = a then UInt8.ofNat v else wrLe m (a + 1) k (v / 256) x

/-- The address is not one of the `k` from `a` on. -/
def Outside (a k x : ℕ) : Prop := x < a ∨ a + k ≤ x

instance (a k x : ℕ) : Decidable (Outside a k x) := inferInstanceAs (Decidable (_ ∨ _))

theorem wrLe_succ_apply : wrLe m a (k + 1) v x =
    if x = a then UInt8.ofNat v else wrLe m (a + 1) k (v / 256) x := rfl

theorem wrLe_of_outside (h : Outside a k x) : wrLe m a k v x = m x := by
  induction k generalizing a v with
  | zero => rfl
  | succ k ih =>
    have hx : x ≠ a := by
      unfold Outside at h
      omega
    have hrest : Outside (a + 1) k x := by
      unfold Outside at h ⊢
      omega
    rw [wrLe_succ_apply, if_neg hx, ih hrest]

theorem rdLe_congr (h : ∀ x, a ≤ x → x < a + k → m x = m' x) : rdLe m a k = rdLe m' a k := by
  induction k generalizing a with
  | zero => rfl
  | succ k ih =>
    rw [rdLe, rdLe, h a le_rfl (by omega), ih fun x hx hx' => h x (by omega) (by omega)]

theorem rdLe_wrLe_of_disjoint (h : a + k ≤ b ∨ b + n ≤ a) :
    rdLe (wrLe m b n v) a k = rdLe m a k := by
  refine rdLe_congr fun x hx hx' => wrLe_of_outside ?_
  unfold Outside
  omega

/-- **What is stored is read back.** -/
theorem rdLe_wrLe : rdLe (wrLe m a k v) a k = v % 256 ^ k := by
  induction k generalizing a v with
  | zero => simp [rdLe, Nat.mod_one]
  | succ k ih =>
    have hrest : rdLe (wrLe m a (k + 1) v) (a + 1) k =
        rdLe (wrLe m (a + 1) k (v / 256)) (a + 1) k := by
      refine rdLe_congr fun x hx _ => ?_
      rw [wrLe_succ_apply, if_neg (by omega)]
    have hbyte : (UInt8.ofNat v).toNat = v % 256 := UInt8.toNat_ofNat'
    rw [rdLe, hrest, ih, wrLe_succ_apply, if_pos rfl, hbyte, pow_succ', Nat.mod_mul]

theorem rdLe_wrLe_of_lt (h : v < 256 ^ k) : rdLe (wrLe m a k v) a k = v := by
  rw [rdLe_wrLe, Nat.mod_eq_of_lt h]

theorem rdLe_lt : rdLe m a k < 256 ^ k := by
  induction k generalizing a with
  | zero => simp [rdLe]
  | succ k ih =>
    have hbyte := (m a).toNat_lt
    have hrest := ih (a := a + 1)
    rw [rdLe, pow_succ']
    omega

/-! ### Stretches -/

/-- The `n` bytes from `a` on. -/
def bytesAt (m : Memory) (a n : ℕ) : List UInt8 := (List.range n).map fun i => m (a + i)

/-- `memcpy (dst, src, n)` -/
def copyBytes (m : Memory) (dst src n : ℕ) : Memory := fun x =>
  if dst ≤ x ∧ x < dst + n then m (src + (x - dst)) else m x

/-- `memset (dst, 0, n)` -/
def zeroBytes (m : Memory) (dst n : ℕ) : Memory := fun x => if dst ≤ x ∧ x < dst + n then 0 else m x

@[simp]
theorem length_bytesAt (m : Memory) (a n : ℕ) : (bytesAt m a n).length = n := by simp [bytesAt]

theorem getElem?_bytesAt (m : Memory) (a : ℕ) {n i : ℕ} (h : i < n) :
    (bytesAt m a n)[i]? = some (m (a + i)) := by
  simp [bytesAt, h]

theorem bytesAt_eq_iff {bs : List UInt8} :
    bytesAt m a n = bs ↔ bs.length = n ∧ ∀ i < n, bs[i]? = some (m (a + i)) := by
  constructor
  · rintro rfl
    exact ⟨length_bytesAt m a n, fun i hi => getElem?_bytesAt m a hi⟩
  · rintro ⟨rfl, h⟩
    refine List.ext_getElem? fun i => ?_
    by_cases hi : i < bs.length
    · rw [getElem?_bytesAt m a hi, h i hi]
    · rw [List.getElem?_eq_none (by simpa using hi), List.getElem?_eq_none (by simpa using hi)]

theorem bytesAt_congr (h : ∀ x, a ≤ x → x < a + n → m x = m' x) :
    bytesAt m a n = bytesAt m' a n := by
  refine List.map_congr_left fun i hi => h _ (by omega) ?_
  have := List.mem_range.mp hi
  omega

theorem bytesAt_add (m : Memory) (a j k : ℕ) :
    bytesAt m a (j + k) = bytesAt m a j ++ bytesAt m (a + j) k := by
  unfold bytesAt
  rw [List.range_add, List.map_append, List.map_map]
  congr 1
  refine List.map_congr_left fun i _ => ?_
  rw [Function.comp_apply, Nat.add_assoc]

theorem take_bytesAt (m : Memory) (a n k : ℕ) :
    (bytesAt m a n).take k = bytesAt m a (min k n) := by
  rw [bytesAt, ← List.map_take, List.take_range, bytesAt]

/-- The same bytes elsewhere. -/
theorem bytesAt_eq_of_shift (h : ∀ i < n, m (a + i) = m' (b + i)) :
    bytesAt m a n = bytesAt m' b n :=
  List.map_congr_left fun i hi => h i (List.mem_range.mp hi)

theorem copyBytes_of_outside {dst src : ℕ} (h : Outside dst n x) :
    copyBytes m dst src n x = m x := by
  unfold Outside at h
  rw [copyBytes, if_neg (by omega)]

theorem bytesAt_copyBytes {dst src : ℕ} :
    bytesAt (copyBytes m dst src n) dst n = bytesAt m src n := by
  refine List.map_congr_left fun i hi => ?_
  have := List.mem_range.mp hi
  rw [copyBytes, if_pos (by omega), Nat.add_sub_cancel_left]

theorem zeroBytes_of_outside {dst : ℕ} (h : Outside dst n x) : zeroBytes m dst n x = m x := by
  unfold Outside at h
  rw [zeroBytes, if_neg (by omega)]

theorem bytesAt_zeroBytes {dst : ℕ} : bytesAt (zeroBytes m dst n) dst n = List.replicate n 0 := by
  refine bytesAt_eq_iff.mpr ⟨List.length_replicate, fun i hi => ?_⟩
  rw [List.getElem?_replicate, if_pos hi, zeroBytes, if_pos (by omega)]

/-- One byte is stored. -/
theorem bytesAt_update {i : ℕ} {v : UInt8} (hi : i < n) :
    bytesAt (Function.update m (a + i) v) a n = (bytesAt m a n).set i v := by
  refine bytesAt_eq_iff.mpr ⟨by simp, fun j hj => ?_⟩
  rw [List.getElem?_set, length_bytesAt, Function.update_apply]
  by_cases h : i = j
  · rw [if_pos h, if_pos hi, if_pos (by omega)]
  · rw [if_neg h, if_neg (by omega), getElem?_bytesAt m a hj]

end Memory

end SortingLine
