import Mathlib.Algebra.BigOperators.Group.Finset.Basic
import Mathlib.Algebra.Order.BigOperators.Group.Finset
import Mathlib.Data.List.Nodup

/-!
# Check sums and flipped bits

Two facts that the analysis of a linear code rests on.  A check sum that accumulates by an
associative and commutative operation changes by `δ` when one of its contributions does
(`foldl_op_of_change`).  Of the masks of at most one flipped bit all are zero, or one is a single
bit and the others are zero (`eq_zero_or_oneBit_of_sum_le_one`).
-/

namespace SortingLine

/-! ### Accumulation -/

variable {α ι : Type*} {op : α → α → α} [Std.Associative op] [Std.Commutative op]

/-- A change of the start value goes through. -/
theorem foldl_op_right (l : List ι) (f : ι → α) (a δ : α) :
    l.foldl (fun r i => op r (f i)) (op a δ) = op (l.foldl (fun r i => op r (f i)) a) δ := by
  induction l generalizing a with
  | nil => rfl
  | cons i l ih =>
    simp only [List.foldl_cons]
    have assoc := (inferInstance : Std.Associative op).assoc
    have comm := (inferInstance : Std.Commutative op).comm
    rw [← ih, assoc, comm δ, ← assoc]

/-- One contribution changes by `δ`, and so does the result. -/
theorem foldl_op_of_change {l : List ι} (hl : l.Nodup) {f g : ι → α} {j : ι} {δ : α} (hj : j ∈ l)
    (hfg : ∀ i ∈ l, i ≠ j → g i = f i) (hδ : g j = op (f j) δ) (a : α) :
    l.foldl (fun r i => op r (g i)) a = op (l.foldl (fun r i => op r (f i)) a) δ := by
  induction l generalizing a with
  | nil => simp at hj
  | cons i l ih =>
    obtain ⟨hi, hl⟩ := List.nodup_cons.mp hl
    simp only [List.foldl_cons]
    rcases List.mem_cons.mp hj with rfl | hj
    · have hrest : ∀ b, l.foldl (fun r i => op r (g i)) b = l.foldl (fun r i => op r (f i)) b := by
        intro b
        apply List.foldl_ext
        intro r i' hi'
        rw [hfg i' (List.mem_cons_of_mem _ hi') fun h => hi (h ▸ hi')]
      have assoc := (inferInstance : Std.Associative op).assoc
      rw [hrest, hδ, ← assoc, foldl_op_right]
    · rw [hfg i List.mem_cons_self fun h => hi (h ▸ hj)]
      exact ih hl hj (fun i' hi' => hfg i' (List.mem_cons_of_mem _ hi')) _

/-! ### Flipped bits -/

theorem xor_and_distrib {w : ℕ} (a b m : BitVec w) : (a ^^^ b) &&& m = a &&& m ^^^ b &&& m := by
  apply BitVec.eq_of_getLsbD_eq
  intro i _
  simp only [BitVec.getLsbD_and, BitVec.getLsbD_xor, Bool.and_xor_distrib_right]

/-- The byte with bit `k` only. -/
def oneBit (k : ℕ) : BitVec 8 := 1#8 <<< k

/-- The number of bits that are set. -/
def bitCount (b : BitVec 8) : ℕ := (List.range 8).countP fun k => b.getLsbD k

@[simp]
theorem bitCount_zero : bitCount 0#8 = 0 := rfl

theorem bitCount_eq_zero {b : BitVec 8} (h : bitCount b = 0) : b = 0#8 := by
  apply BitVec.eq_of_getLsbD_eq
  intro i hi
  have hbit := List.countP_eq_zero.mp h i (List.mem_range.mpr hi)
  rw [BitVec.getLsbD_zero]
  exact Bool.eq_false_iff.mpr hbit

theorem bitCount_oneBit {k : ℕ} (hk : k < 8) : bitCount (oneBit k) = 1 := by
  revert k
  decide

theorem getLsbD_oneBit {k i : ℕ} (hk : k < 8) (hi : i < 8) :
    (oneBit k).getLsbD i = decide (i = k) := by
  have h : ∀ k < 8, ∀ i < 8, (oneBit k).getLsbD i = decide (i = k) := by decide
  exact h k hk i hi

theorem exists_getLsbD_of_bitCount_pos {b : BitVec 8} (h : 0 < bitCount b) :
    ∃ k < 8, b.getLsbD k = true := by
  obtain ⟨k, hk, hbit⟩ := List.countP_pos_iff.mp h
  exact ⟨k, List.mem_range.mp hk, hbit⟩

/-- Clearing a bit that is set. -/
theorem bitCount_xor_oneBit {b : BitVec 8} {k : ℕ} (hk : k < 8) (hbit : b.getLsbD k = true) :
    bitCount (b ^^^ oneBit k) + 1 = bitCount b := by
  have hperm := List.perm_cons_erase (List.mem_range.mpr hk)
  unfold bitCount
  rw [hperm.countP_eq, hperm.countP_eq, List.countP_cons_of_pos hbit, List.countP_cons_of_neg]
  · -- the other bits stay
    refine congrArg (· + 1) (List.countP_congr fun i hi => ?_)
    obtain ⟨hik, hi⟩ := (List.nodup_range.mem_erase_iff).mp hi
    rw [BitVec.getLsbD_xor, getLsbD_oneBit hk (List.mem_range.mp hi), decide_eq_false hik,
      Bool.xor_false]
  · rw [BitVec.getLsbD_xor, getLsbD_oneBit hk hk, hbit, decide_eq_true rfl]
    decide

theorem eq_oneBit_of_bitCount {b : BitVec 8} (h : bitCount b = 1) : ∃ k < 8, b = oneBit k := by
  obtain ⟨k, hk, hbit⟩ := exists_getLsbD_of_bitCount_pos (by omega : 0 < bitCount b)
  have hzero := bitCount_xor_oneBit hk hbit
  exact ⟨k, hk, BitVec.xor_eq_zero_iff.mp (bitCount_eq_zero (by omega))⟩

/-- Masks that flip anything are those of a single bit on top of masks that flip one bit less. -/
theorem exists_oneBit_of_sum_eq_succ {n m : ℕ} {e : ℕ → BitVec 8}
    (h : ∑ i ∈ Finset.range n, bitCount (e i) = m + 1) :
    ∃ j < n, ∃ k < 8, (e j).getLsbD k = true ∧
      ∑ i ∈ Finset.range n, bitCount (Function.update e j (e j ^^^ oneBit k) i) = m := by
  obtain ⟨j, hj, hpos⟩ := Finset.exists_ne_zero_of_sum_ne_zero (by omega :
    ∑ i ∈ Finset.range n, bitCount (e i) ≠ 0)
  obtain ⟨k, hk, hbit⟩ := exists_getLsbD_of_bitCount_pos (Nat.pos_of_ne_zero hpos)
  refine ⟨j, Finset.mem_range.mp hj, k, hk, hbit, ?_⟩
  have hrest : ∑ i ∈ (Finset.range n).erase j,
      bitCount (Function.update e j (e j ^^^ oneBit k) i) =
      ∑ i ∈ (Finset.range n).erase j, bitCount (e i) :=
    Finset.sum_congr rfl fun i hi => by rw [Function.update_of_ne (Finset.ne_of_mem_erase hi)]
  have hold := Finset.sum_erase_add (Finset.range n) (fun i => bitCount (e i)) hj
  have hnew := Finset.sum_erase_add (Finset.range n)
    (fun i => bitCount (Function.update e j (e j ^^^ oneBit k) i)) hj
  simp only [Function.update_self] at hnew
  have := bitCount_xor_oneBit hk hbit
  omega

/-- Numbers whose sum is at most one: all are zero, or one of them is one. -/
theorem eq_zero_or_one_of_sum_le_one {n : ℕ} {f : ℕ → ℕ} (h : ∑ i ∈ Finset.range n, f i ≤ 1) :
    (∀ i < n, f i = 0) ∨ ∃ j < n, f j = 1 ∧ ∀ i < n, i ≠ j → f i = 0 := by
  by_cases hz : ∀ i < n, f i = 0
  · exact .inl hz
  · simp only [not_forall] at hz
    obtain ⟨j, hj, hfj⟩ := hz
    have hsplit := Finset.sum_erase_add (Finset.range n) f (Finset.mem_range.mpr hj)
    have hrest : ∑ i ∈ (Finset.range n).erase j, f i = 0 := by omega
    refine .inr ⟨j, hj, by omega, fun i hi hij => ?_⟩
    exact Finset.sum_eq_zero_iff.mp hrest i (Finset.mem_erase.mpr ⟨hij, Finset.mem_range.mpr hi⟩)

/-- At most one bit is set in `n` bytes: none is, or one in one of them. -/
theorem eq_zero_or_oneBit_of_sum_le_one {n : ℕ} {e : ℕ → BitVec 8}
    (h : ∑ i ∈ Finset.range n, bitCount (e i) ≤ 1) :
    (∀ i < n, e i = 0#8) ∨
      ∃ j < n, ∃ k < 8, e j = oneBit k ∧ ∀ i < n, i ≠ j → e i = 0#8 := by
  rcases eq_zero_or_one_of_sum_le_one h with hz | ⟨j, hj, hone, hz⟩
  · exact .inl fun i hi => bitCount_eq_zero (hz i hi)
  · obtain ⟨k, hk, he⟩ := eq_oneBit_of_bitCount hone
    exact .inr ⟨j, hj, k, hk, he, fun i hi hij => bitCount_eq_zero (hz i hi hij)⟩

end SortingLine
