import SortingLine.Flash.Ecc
import SortingLine.Library.Parity
import Mathlib.Tactic.IntervalCases

/-!
# The ECC corrects one flipped bit

The registers of `nand_calculate_ecc` accumulate by exclusive or, so that a flipped bit of the block
changes them by what this bit alone contributes (`regs_of_flip`), and the code is linear in them
(`code_xor`).  What two codes differ by after a flip then depends only on the place of the flip, and
`nand_correct_data` decodes it (`decode_line`, `decode_column`).

* `corrected_of_le_one`: a block with at most one flipped bit, counting the bits of its code that
  are used, is restored.
* `nandCorrectPageSwecc_buf`: the sectors of a page are corrected independently.
-/

namespace SortingLine.Flash

/-! ### The registers -/

namespace EccRegs

@[ext]
theorem ext {r r' : EccRegs} (h₁ : r.reg1 = r'.reg1) (h₂ : r.reg2 = r'.reg2)
    (h₃ : r.reg3 = r'.reg3) : r = r' := by
  cases r
  cases r'
  simp_all

/-- Register by register. -/
def xor (r s : EccRegs) : EccRegs where
  reg1 := r.reg1 ^^^ s.reg1
  reg2 := r.reg2 ^^^ s.reg2
  reg3 := r.reg3 ^^^ s.reg3

instance : Std.Associative xor := ⟨fun r s t => by simp [xor, BitVec.xor_assoc]⟩

instance : Std.Commutative xor := ⟨fun r s => by simp [xor, BitVec.xor_comm]⟩

end EccRegs

/-- What byte `b` on line `i` adds to the registers. -/
def contribution (b : BitVec 8) (i : ℕ) : EccRegs where
  reg1 := precalc b &&& 0x3f#8
  reg2 := if precalc b &&& 0x40#8 ≠ 0 then ~~~ BitVec.ofNat 8 i else 0
  reg3 := if precalc b &&& 0x40#8 ≠ 0 then BitVec.ofNat 8 i else 0

theorem eccStep_eq (dat : Buf) (r : EccRegs) (i : ℕ) :
    eccStep dat r i = r.xor (contribution (dat i) i) := by
  unfold eccStep contribution EccRegs.xor
  dsimp only
  split_ifs <;> simp

/-- The registers at the end of `nand_calculate_ecc`. -/
def regs (dat : Buf) : EccRegs :=
  (List.range 256).foldl (fun r i => r.xor (contribution (dat i) i))
    { reg1 := 0, reg2 := 0, reg3 := 0 }

theorem nandCalculateEcc_eq (dat : Buf) : nandCalculateEcc dat = (regs dat).code := by
  unfold nandCalculateEcc regs
  congr 2
  funext r i
  exact eccStep_eq dat r i

/-- Each entry of the table is made of those of its bits. -/
theorem precalc_eq_foldl (b : BitVec 8) :
    precalc b = (List.range 8).foldl
      (fun r k => r ^^^ if b.getLsbD k then precalc (oneBit k) else 0#8) 0#8 := by
  revert b
  decide +kernel

theorem foldl_xor_xor (l : List ℕ) (f g : ℕ → BitVec 8) (a b : BitVec 8) :
    l.foldl (fun r k => r ^^^ (f k ^^^ g k)) (a ^^^ b) =
      l.foldl (fun r k => r ^^^ f k) a ^^^ l.foldl (fun r k => r ^^^ g k) b := by
  induction l generalizing a b with
  | nil => rfl
  | cons k l ih =>
    have hswap : a ^^^ b ^^^ (f k ^^^ g k) = a ^^^ f k ^^^ (b ^^^ g k) := by ac_rfl
    simp only [List.foldl_cons]
    rw [hswap, ih]

/-- **The table is linear.** -/
theorem precalc_xor (a b : BitVec 8) : precalc (a ^^^ b) = precalc a ^^^ precalc b := by
  rw [precalc_eq_foldl (a ^^^ b), precalc_eq_foldl a, precalc_eq_foldl b, ← foldl_xor_xor]
  refine List.foldl_ext _ _ _ fun r k _ => congrArg (r ^^^ ·) ?_
  rw [BitVec.getLsbD_xor]
  cases a.getLsbD k <;> cases b.getLsbD k <;> simp

/-- A single bit makes the parity of its line odd. -/
theorem precalc_oneBit {k : ℕ} (hk : k < 8) : precalc (oneBit k) &&& 0x40#8 = 0x40#8 := by
  revert k
  decide +kernel

theorem and_parity (b : BitVec 8) : b &&& 0x40#8 = 0 ∨ b &&& 0x40#8 = 0x40#8 := by
  revert b
  decide +kernel

theorem contribution_xor_oneBit (b : BitVec 8) (i : ℕ) {k : ℕ} (hk : k < 8) :
    contribution (b ^^^ oneBit k) i = (contribution b i).xor (contribution (oneBit k) i) := by
  unfold contribution EccRegs.xor
  rw [precalc_xor, xor_and_distrib, xor_and_distrib, precalc_oneBit hk]
  rcases and_parity (precalc b) with h | h <;> rw [h] <;> simp

/-- A flipped bit changes the registers by its own contribution. -/
theorem regs_of_flip {d d' : Buf} {j k : ℕ} (hj : j < 256) (hk : k < 8)
    (hflip : d' j = d j ^^^ oneBit k) (hd : ∀ i < 256, i ≠ j → d' i = d i) :
    regs d' = (regs d).xor (contribution (oneBit k) j) := by
  refine foldl_op_of_change List.nodup_range (List.mem_range.mpr hj) ?_ ?_ _
  · intro i hi hij
    rw [hd i (List.mem_range.mp hi) hij]
  · rw [hflip, contribution_xor_oneBit _ _ hk]

/-- Only the 256 bytes of the block count. -/
theorem nandCalculateEcc_congr {d d' : Buf} (h : ∀ j < 256, d' j = d j) :
    nandCalculateEcc d' = nandCalculateEcc d := by
  rw [nandCalculateEcc_eq, nandCalculateEcc_eq]
  refine congrArg EccRegs.code (List.foldl_ext _ _ _ ?_)
  intro r i hi
  rw [h i (List.mem_range.mp hi)]

/-! ### The code -/

theorem tmp1_xor (a b c d : BitVec 8) : tmp1 (a ^^^ b) (c ^^^ d) = tmp1 a c ^^^ tmp1 b d := by
  unfold tmp1
  apply BitVec.eq_of_getLsbD_eq
  intro i hi
  interval_cases i <;> simp

theorem tmp2_xor (a b c d : BitVec 8) : tmp2 (a ^^^ b) (c ^^^ d) = tmp2 a c ^^^ tmp2 b d := by
  unfold tmp2
  apply BitVec.eq_of_getLsbD_eq
  intro i hi
  interval_cases i <;> simp

theorem column_xor (a b : BitVec 8) :
    (~~~ (a ^^^ b)) <<< 2 ||| 0x03#8 = ((~~~ a) <<< 2 ||| 0x03#8) ^^^ b <<< 2 := by
  apply BitVec.eq_of_getLsbD_eq
  intro i hi
  interval_cases i <;> simp

/-- The difference of the codes of `r` and of `r.xor δ`. -/
theorem code_xor (r δ : EccRegs) :
    (r.xor δ).code.c0 = r.code.c0 ^^^ tmp1 δ.reg2 δ.reg3 ∧
      (r.xor δ).code.c1 = r.code.c1 ^^^ tmp2 δ.reg2 δ.reg3 ∧
      (r.xor δ).code.c2 = r.code.c2 ^^^ δ.reg1 <<< 2 := by
  refine ⟨?_, ?_, column_xor _ _⟩
  · show ~~~ tmp1 (r.reg2 ^^^ δ.reg2) (r.reg3 ^^^ δ.reg3) = _
    rw [tmp1_xor, BitVec.not_xor_left]
    rfl
  · show ~~~ tmp2 (r.reg2 ^^^ δ.reg2) (r.reg3 ^^^ δ.reg3) = _
    rw [tmp2_xor, BitVec.not_xor_left]
    rfl

/-! ### Correction -/

/-- What `nand_correct_data` changes in the byte at each offset. -/
def correction (readEcc calcEcc : Ecc) : Buf := fun j =>
  let s1 := calcEcc.c0 ^^^ readEcc.c0
  let s0 := calcEcc.c1 ^^^ readEcc.c1
  let s2 := calcEcc.c2 ^^^ readEcc.c2
  if SingleBitError s0 s1 s2 ∧ j = (byteoffs s0 s1).toNat then oneBit (bitnum s2).toNat else 0#8

/-- Nothing to correct is not a single bit error. -/
theorem not_singleBitError_zero_left (s1 s2 : BitVec 8) : ¬ SingleBitError 0#8 s1 s2 :=
  fun h => absurd h.1 (by decide)

theorem not_singleBitError_zero_right (s0 s2 : BitVec 8) : ¬ SingleBitError s0 0#8 s2 :=
  fun h => absurd h.2.1 (by decide)

theorem nandCorrectData_snd (dat : Buf) (readEcc calcEcc : Ecc) (j : ℕ) :
    (nandCorrectData dat readEcc calcEcc).2 j = dat j ^^^ correction readEcc calcEcc j := by
  unfold nandCorrectData correction
  dsimp only
  generalize calcEcc.c0 ^^^ readEcc.c0 = s1
  generalize calcEcc.c1 ^^^ readEcc.c1 = s0
  generalize calcEcc.c2 ^^^ readEcc.c2 = s2
  by_cases hz : s0 ||| s1 ||| s2 = 0#8
  · -- No difference at all.
    have hs0 : s0 = 0#8 := (BitVec.or_eq_zero_iff.mp (BitVec.or_eq_zero_iff.mp hz).1).1
    rw [if_pos hz, if_neg fun h => not_singleBitError_zero_left s1 s2 (hs0 ▸ h.1)]
    exact BitVec.xor_zero.symm
  · rw [if_neg hz]
    by_cases hs : SingleBitError s0 s1 s2
    · rw [if_pos hs]
      show Function.update dat _ _ j = _
      by_cases hj : j = (byteoffs s0 s1).toNat
      · rw [if_pos ⟨hs, hj⟩, hj, Function.update_self]
        rfl
      · rw [if_neg fun h => hj h.2, Function.update_of_ne hj]
        exact BitVec.xor_zero.symm
    · have hno : ¬ (SingleBitError s0 s1 s2 ∧ j = (byteoffs s0 s1).toNat) := fun h => hs h.1
      rw [if_neg hs, if_neg hno]
      split_ifs <;> exact BitVec.xor_zero.symm

/-- The difference that a flip on line `j` makes in the first two bytes. -/
theorem decode_line {j : ℕ} (hj : j < 256) :
    let s1 := tmp1 (~~~ BitVec.ofNat 8 j) (BitVec.ofNat 8 j)
    let s0 := tmp2 (~~~ BitVec.ofNat 8 j) (BitVec.ofNat 8 j)
    (s0 ^^^ s0 >>> 1) &&& 0x55#8 = 0x55#8 ∧ (s1 ^^^ s1 >>> 1) &&& 0x55#8 = 0x55#8 ∧
      (byteoffs s0 s1).toNat = j := by
  revert j
  decide +kernel

/-- The difference that a flip in column `k` makes in the third byte, whatever the unused bits. -/
theorem decode_column {k : ℕ} (hk : k < 8) {u : BitVec 8} (hu : u &&& 0xfc#8 = 0#8) :
    let s2 := (precalc (oneBit k) &&& 0x3f#8) <<< 2 ^^^ u
    (s2 ^^^ s2 >>> 1) &&& 0x54#8 = 0x54#8 ∧ (bitnum s2).toNat = k := by
  revert k u
  decide +kernel

@[ext]
theorem Ecc.ext {c c' : Ecc} (h₀ : c.c0 = c'.c0) (h₁ : c.c1 = c'.c1) (h₂ : c.c2 = c'.c2) :
    c = c' := by
  cases c
  cases c'
  simp_all

/-- The flips of an ECC. -/
def Ecc.flip (c m : Ecc) : Ecc where
  c0 := c.c0 ^^^ m.c0
  c1 := c.c1 ^^^ m.c1
  c2 := c.c2 ^^^ m.c2

/-- How many of the 22 bits that are used a mask flips. -/
def Ecc.usedFlips (m : Ecc) : ℕ := bitCount m.c0 + bitCount m.c1 + bitCount (m.c2 &&& 0xfc#8)

private theorem xor_self_xor (a m : BitVec 8) : a ^^^ (a ^^^ m) = m := by
  rw [← BitVec.xor_assoc, BitVec.xor_self, BitVec.zero_xor]

private theorem xor_xor_xor_left (a x m : BitVec 8) : a ^^^ x ^^^ (a ^^^ m) = x ^^^ m := by
  rw [BitVec.xor_comm a x, BitVec.xor_assoc, xor_self_xor]

/-- An intact block stays as it is, whatever single bit of its code is flipped. -/
theorem correction_of_code_flip (c m : Ecc) (hm : m.usedFlips ≤ 1) (j : ℕ) :
    correction (c.flip m) c j = 0#8 := by
  unfold correction Ecc.flip
  simp only [xor_self_xor]
  refine if_neg fun h => ?_
  unfold Ecc.usedFlips at hm
  rcases Nat.eq_zero_or_pos (bitCount m.c0) with h0 | h0
  · exact not_singleBitError_zero_right m.c1 m.c2 (bitCount_eq_zero h0 ▸ h.1)
  · have h1 : bitCount m.c1 = 0 := by omega
    exact not_singleBitError_zero_left m.c0 m.c2 (bitCount_eq_zero h1 ▸ h.1)

/-- The change of the code that a flip of bit `k` on line `j` makes. -/
def flipEcc (j k : ℕ) : Ecc where
  c0 := tmp1 (~~~ BitVec.ofNat 8 j) (BitVec.ofNat 8 j)
  c1 := tmp2 (~~~ BitVec.ofNat 8 j) (BitVec.ofNat 8 j)
  c2 := (precalc (oneBit k) &&& 0x3f#8) <<< 2

/-- **The code is linear**: a flipped bit of the block changes it by what this bit alone does. -/
theorem nandCalculateEcc_of_flip {d d' : Buf} {j k : ℕ} (hj : j < 256) (hk : k < 8)
    (hflip : d' j = d j ^^^ oneBit k) (hd : ∀ i < 256, i ≠ j → d' i = d i) :
    nandCalculateEcc d' = (nandCalculateEcc d).flip (flipEcc j k) := by
  have hδ : contribution (oneBit k) j =
      { reg1 := precalc (oneBit k) &&& 0x3f#8
        reg2 := ~~~ BitVec.ofNat 8 j
        reg3 := BitVec.ofNat 8 j } := by
    unfold contribution
    rw [precalc_oneBit hk]
    rfl
  obtain ⟨h0, h1, h2⟩ := code_xor (regs d) (contribution (oneBit k) j)
  rw [nandCalculateEcc_eq, nandCalculateEcc_eq, regs_of_flip hj hk hflip hd]
  rw [hδ] at h0 h1 h2 ⊢
  exact Ecc.ext h0 h1 h2

/-- A flipped bit of the block is found, whatever the unused bits of the code. -/
theorem correction_of_flip {d d' : Buf} {j k : ℕ} (hj : j < 256) (hk : k < 8)
    (hflip : d' j = d j ^^^ oneBit k) (hd : ∀ i < 256, i ≠ j → d' i = d i) {m : Ecc}
    (hm : m.usedFlips = 0) (i : ℕ) :
    correction ((nandCalculateEcc d).flip m) (nandCalculateEcc d') i =
      if i = j then oneBit k else 0#8 := by
  have hm0 : m.c0 = 0#8 := bitCount_eq_zero (by unfold Ecc.usedFlips at hm; omega)
  have hm1 : m.c1 = 0#8 := bitCount_eq_zero (by unfold Ecc.usedFlips at hm; omega)
  have hm2 : m.c2 &&& 0xfc#8 = 0#8 := bitCount_eq_zero (by unfold Ecc.usedFlips at hm; omega)
  obtain ⟨hs0, hs1, hline⟩ := decode_line hj
  obtain ⟨hs2, hcolumn⟩ := decode_column hk hm2
  rw [nandCalculateEcc_of_flip hj hk hflip hd]
  unfold correction Ecc.flip flipEcc
  simp only [xor_xor_xor_left]
  simp only [hm0, hm1, BitVec.xor_zero]
  have hsingle := And.intro hs0 (And.intro hs1 hs2)
  rw [hline, hcolumn]
  by_cases hi : i = j
  · rw [if_pos hi, if_pos ⟨hsingle, hi⟩]
  · rw [if_neg hi, if_neg fun h => hi h.2]

/-- **One error is corrected**: a block and its code with at most one flipped bit, of those that
are used, give the block back. -/
theorem corrected_of_le_one {d e : Buf} {m : Ecc}
    (h : ∑ j ∈ Finset.range 256, bitCount (e j) + m.usedFlips ≤ 1) {j : ℕ} (hj : j < 256) :
    d j ^^^ e j ^^^ correction ((nandCalculateEcc d).flip m)
      (nandCalculateEcc fun i => d i ^^^ e i) j = d j := by
  rcases eq_zero_or_oneBit_of_sum_le_one (by omega :
    ∑ j ∈ Finset.range 256, bitCount (e j) ≤ 1) with hz | ⟨l, hl, k, hk, hel, hz⟩
  · -- The block is intact.
    have hsame : nandCalculateEcc (fun i => d i ^^^ e i) = nandCalculateEcc d :=
      nandCalculateEcc_congr fun i hi => by rw [hz i hi, BitVec.xor_zero]
    rw [hsame, correction_of_code_flip _ _ (by omega), hz j hj, BitVec.xor_zero, BitVec.xor_zero]
  · -- One bit of the block is flipped, so none of the code is.
    have hone : 1 ≤ ∑ j ∈ Finset.range 256, bitCount (e j) := by
      have := Finset.single_le_sum (f := fun j => bitCount (e j)) (fun _ _ => Nat.zero_le _)
        (Finset.mem_range.mpr hl)
      have hpos : bitCount (oneBit k) = 1 := bitCount_oneBit hk
      simp only [hel, hpos] at this
      exact this
    rw [correction_of_flip hl hk (by rw [hel])
      (fun i hi hil => by rw [hz i hi hil, BitVec.xor_zero]) (by omega) j]
    by_cases hjl : j = l
    · rw [if_pos hjl, hjl, hel, BitVec.xor_assoc, BitVec.xor_self, BitVec.xor_zero]
    · rw [if_neg hjl, hz j hj hjl]
      simp

/-! ### Pages -/

theorem correctStep_buf (eccCode : Buf) (eccCalc : ℕ → Ecc) (st : Swecc) (i k : ℕ) :
    (correctStep eccCode eccCalc st i).buf k =
      if k / 256 = i then st.buf k ^^^ correction (eccAt eccCode i) (eccCalc i) (k % 256)
      else st.buf k := by
  unfold correctStep copyAt
  dsimp only
  have hin : 256 * i ≤ k ∧ k < 256 * i + 256 ↔ k / 256 = i := by omega
  by_cases hk : k / 256 = i
  · have hoff : 256 * i + (k - 256 * i) = k := by omega
    have hmod : k - 256 * i = k % 256 := by omega
    rw [if_pos hk, if_pos (hin.mpr hk), nandCorrectData_snd, sector, hoff, hmod]
  · rw [if_neg hk, if_neg fun h => hk (hin.mp h)]

/-- **Sectors are independent**: each is corrected by its own code. -/
theorem nandCorrectPageSwecc_buf (buf eccCode : Buf) (pagesize eccFixed eccUnfixed k : ℕ) :
    (nandCorrectPageSwecc buf eccCode pagesize eccFixed eccUnfixed).buf k =
      if k / 256 < pagesize / 256 then
        buf k ^^^ correction (eccAt eccCode (k / 256))
          (nandCalculateEcc (sector buf (k / 256))) (k % 256)
      else buf k := by
  unfold nandCorrectPageSwecc
  induction pagesize / 256 with
  | zero => simp
  | succ n ih =>
    rw [List.range_succ, List.foldl_concat, correctStep_buf]
    by_cases hn : k / 256 = n
    · rw [if_pos hn, ih, if_neg (by omega), if_pos (by omega), hn]
    · rw [if_neg hn, ih]
      by_cases hk : k / 256 < n
      · rw [if_pos hk, if_pos (by omega)]
      · rw [if_neg hk, if_neg (by omega)]

theorem eccAt_congr {eccCode eccCode' : Buf} {i : ℕ}
    (h : ∀ k < 3, eccCode' (3 * i + k) = eccCode (3 * i + k)) :
    eccAt eccCode' i = eccAt eccCode i := by
  have h0 := h 0 (by decide)
  have h1 := h 1 (by decide)
  have h2 := h 2 (by decide)
  unfold eccAt
  rw [← Nat.add_zero (3 * i), h0, Nat.add_zero, h1, h2]

theorem eccAt_eccByte (ecc : ℕ → Ecc) (i : ℕ) : eccAt (eccByte ecc) i = ecc i := by
  have hdiv0 : 3 * i / 3 = i := by omega
  have hmod0 : 3 * i % 3 = 0 := by omega
  have hdiv1 : (3 * i + 1) / 3 = i := by omega
  have hmod1 : (3 * i + 1) % 3 = 1 := by omega
  have hdiv2 : (3 * i + 2) / 3 = i := by omega
  have hmod2 : (3 * i + 2) % 3 = 2 := by omega
  unfold eccAt eccByte
  rw [hdiv0, hmod0, hdiv1, hmod1, hdiv2, hmod2]
  rfl

/-- The code of sector `i` is where `nand_calculate_page_swecc` has put it. -/
theorem eccAt_nandCalculatePageSwecc (buf eccCode : Buf) {pagesize i : ℕ}
    (hi : i < pagesize / 256) :
    eccAt (nandCalculatePageSwecc buf eccCode pagesize) i = nandCalculateEcc (sector buf i) := by
  rw [← eccAt_eccByte fun i => nandCalculateEcc (sector buf i)]
  apply eccAt_congr
  intro k hk
  unfold nandCalculatePageSwecc copyAt
  rw [if_pos (by omega), Nat.sub_zero]

end SortingLine.Flash
