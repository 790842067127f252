import SortingLine.Flash.Equiv.Ecc

/-!
# The ECC corrects one flipped bit and detects two

`nand_correct_data` looks at the difference of two codes only (`verdict`).  A flip of a data bit
makes just one parity of each pair differ, a flip of a code bit one parity alone; so two flips never
look like one, neither by the pairs nor by the number of bits that differ
(`verdict_of_data_data`, `verdict_of_data_code`, `verdict_of_weight_two`).

* `fst_of_flips`: what is returned for a block with up to two flips.
* `nandCorrectPageSwecc_counts`: a page adds to the two counts the numbers of its sectors that are
  corrected and that are given up.
* `corrects_one_detects_two`: both for what has been written, with flips in it.
-/

namespace SortingLine.Flash

/-! ### The verdict -/

/-- How many bits of a code are set. -/
def Ecc.weight (x : Ecc) : ℕ := bitCount x.c0 + bitCount x.c1 + bitCount x.c2

/-- What `nand_correct_data` returns when the codes differ by `x`. -/
def verdict (x : Ecc) : Int :=
  if x.c1 ||| x.c0 ||| x.c2 = 0#8 then 0
  else if SingleBitError x.c1 x.c0 x.c2 then 1
  else if countbits (x.c1.setWidth 32 ||| x.c0.setWidth 32 <<< 8 ||| x.c2.setWidth 32 <<< 16) = 1
  then 1 else -1

theorem nandCorrectData_fst (dat : Buf) (readEcc calcEcc : Ecc) :
    (nandCorrectData dat readEcc calcEcc).1 = verdict (calcEcc.flip readEcc) := by
  unfold nandCorrectData verdict Ecc.flip
  dsimp only
  split_ifs <;> rfl

/-- A block that is given up is left alone. -/
theorem nandCorrectData_snd_of_neg {dat : Buf} {readEcc calcEcc : Ecc}
    (h : (nandCorrectData dat readEcc calcEcc).1 = -1) :
    (nandCorrectData dat readEcc calcEcc).2 = dat := by
  unfold nandCorrectData at h ⊢
  dsimp only at h ⊢
  split_ifs at h ⊢
  rfl

/-- The loop of `countbits` counts the bits. -/
theorem countbitsLoop_eq (n : ℕ) (w : BitVec 32) :
    countbitsLoop n w = (List.range n).countP fun i => w.getLsbD i := by
  induction n generalizing w with
  | zero => rfl
  | succ n ih =>
    rw [countbitsLoop, List.range_succ_eq_map, List.countP_cons, List.countP_map]
    split_ifs with hw h0 h0
    · simp [hw] at h0
    · simp [hw, Function.comp_def]
    · have hone : w &&& 1 = 1 := by
        apply BitVec.eq_of_getLsbD_eq
        intro i _
        rcases Nat.eq_zero_or_pos i with rfl | hi
        · simpa using h0
        · simp [hi.ne']
      rw [ih, hone, Nat.add_comm]
      simp [Function.comp_def, Nat.add_comm]
    · have hzero : w &&& 1 = 0 := by
        apply BitVec.eq_of_getLsbD_eq
        intro i _
        rcases Nat.eq_zero_or_pos i with rfl | hi
        · simpa using h0
        · simp [hi.ne']
      rw [ih, hzero]
      simp [Function.comp_def, Nat.add_comm]

/-- The bits of three bytes side by side. -/
theorem getLsbD_bytes (s0 s1 s2 : BitVec 8) (i : ℕ) :
    (s0.setWidth 32 ||| s1.setWidth 32 <<< 8 ||| s2.setWidth 32 <<< 16).getLsbD i =
      (s0.getLsbD i || !decide (i < 8) && s1.getLsbD (i - 8) ||
        !decide (i < 16) && s2.getLsbD (i - 16)) := by
  simp only [BitVec.getLsbD_or, BitVec.getLsbD_shiftLeft, BitVec.getLsbD_setWidth]
  by_cases hi : i < 32
  · simp [hi, show i - 8 < 32 by omega, show i - 16 < 32 by omega]
  · have h0 : s0.getLsbD i = false := BitVec.getLsbD_of_ge _ _ (by omega)
    have h1 : s1.getLsbD (i - 8) = false := BitVec.getLsbD_of_ge _ _ (by omega)
    have h2 : s2.getLsbD (i - 16) = false := BitVec.getLsbD_of_ge _ _ (by omega)
    simp [h0, h1, h2]

theorem countbits_eq (s0 s1 s2 : BitVec 8) :
    countbits (s0.setWidth 32 ||| s1.setWidth 32 <<< 8 ||| s2.setWidth 32 <<< 16) =
      bitCount s0 + bitCount s1 + bitCount s2 := by
  have hrange : List.range 32 = List.range 8 ++ (List.range 8).map (8 + ·) ++
      (List.range 8).map (16 + ·) ++ (List.range 8).map (24 + ·) := by decide
  have hge (s : BitVec 8) (i : ℕ) (hi : 8 ≤ i) : s.getLsbD i = false :=
    BitVec.getLsbD_of_ge _ _ hi
  rw [countbits, countbitsLoop_eq, hrange]
  simp only [List.countP_append, List.countP_map, Function.comp_def, getLsbD_bytes]
  rw [← Nat.add_zero (bitCount s0 + bitCount s1 + bitCount s2)]
  congr 1
  · congr 1
    · congr 1
      all_goals
        refine List.countP_congr fun i hi => ?_
        have := List.mem_range.mp hi
      · simp [this, show i < 16 by omega]
      · simp [show 8 + i < 16 by omega]
    · refine List.countP_congr fun i hi => ?_
      have := List.mem_range.mp hi
      simp [hge s0 (16 + i) (by omega), hge s1 (16 + i - 8) (by omega)]
  · refine List.countP_eq_zero.mpr fun i hi => ?_
    have := List.mem_range.mp hi
    simp [hge s0 (24 + i) (by omega), hge s1 (24 + i - 8) (by omega),
      hge s2 (24 + i - 16) (by omega)]

/-! ### Pairs of parities -/

/-- Just one bit of each pair is set. -/
theorem bitCount_of_pairs {b : BitVec 8} : (b ^^^ b >>> 1) &&& 0x55#8 = 0x55#8 →
    bitCount b = 4 := by
  revert b
  decide +kernel

theorem three_le_bitCount_of_pairs {b : BitVec 8} : (b ^^^ b >>> 1) &&& 0x54#8 = 0x54#8 →
    3 ≤ bitCount b := by
  revert b
  decide +kernel

/-- Both bits of each pair are set, or none. -/
theorem even_bitCount_of_pairs {b : BitVec 8} : (b ^^^ b >>> 1) &&& 0x55#8 = 0#8 →
    Even (bitCount b) := by
  revert b
  decide +kernel

theorem even_bitCount_of_column_pairs {b : BitVec 8} : (b ^^^ b >>> 1) &&& 0x54#8 = 0#8 →
    b &&& 0x03#8 = 0#8 → Even (bitCount b) := by
  revert b
  decide +kernel

theorem pairs_xor (a b m : BitVec 8) : ((a ^^^ b) ^^^ (a ^^^ b) >>> 1) &&& m =
    ((a ^^^ a >>> 1) &&& m) ^^^ ((b ^^^ b >>> 1) &&& m) := by
  apply BitVec.eq_of_getLsbD_eq
  intro i _
  simp only [BitVec.getLsbD_and, BitVec.getLsbD_xor, BitVec.getLsbD_ushiftRight]
  generalize a.getLsbD i = p, a.getLsbD (1 + i) = p', b.getLsbD i = q, b.getLsbD (1 + i) = q',
    m.getLsbD i = r
  revert p p' q q' r
  decide

theorem eleven_le_weight {x : Ecc} (h : SingleBitError x.c1 x.c0 x.c2) : 11 ≤ x.weight := by
  have := bitCount_of_pairs h.1
  have := bitCount_of_pairs h.2.1
  have := three_le_bitCount_of_pairs h.2.2
  unfold Ecc.weight
  omega

theorem weight_eq_zero {x : Ecc} (h : x.c1 ||| x.c0 ||| x.c2 = 0#8) : x.weight = 0 := by
  obtain ⟨h10, h2⟩ := BitVec.or_eq_zero_iff.mp h
  obtain ⟨h1, h0⟩ := BitVec.or_eq_zero_iff.mp h10
  simp [Ecc.weight, h0, h1, h2]

/-- Codes that differ in no bit. -/
theorem eq_of_weight_flip {x y : Ecc} (h : (x.flip y).weight = 0) : x = y := by
  have h' : bitCount (x.c0 ^^^ y.c0) + bitCount (x.c1 ^^^ y.c1) + bitCount (x.c2 ^^^ y.c2) = 0 := h
  refine Ecc.ext (BitVec.xor_eq_zero_iff.mp ?_) (BitVec.xor_eq_zero_iff.mp ?_)
    (BitVec.xor_eq_zero_iff.mp ?_)
  all_goals
    apply bitCount_eq_zero
    omega

/-- Neither of the two signs of one flip. -/
theorem verdict_eq_neg_one {x : Ecc} (hpos : x.weight ≠ 0)
    (hsingle : ¬ SingleBitError x.c1 x.c0 x.c2) (hone : x.weight ≠ 1) : verdict x = -1 := by
  have hcount : countbits (x.c1.setWidth 32 ||| x.c0.setWidth 32 <<< 8 |||
      x.c2.setWidth 32 <<< 16) ≠ 1 := by
    rw [countbits_eq, Nat.add_comm (bitCount x.c1)]
    exact hone
  unfold verdict
  rw [if_neg fun h => hpos (weight_eq_zero h), if_neg hsingle, if_neg hcount]

/-! ### Flips -/

/-- No difference. -/
theorem verdict_of_weight_zero {x : Ecc} (h : x.weight = 0) : verdict x = 0 := by
  unfold Ecc.weight at h
  have h0 : x.c0 = 0#8 := bitCount_eq_zero (by omega)
  have h1 : x.c1 = 0#8 := bitCount_eq_zero (by omega)
  have h2 : x.c2 = 0#8 := bitCount_eq_zero (by omega)
  simp [verdict, h0, h1, h2]

/-- One bit of the code. -/
theorem verdict_of_weight_one {x : Ecc} (h : x.weight = 1) : verdict x = 1 := by
  have hcount : countbits (x.c1.setWidth 32 ||| x.c0.setWidth 32 <<< 8 |||
      x.c2.setWidth 32 <<< 16) = 1 := by
    rw [countbits_eq, Nat.add_comm (bitCount x.c1)]
    exact h
  unfold verdict
  rw [if_neg fun h' => by have := weight_eq_zero h'; omega, if_pos hcount, ite_self]

/-- Two bits of the code. -/
theorem verdict_of_weight_two {x : Ecc} (h : x.weight = 2) : verdict x = -1 := by
  refine verdict_eq_neg_one (by omega) (fun hsingle => ?_) (by omega)
  have := eleven_le_weight hsingle
  omega

/-- The sign of a flip of bit `k` on line `j`. -/
structure DataFlip (x : Ecc) (j k : ℕ) : Prop where
  single : SingleBitError x.c1 x.c0 x.c2
  line : (byteoffs x.c1 x.c0).toNat = j
  column : (bitnum x.c2).toNat = k
  unused : x.c2 &&& 0x03#8 = 0#8

theorem dataFlip_flipEcc {j k : ℕ} (hj : j < 256) (hk : k < 8) : DataFlip (flipEcc j k) j k := by
  obtain ⟨hs0, hs1, hline⟩ := decode_line hj
  obtain ⟨hs2, hcolumn⟩ := decode_column hk (u := 0#8) rfl
  simp only [BitVec.xor_zero] at hs2 hcolumn
  refine ⟨⟨hs0, hs1, hs2⟩, hline, hcolumn, ?_⟩
  show (precalc (oneBit k) &&& 0x3f#8) <<< 2 &&& 0x03#8 = 0#8
  generalize precalc (oneBit k) = b
  revert b
  decide +kernel

/-- One bit of the block. -/
theorem verdict_of_data {x : Ecc} {j k : ℕ} (h : DataFlip x j k) : verdict x = 1 := by
  have := eleven_le_weight h.single
  unfold verdict
  rw [if_neg fun h' => by have := weight_eq_zero h'; omega, if_pos h.single]

/-- Two bits of the block: each pair of parities differs in both or in none. -/
theorem verdict_of_data_data {x y : Ecc} {j k j' k' : ℕ} (hx : DataFlip x j k)
    (hy : DataFlip y j' k') (hne : ¬ (j = j' ∧ k = k')) : verdict (x.flip y) = -1 := by
  have h1 : ((x.c1 ^^^ y.c1) ^^^ (x.c1 ^^^ y.c1) >>> 1) &&& 0x55#8 = 0#8 := by
    rw [pairs_xor, hx.single.1, hy.single.1, BitVec.xor_self]
  have h0 : ((x.c0 ^^^ y.c0) ^^^ (x.c0 ^^^ y.c0) >>> 1) &&& 0x55#8 = 0#8 := by
    rw [pairs_xor, hx.single.2.1, hy.single.2.1, BitVec.xor_self]
  have h2 : ((x.c2 ^^^ y.c2) ^^^ (x.c2 ^^^ y.c2) >>> 1) &&& 0x54#8 = 0#8 := by
    rw [pairs_xor, hx.single.2.2, hy.single.2.2, BitVec.xor_self]
  have hunused : (x.c2 ^^^ y.c2) &&& 0x03#8 = 0#8 := by
    rw [xor_and_distrib, hx.unused, hy.unused, BitVec.xor_self]
  have heven : Even (x.flip y).weight :=
    ((even_bitCount_of_pairs h0).add (even_bitCount_of_pairs h1)).add
      (even_bitCount_of_column_pairs h2 hunused)
  refine verdict_eq_neg_one (fun hzero => hne ?_) (fun h => ?_) fun hone => ?_
  · -- without a difference, both would be the same flip
    have hxy : x = y := eq_of_weight_flip hzero
    exact ⟨hx.line.symm.trans (hxy ▸ hy.line), hx.column.symm.trans (hxy ▸ hy.column)⟩
  · exact absurd (h1.symm.trans h.1) (by decide)
  · rw [hone] at heven
    exact absurd heven (by decide)

/-- The code with one bit flipped: which byte has it, and nothing else. -/
theorem weight_eq_one_cases {m : Ecc} (h : m.weight = 1) :
    (∃ k < 8, m.c0 = oneBit k) ∧ m.c1 = 0#8 ∧ m.c2 = 0#8 ∨
    m.c0 = 0#8 ∧ (∃ k < 8, m.c1 = oneBit k) ∧ m.c2 = 0#8 ∨
    m.c0 = 0#8 ∧ m.c1 = 0#8 ∧ ∃ k < 8, m.c2 = oneBit k := by
  unfold Ecc.weight at h
  rcases Nat.eq_zero_or_pos (bitCount m.c0) with h0 | h0
  · rcases Nat.eq_zero_or_pos (bitCount m.c1) with h1 | h1
    · exact .inr (.inr ⟨bitCount_eq_zero h0, bitCount_eq_zero h1,
        eq_oneBit_of_bitCount (by omega)⟩)
    · exact .inr (.inl ⟨bitCount_eq_zero h0, eq_oneBit_of_bitCount (by omega),
        bitCount_eq_zero (by omega)⟩)
  · exact .inl ⟨eq_oneBit_of_bitCount (by omega), bitCount_eq_zero (by omega),
      bitCount_eq_zero (by omega)⟩

theorem pairs_oneBit_ne {k : ℕ} (hk : k < 8) :
    (oneBit k ^^^ oneBit k >>> 1) &&& 0x55#8 ≠ 0#8 := by
  revert k
  decide +kernel

theorem column_pairs_oneBit_ne {k : ℕ} (hk : k < 8) : oneBit k &&& 0x03#8 = 0#8 →
    (oneBit k ^^^ oneBit k >>> 1) &&& 0x54#8 ≠ 0#8 := by
  revert k
  decide +kernel

/-- A bit of the block and one of the code: all pairs but one still differ in one parity. -/
theorem verdict_of_data_code {x m : Ecc} {j k : ℕ} (hx : DataFlip x j k) (hm : m.weight = 1)
    (hunused : m.c2 &&& 0x03#8 = 0#8) : verdict (x.flip m) = -1 := by
  have hcount0 := bitCount_of_pairs hx.single.2.1
  have hcount1 := bitCount_of_pairs hx.single.1
  have hcount2 := three_le_bitCount_of_pairs hx.single.2.2
  have hne {a b : BitVec 8} : a ^^^ b = a → b = 0#8 := by
    intro h
    rw [← BitVec.zero_xor (x := b), ← BitVec.xor_self (x := a), BitVec.xor_assoc, h,
      BitVec.xor_self]
  rcases weight_eq_one_cases hm with ⟨⟨l, hl, h0⟩, h1, h2⟩ | ⟨h0, ⟨l, hl, h1⟩, h2⟩ |
    ⟨h0, h1, l, hl, h2⟩
  all_goals
    refine verdict_eq_neg_one ?_ (fun h => ?_) ?_
  · simp only [Ecc.weight, Ecc.flip, h1, BitVec.xor_zero]
    omega
  · have hpairs := h.2.1
    simp only [Ecc.flip, h0] at hpairs
    rw [pairs_xor, hx.single.2.1] at hpairs
    exact pairs_oneBit_ne hl (hne hpairs)
  · simp only [Ecc.weight, Ecc.flip, h1, BitVec.xor_zero]
    omega
  · simp only [Ecc.weight, Ecc.flip, h0, BitVec.xor_zero]
    omega
  · have hpairs := h.1
    simp only [Ecc.flip, h1] at hpairs
    rw [pairs_xor, hx.single.1] at hpairs
    exact pairs_oneBit_ne hl (hne hpairs)
  · simp only [Ecc.weight, Ecc.flip, h0, BitVec.xor_zero]
    omega
  · simp only [Ecc.weight, Ecc.flip, h0, BitVec.xor_zero]
    omega
  · have hpairs := h.2.2
    simp only [Ecc.flip, h2] at hpairs
    rw [pairs_xor, hx.single.2.2] at hpairs
    exact column_pairs_oneBit_ne hl (h2 ▸ hunused) (hne hpairs)
  · simp only [Ecc.weight, Ecc.flip, h0, BitVec.xor_zero]
    omega

/-! ### Sectors -/

/-- How many bits of a block, and of those of its code that are used, are flipped. -/
def sectorFlips (e : Buf) (m : Ecc) : ℕ := ∑ j ∈ Finset.range 256, bitCount (e j) + m.usedFlips

theorem usedFlips_eq_weight {m : Ecc} (hm : m.c2 &&& 0x03#8 = 0#8) : m.usedFlips = m.weight := by
  have hused {b : BitVec 8} : b &&& 0x03#8 = 0#8 → b &&& 0xfc#8 = b := by
    revert b
    decide +kernel
  rw [Ecc.usedFlips, hused hm, Ecc.weight]

theorem Ecc.flip_flip_flip (c s m : Ecc) : (c.flip s).flip (c.flip m) = s.flip m := by
  have h (a b e : BitVec 8) : a ^^^ b ^^^ (a ^^^ e) = b ^^^ e := by
    rw [BitVec.xor_comm a b, BitVec.xor_assoc, ← BitVec.xor_assoc a, BitVec.xor_self,
      BitVec.zero_xor]
  exact Ecc.ext (h _ _ _) (h _ _ _) (h _ _ _)

theorem Ecc.flip_of_weight_zero {m : Ecc} (hm : m.weight = 0) (c : Ecc) : c.flip m = c := by
  unfold Ecc.weight at hm
  have h0 : m.c0 = 0#8 := bitCount_eq_zero (by omega)
  have h1 : m.c1 = 0#8 := bitCount_eq_zero (by omega)
  have h2 : m.c2 = 0#8 := bitCount_eq_zero (by omega)
  refine Ecc.ext ?_ ?_ ?_
  · rw [Ecc.flip, h0, BitVec.xor_zero]
  · rw [Ecc.flip, h1, BitVec.xor_zero]
  · rw [Ecc.flip, h2, BitVec.xor_zero]

theorem Ecc.flip_assoc (c s m : Ecc) : (c.flip s).flip m = c.flip (s.flip m) :=
  Ecc.ext (BitVec.xor_assoc _ _ _) (BitVec.xor_assoc _ _ _) (BitVec.xor_assoc _ _ _)

/-- No flip. -/
theorem nandCalculateEcc_of_sum_zero {d e : Buf}
    (h : ∑ j ∈ Finset.range 256, bitCount (e j) = 0) :
    nandCalculateEcc (fun j => d j ^^^ e j) = nandCalculateEcc d := by
  refine nandCalculateEcc_congr fun j hj => ?_
  have hzero := Finset.sum_eq_zero_iff.mp h j (Finset.mem_range.mpr hj)
  rw [bitCount_eq_zero hzero, BitVec.xor_zero]

/-- One flip more. -/
theorem nandCalculateEcc_of_update (d e : Buf) {j k : ℕ} (hj : j < 256) (hk : k < 8) :
    nandCalculateEcc (fun i => d i ^^^ e i) =
      (nandCalculateEcc fun i => d i ^^^ Function.update e j (e j ^^^ oneBit k) i).flip
        (flipEcc j k) := by
  refine nandCalculateEcc_of_flip hj hk ?_ fun i _ hij => ?_
  · rw [Function.update_self, BitVec.xor_assoc, BitVec.xor_assoc, BitVec.xor_self,
      BitVec.xor_zero]
  · rw [Function.update_of_ne hij]

/-- The sign of one flip of the block. -/
theorem nandCalculateEcc_of_sum_one {d e : Buf}
    (h : ∑ j ∈ Finset.range 256, bitCount (e j) = 1) :
    ∃ x j k, DataFlip x j k ∧
      nandCalculateEcc (fun j => d j ^^^ e j) = (nandCalculateEcc d).flip x := by
  obtain ⟨j, hj, k, hk, -, hzero⟩ := exists_oneBit_of_sum_eq_succ h
  refine ⟨flipEcc j k, j, k, dataFlip_flipEcc hj hk, ?_⟩
  rw [nandCalculateEcc_of_update d e hj hk, nandCalculateEcc_of_sum_zero hzero]

/-- The signs of two flips of the block, which are not the same. -/
theorem nandCalculateEcc_of_sum_two {d e : Buf}
    (h : ∑ j ∈ Finset.range 256, bitCount (e j) = 2) :
    ∃ x y j k j' k', DataFlip x j k ∧ DataFlip y j' k' ∧ ¬ (j = j' ∧ k = k') ∧
      nandCalculateEcc (fun j => d j ^^^ e j) = (nandCalculateEcc d).flip (x.flip y) := by
  obtain ⟨j', hj', k', hk', hbit', hone⟩ := exists_oneBit_of_sum_eq_succ h
  obtain ⟨j, hj, k, hk, hbit, hzero⟩ := exists_oneBit_of_sum_eq_succ hone
  refine ⟨flipEcc j k, flipEcc j' k', j, k, j', k', dataFlip_flipEcc hj hk,
    dataFlip_flipEcc hj' hk', ?_, ?_⟩
  · -- the bit flipped first is clear in what is left
    rintro ⟨rfl, rfl⟩
    rw [Function.update_self, BitVec.getLsbD_xor, hbit', getLsbD_oneBit hk hk,
      decide_eq_true rfl] at hbit
    exact absurd hbit (by decide)
  · rw [nandCalculateEcc_of_update d e hj' hk', nandCalculateEcc_of_update d _ hj hk,
      nandCalculateEcc_of_sum_zero hzero, Ecc.flip_assoc]

/-- **What `nand_correct_data` returns**, by the number of flips. -/
theorem fst_of_flips {d e : Buf} {m : Ecc} (hm : m.c2 &&& 0x03#8 = 0#8) :
    let r := nandCorrectData (fun j => d j ^^^ e j) ((nandCalculateEcc d).flip m)
      (nandCalculateEcc fun j => d j ^^^ e j)
    (sectorFlips e m = 0 → r.1 = 0) ∧ (sectorFlips e m = 1 → r.1 = 1) ∧
      (sectorFlips e m = 2 → r.1 = -1) := by
  dsimp only
  rw [nandCorrectData_fst, sectorFlips, usedFlips_eq_weight hm]
  have hself : ((nandCalculateEcc d).flip ((nandCalculateEcc d).flip m)) = m := by
    have h (a b : BitVec 8) : a ^^^ (a ^^^ b) = b := by
      rw [← BitVec.xor_assoc, BitVec.xor_self, BitVec.zero_xor]
    exact Ecc.ext (h _ _) (h _ _) (h _ _)
  refine ⟨fun h0 => ?_, fun h1 => ?_, fun h2 => ?_⟩
  · rw [nandCalculateEcc_of_sum_zero (by omega), hself]
    exact verdict_of_weight_zero (by omega)
  · by_cases hd : ∑ j ∈ Finset.range 256, bitCount (e j) = 0
    · rw [nandCalculateEcc_of_sum_zero hd, hself]
      exact verdict_of_weight_one (by omega)
    · obtain ⟨x, j, k, hx, hcode⟩ := nandCalculateEcc_of_sum_one (d := d) (e := e) (by omega)
      rw [hcode, Ecc.flip_flip_flip, Ecc.flip_of_weight_zero (by omega)]
      exact verdict_of_data hx
  · by_cases hd : ∑ j ∈ Finset.range 256, bitCount (e j) = 0
    · rw [nandCalculateEcc_of_sum_zero hd, hself]
      exact verdict_of_weight_two (by omega)
    · by_cases hd1 : ∑ j ∈ Finset.range 256, bitCount (e j) = 1
      · obtain ⟨x, j, k, hx, hcode⟩ := nandCalculateEcc_of_sum_one (d := d) hd1
        rw [hcode, Ecc.flip_flip_flip]
        exact verdict_of_data_code hx (by omega) hm
      · obtain ⟨x, y, j, k, j', k', hx, hy, hne, hcode⟩ :=
          nandCalculateEcc_of_sum_two (d := d) (e := e) (by omega)
        rw [hcode, Ecc.flip_flip_flip, Ecc.flip_of_weight_zero (by omega)]
        exact verdict_of_data_data hx hy hne

/-- A block with at most one flip is restored. -/
theorem snd_of_flips {d e : Buf} {m : Ecc} (h : sectorFlips e m ≤ 1) {j : ℕ} (hj : j < 256) :
    (nandCorrectData (fun j => d j ^^^ e j) ((nandCalculateEcc d).flip m)
      (nandCalculateEcc fun j => d j ^^^ e j)).2 j = d j := by
  rw [nandCorrectData_snd]
  exact corrected_of_le_one h hj

/-! ### Pages -/

/-- The result for a sector of a page. -/
def sectorResult (buf eccCode : Buf) (i : ℕ) : Int × Buf :=
  nandCorrectData (sector buf i) (eccAt eccCode i) (nandCalculateEcc (sector buf i))

theorem nandCorrectPageSwecc_succ (buf eccCode : Buf) (n eccFixed eccUnfixed : ℕ) :
    nandCorrectPageSwecc buf eccCode (256 * (n + 1)) eccFixed eccUnfixed =
      correctStep eccCode (fun i => nandCalculateEcc (sector buf i))
        (nandCorrectPageSwecc buf eccCode (256 * n) eccFixed eccUnfixed) n := by
  unfold nandCorrectPageSwecc
  rw [Nat.mul_div_cancel_left _ (by decide), Nat.mul_div_cancel_left _ (by decide),
    List.range_succ, List.foldl_concat]

/-- **The counts** are the numbers of the sectors with each result. -/
theorem nandCorrectPageSwecc_counts (buf eccCode : Buf) (n eccFixed eccUnfixed : ℕ) :
    (nandCorrectPageSwecc buf eccCode (256 * n) eccFixed eccUnfixed).eccFixed =
      eccFixed + (List.range n).countP (fun i => (sectorResult buf eccCode i).1 = 1) ∧
    (nandCorrectPageSwecc buf eccCode (256 * n) eccFixed eccUnfixed).eccUnfixed =
      eccUnfixed + (List.range n).countP (fun i => (sectorResult buf eccCode i).1 = -1) := by
  induction n with
  | zero => exact ⟨rfl, rfl⟩
  | succ n ih =>
    obtain ⟨hfixed, hunfixed⟩ := ih
    rw [nandCorrectPageSwecc_succ, List.range_succ, List.countP_append, List.countP_append]
    simp only [correctStep, nandCorrectData_fst, hfixed, hunfixed, List.countP_singleton,
      sectorResult, decide_eq_true_eq]
    constructor <;> split_ifs <;> omega

/-- **Sectors are treated independently**: each is left as its own correction leaves it. -/
theorem sector_nandCorrectPageSwecc (buf eccCode : Buf) {n i j : ℕ} (eccFixed eccUnfixed : ℕ)
    (hi : i < n) (hj : j < 256) :
    sector (nandCorrectPageSwecc buf eccCode (256 * n) eccFixed eccUnfixed).buf i j =
      (sectorResult buf eccCode i).2 j := by
  have hdiv : (256 * i + j) / 256 = i := by omega
  have hmod : (256 * i + j) % 256 = j := by omega
  rw [sector, nandCorrectPageSwecc_buf, Nat.mul_div_cancel_left _ (by decide), hdiv, hmod,
    if_pos hi, sectorResult, nandCorrectData_snd, sector]

/-! ### A page as it was written, with flips -/

theorem eccAt_xor (eccCode em : Buf) (i : ℕ) :
    eccAt (fun k => eccCode k ^^^ em k) i = (eccAt eccCode i).flip (eccAt em i) := rfl

/-- Where the flips of sector `i` are counted. -/
theorem sectorResult_flips (d code e em : Buf) {n i : ℕ} (hi : i < n) :
    sectorResult (fun j => d j ^^^ e j)
        (fun k => nandCalculatePageSwecc d code (256 * n) k ^^^ em k) i =
      nandCorrectData (fun j => sector d i j ^^^ sector e i j)
        ((nandCalculateEcc (sector d i)).flip (eccAt em i))
        (nandCalculateEcc fun j => sector d i j ^^^ sector e i j) := by
  have hlt : i < 256 * n / 256 := by rwa [Nat.mul_div_cancel_left _ (by decide)]
  rw [sectorResult, eccAt_xor, eccAt_nandCalculatePageSwecc d code hlt]
  rfl

/-- An erased block has an erased code. -/
theorem nandCalculateEcc_erased {d : Buf} (h : ∀ j < 256, d j = 0xff#8) :
    nandCalculateEcc d = { c0 := 0xff, c1 := 0xff, c2 := 0xff } := by
  have hcontribution (i : ℕ) : contribution 0xff#8 i = { reg1 := 0, reg2 := 0, reg3 := 0 } := rfl
  have hzero (l : List ℕ) : l.foldl (fun r i => EccRegs.xor r (contribution 0xff#8 i))
      { reg1 := 0, reg2 := 0, reg3 := 0 } = { reg1 := 0, reg2 := 0, reg3 := 0 } := by
    induction l with
    | nil => rfl
    | cons i l ih =>
      rw [List.foldl_cons, hcontribution]
      exact ih
  have hregs : regs d = { reg1 := 0, reg2 := 0, reg3 := 0 } := by
    refine Eq.trans (List.foldl_ext _ _ _ fun r i hi => ?_) (hzero (List.range 256))
    rw [h i (List.mem_range.mp hi)]
  rw [nandCalculateEcc_eq, hregs]
  rfl

/-- A block and its code, as they were written but for up to two flips. -/
structure Secded (d e : Buf) (m : Ecc) (r : Int × Buf) : Prop where
  none : sectorFlips e m = 0 → r.1 = 0 ∧ ∀ j < 256, r.2 j = d j
  one : sectorFlips e m = 1 → r.1 = 1 ∧ ∀ j < 256, r.2 j = d j
  two : sectorFlips e m = 2 → r.1 = -1 ∧ r.2 = fun j => d j ^^^ e j

theorem secded (d e : Buf) {m : Ecc} (hm : m.c2 &&& 0x03#8 = 0#8) :
    Secded d e m (nandCorrectData (fun j => d j ^^^ e j) ((nandCalculateEcc d).flip m)
      (nandCalculateEcc fun j => d j ^^^ e j)) := by
  obtain ⟨h0, h1, h2⟩ := fst_of_flips (d := d) (e := e) hm
  exact ⟨fun h => ⟨h0 h, fun j => snd_of_flips (by omega)⟩,
    fun h => ⟨h1 h, fun j => snd_of_flips (by omega)⟩,
    fun h => ⟨h2 h, nandCorrectData_snd_of_neg (h2 h)⟩⟩

/-- **Correct one, detect two**: every block, the erased block, and the sectors of every page, each
by itself. -/
theorem corrects_one_detects_two :
    (∀ (d e : Buf) (m : Ecc), m.c2 &&& 0x03#8 = 0#8 →
      Secded d e m (nandCorrectData (fun j => d j ^^^ e j) ((nandCalculateEcc d).flip m)
        (nandCalculateEcc fun j => d j ^^^ e j))) ∧
    (∀ d : Buf, (∀ j < 256, d j = 0xff#8) →
      nandCalculateEcc d = { c0 := 0xff, c1 := 0xff, c2 := 0xff } ∧
      (nandCorrectData d { c0 := 0xff, c1 := 0xff, c2 := 0xff } (nandCalculateEcc d)).1 = 0) ∧
    (∀ (buf eccCode : Buf) (n eccFixed eccUnfixed : ℕ),
      let sw := nandCorrectPageSwecc buf eccCode (256 * n) eccFixed eccUnfixed
      (∀ i < n, ∀ j < 256, sector sw.buf i j = (sectorResult buf eccCode i).2 j) ∧
      sw.eccFixed = eccFixed +
        (List.range n).countP (fun i => (sectorResult buf eccCode i).1 = 1) ∧
      sw.eccUnfixed = eccUnfixed +
        (List.range n).countP (fun i => (sectorResult buf eccCode i).1 = -1)) ∧
    ∀ (d code e em : Buf) (n eccFixed eccUnfixed : ℕ),
      (∀ i < n, (eccAt em i).c2 &&& 0x03#8 = 0#8) →
      (∀ i < n, sectorFlips (sector e i) (eccAt em i) ≤ 2) →
      let sw := nandCorrectPageSwecc (fun j => d j ^^^ e j)
        (fun k => nandCalculatePageSwecc d code (256 * n) k ^^^ em k) (256 * n) eccFixed eccUnfixed
      sw.eccFixed = eccFixed +
        (List.range n).countP (fun i => sectorFlips (sector e i) (eccAt em i) = 1) ∧
      sw.eccUnfixed = eccUnfixed +
        (List.range n).countP (fun i => sectorFlips (sector e i) (eccAt em i) = 2) := by
  refine ⟨fun d e m hm => secded d e hm, fun d hd => ?_,
    fun buf eccCode n eccFixed eccUnfixed => ?_,
    fun d code e em n eccFixed eccUnfixed hused hflips => ?_⟩
  · rw [nandCalculateEcc_erased hd, nandCorrectData_fst]
    exact ⟨rfl, by decide⟩
  · exact ⟨fun i hi j hj => sector_nandCorrectPageSwecc buf eccCode eccFixed eccUnfixed hi hj,
      nandCorrectPageSwecc_counts buf eccCode n eccFixed eccUnfixed⟩
  · obtain ⟨hfixed, hunfixed⟩ := nandCorrectPageSwecc_counts (fun j => d j ^^^ e j)
      (fun k => nandCalculatePageSwecc d code (256 * n) k ^^^ em k) n eccFixed eccUnfixed
    have hsector (i : ℕ) (hi : i ∈ List.range n) :
        Secded (sector d i) (sector e i) (eccAt em i) (sectorResult (fun j => d j ^^^ e j)
          (fun k => nandCalculatePageSwecc d code (256 * n) k ^^^ em k) i) := by
      rw [sectorResult_flips d code e em (List.mem_range.mp hi)]
      exact secded _ _ (hused i (List.mem_range.mp hi))
    refine ⟨hfixed.trans ?_, hunfixed.trans ?_⟩
    all_goals
      congr 1
      refine List.countP_congr fun i hi => ?_
      have hs := hsector i hi
      simp only [decide_eq_true_eq]
      have := hflips i (List.mem_range.mp hi)
      rcases (by omega : sectorFlips (sector e i) (eccAt em i) = 0 ∨
        sectorFlips (sector e i) (eccAt em i) = 1 ∨
        sectorFlips (sector e i) (eccAt em i) = 2) with h | h | h
    · simp [h, (hs.none h).1]
    · simp [h, (hs.one h).1]
    · simp [h, (hs.two h).1]
    · simp [h, (hs.none h).1]
    · simp [h, (hs.one h).1]
    · simp [h, (hs.two h).1]

/-- A page of two sectors with one flip in the first and two in the second. -/
def threeFlips : Buf := fun j => if j = 7 then 0x10#8 else if j = 300 then 0x05#8 else 0#8

theorem corrects_one_detects_two_threeFlips :
    (nandCorrectData (fun j => 0#8 ^^^ sector threeFlips 1 j)
      ((nandCalculateEcc fun _ => 0#8).flip { c0 := 0, c1 := 0, c2 := 0 })
      (nandCalculateEcc fun j => 0#8 ^^^ sector threeFlips 1 j)).1 = -1 ∧
    let sw := nandCorrectPageSwecc (fun j => 0#8 ^^^ threeFlips j)
      (fun k => nandCalculatePageSwecc (fun _ => 0#8) (fun _ => 0#8) (256 * 2) k ^^^ 0#8)
      (256 * 2) 10 20
    sw.eccFixed = 11 ∧ sw.eccUnfixed = 21 := by
  have hflips0 : sectorFlips (sector threeFlips 0) (eccAt (fun _ => 0#8) 0) = 1 := by
    decide +kernel
  have hflips1 : sectorFlips (sector threeFlips 1) (eccAt (fun _ => 0#8) 1) = 2 := by
    decide +kernel
  obtain ⟨hblock, -, -, hpage⟩ := corrects_one_detects_two
  obtain ⟨hfixed, hunfixed⟩ := hpage (fun _ => 0#8) (fun _ => 0#8) threeFlips (fun _ => 0#8) 2 10 20
    (by simp [eccAt]) (by
      refine Nat.forall_lt_succ_right.mpr ⟨Nat.forall_lt_succ_right.mpr ⟨by simp, ?_⟩, ?_⟩
      · omega
      · omega)
  refine ⟨((hblock (fun _ => 0#8) (sector threeFlips 1) ⟨0, 0, 0⟩ rfl).two hflips1).1,
    hfixed.trans ?_, hunfixed.trans ?_⟩
  · simp [List.range_succ, hflips0, hflips1]
  · simp [List.range_succ, hflips0, hflips1]

end SortingLine.Flash
