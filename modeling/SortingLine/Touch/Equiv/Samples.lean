import SortingLine.Library.Median
import SortingLine.Touch.Samples

/-!
# What the medians are taken over

`read_xyz_coords` counts the rounds that find the pen down and the entry of their own number in
range (`goodRounds`), but what it leaves in `samp` is all of the last read (`lastRead`).  So the
samples that are sorted are the first `goodRounds` points of that one read, `counted`
(`take_readXyzCoords`), and the two coordinates are their medians (`isMedian_measure`).
-/

namespace SortingLine.Touch

variable {rounds : ℕ → Round} {samp : List TsMessage} {clickDown : Bool} {n : ℕ}

/-- The sample passes the range test. -/
def TsMessage.InRange (p : TsMessage) : Prop :=
  (100 ≤ p.x ∧ p.x ≤ 4000) ∧ (100 ≤ p.y ∧ p.y ≤ 4000) ∧ 100 ≤ p.z ∧ p.z ≤ 4000

instance (p : TsMessage) : Decidable p.InRange := by
  unfold TsMessage.InRange
  infer_instance

theorem outOfRange_eq_false_iff {p : TsMessage} : outOfRange p = false ↔ p.InRange := by
  simp [outOfRange, TsMessage.InRange, and_assoc]

/-! ### The rounds that are counted -/

/-- The round finds the pen down, and the entry of its own number in range. -/
def goodRound (rounds : ℕ → Round) (k : ℕ) : Bool :=
  getTouchDown (rounds k).level && !outOfRange (point (rounds k).answers k)

/-- How many of the `left` rounds from `readed` on are good, up to the first that is not. -/
def goodFrom (rounds : ℕ → Round) (readed left : ℕ) : ℕ :=
  ((List.range' readed left).takeWhile (goodRound rounds)).length

/-- How many rounds are good, up to the first that is not. -/
def goodRounds (rounds : ℕ → Round) : ℕ := goodFrom rounds 0 maxSamples

/-- The last round that reads: the one that is not good, if it finds the pen down. -/
def lastRead (rounds : ℕ → Round) : ℕ :=
  let n := goodRounds rounds
  if n < maxSamples ∧ getTouchDown (rounds n).level = true then n else n - 1

/-- The first points of the last read, as many as there were good rounds. -/
def counted (rounds : ℕ → Round) : List TsMessage :=
  (List.range (goodRounds rounds)).map (point (rounds (lastRead rounds)).answers)

/-- A round reads if it finds the pen down and all rounds before it were good. -/
def Reads (rounds : ℕ → Round) (k : ℕ) : Prop :=
  k < maxSamples ∧ getTouchDown (rounds k).level = true ∧ ∀ j < k, goodRound rounds j = true

/-- The sample was read while the pen was down. -/
def ReadDown (rounds : ℕ → Round) (p : TsMessage) : Prop :=
  ∃ k, Reads rounds k ∧ p ∈ xpt2046Read (rounds k).answers maxSamples

theorem goodRound_eq_true_iff {k : ℕ} : goodRound rounds k = true ↔
    getTouchDown (rounds k).level = true ∧ (point (rounds k).answers k).InRange := by
  rw [goodRound, Bool.and_eq_true, Bool.not_eq_true', outOfRange_eq_false_iff]

theorem goodFrom_le (rounds : ℕ → Round) (readed left : ℕ) : goodFrom rounds readed left ≤ left :=
  calc goodFrom rounds readed left
    _ ≤ (List.range' readed left).length := (List.takeWhile_prefix _).length_le
    _ = left := List.length_range'

theorem goodFrom_succ_of_good {readed left : ℕ} (h : goodRound rounds readed = true) :
    goodFrom rounds readed (left + 1) = goodFrom rounds (readed + 1) left + 1 := by
  simp [goodFrom, List.range'_succ, h]

theorem goodFrom_succ_of_not_good {readed left : ℕ} (h : goodRound rounds readed = false) :
    goodFrom rounds readed (left + 1) = 0 := by
  simp [goodFrom, List.range'_succ, h]

theorem goodRound_of_lt {readed left j : ℕ} (h : readed ≤ j)
    (hj : j < readed + goodFrom rounds readed left) : goodRound rounds j = true := by
  induction left generalizing readed with
  | zero =>
    have hle := goodFrom_le rounds readed 0
    omega
  | succ left ih =>
    cases hg : goodRound rounds readed with
    | false =>
      rw [goodFrom_succ_of_not_good hg] at hj
      omega
    | true =>
      rw [goodFrom_succ_of_good hg] at hj
      rcases Nat.eq_or_lt_of_le h with rfl | hlt
      · exact hg
      · have hlt' : readed + 1 ≤ j := hlt
        exact ih hlt' (by omega)

theorem goodRound_of_lt_goodRounds {j : ℕ} (hj : j < goodRounds rounds) :
    goodRound rounds j = true :=
  goodRound_of_lt (Nat.zero_le j) (by rwa [Nat.zero_add])

theorem goodRounds_le (rounds : ℕ → Round) : goodRounds rounds ≤ maxSamples :=
  goodFrom_le rounds 0 maxSamples

theorem lastRead_of_down (h : goodRounds rounds < maxSamples ∧
    getTouchDown (rounds (goodRounds rounds)).level = true) :
    lastRead rounds = goodRounds rounds := by
  unfold lastRead
  exact if_pos h

theorem lastRead_of_not (h : ¬ (goodRounds rounds < maxSamples ∧
    getTouchDown (rounds (goodRounds rounds)).level = true)) :
    lastRead rounds = goodRounds rounds - 1 := by
  unfold lastRead
  exact if_neg h

theorem reads_lastRead (h : 0 < goodRounds rounds) : Reads rounds (lastRead rounds) := by
  have hle := goodRounds_le rounds
  by_cases hlast : goodRounds rounds < maxSamples ∧
      getTouchDown (rounds (goodRounds rounds)).level = true
  · rw [lastRead_of_down hlast]
    exact ⟨hlast.1, hlast.2, fun j => goodRound_of_lt_goodRounds⟩
  · rw [lastRead_of_not hlast]
    have hpred : goodRound rounds (goodRounds rounds - 1) = true :=
      goodRound_of_lt_goodRounds (by omega)
    refine ⟨by omega, (goodRound_eq_true_iff.mp hpred).1, fun j hj => ?_⟩
    exact goodRound_of_lt_goodRounds (by omega)

theorem length_counted (rounds : ℕ → Round) : (counted rounds).length = goodRounds rounds := by
  simp [counted]

/-- The samples that are counted were read while the pen was down. -/
theorem readDown_of_mem_counted {p : TsMessage} (hp : p ∈ counted rounds) : ReadDown rounds p := by
  have hpos : 0 < goodRounds rounds := by
    rw [← length_counted]
    exact List.length_pos_of_mem hp
  refine ⟨lastRead rounds, reads_lastRead hpos, ?_⟩
  obtain ⟨i, hi, rfl⟩ := List.mem_map.mp hp
  refine List.mem_map.mpr ⟨i, ?_, rfl⟩
  have hlt : i < goodRounds rounds := List.mem_range.mp hi
  exact List.mem_range.mpr (hlt.trans_le (goodRounds_le rounds))

/-! ### The loop -/

theorem getD_xpt2046Read (answers : Answers) {readed : ℕ} (h : readed < maxSamples) :
    (xpt2046Read answers maxSamples).getD readed .zero = point answers readed := by
  simp [xpt2046Read, List.getD, h]

/-- **The loop**: it counts the good rounds, and leaves the last read. -/
theorem sampleLoop_eq (rounds : ℕ → Round) {left readed : ℕ} (h : readed + left ≤ maxSamples) :
    (sampleLoop rounds left clickDown readed samp).2 =
      (readed + goodFrom rounds readed left,
        let n := readed + goodFrom rounds readed left
        if n < readed + left ∧ getTouchDown (rounds n).level = true then
          xpt2046Read (rounds n).answers maxSamples
        else if n = readed then samp
        else xpt2046Read (rounds (n - 1)).answers maxSamples) := by
  induction left generalizing clickDown readed samp with
  | zero =>
    have hle := goodFrom_le rounds readed 0
    obtain hz : goodFrom rounds readed 0 = 0 := by omega
    simp [sampleLoop, hz]
  | succ left ih =>
    have hlt : readed < maxSamples := by omega
    have hread := getD_xpt2046Read (rounds readed).answers hlt
    unfold sampleLoop
    dsimp only
    rw [hread]
    cases hd : getTouchDown (rounds readed).level with
    | false =>
      have hg : goodRound rounds readed = false := by simp [goodRound, hd]
      simp [goodFrom_succ_of_not_good hg, hd]
    | true =>
      cases ho : outOfRange (point (rounds readed).answers readed) with
      | true =>
        have hg : goodRound rounds readed = false := by simp [goodRound, ho]
        simp [goodFrom_succ_of_not_good hg, hd]
      | false =>
        have hg : goodRound rounds readed = true := by simp [goodRound, hd, ho]
        have hsum : readed + goodFrom rounds readed (left + 1) =
            readed + 1 + goodFrom rounds (readed + 1) left := by
          rw [goodFrom_succ_of_good hg]
          omega
        simp only [Bool.not_true, Bool.false_eq_true, if_false]
        rw [ih (by omega), hsum]
        dsimp only
        have hlt : readed < readed + 1 + goodFrom rounds (readed + 1) left := by omega
        generalize readed + 1 + goodFrom rounds (readed + 1) left = n at hlt ⊢
        have hne : n ≠ readed := by omega
        rw [if_neg hne, Nat.add_right_comm, Nat.add_assoc]
        -- where no later round reads, this read is the last
        by_cases hn : n = readed + 1
        · simp [hn]
        · rw [if_neg hn]

theorem readed_readXyzCoords (rounds : ℕ → Round) (clickDown : Bool) :
    (readXyzCoords rounds clickDown).2.1 = goodRounds rounds := by
  have hleft : 0 + maxSamples ≤ maxSamples := by omega
  rw [readXyzCoords, sampleLoop_eq rounds hleft]
  exact Nat.zero_add _

theorem readXyzCoords_eq (clickDown : Bool) (h : 0 < goodRounds rounds) :
    (readXyzCoords rounds clickDown).2 =
      (goodRounds rounds, xpt2046Read (rounds (lastRead rounds)).answers maxSamples) := by
  have hleft : 0 + maxSamples ≤ maxSamples := by omega
  have hn : 0 + goodFrom rounds 0 maxSamples = goodRounds rounds := Nat.zero_add _
  have hne : goodRounds rounds ≠ 0 := by omega
  rw [readXyzCoords, sampleLoop_eq rounds hleft]
  dsimp only
  rw [hn, Nat.zero_add]
  by_cases hlast : goodRounds rounds < maxSamples ∧
      getTouchDown (rounds (goodRounds rounds)).level = true
  · rw [if_pos hlast, lastRead_of_down hlast]
  · rw [if_neg hlast, if_neg hne, lastRead_of_not hlast]

/-- **What is sorted**: as many samples as there were good rounds, all from the last read. -/
theorem take_readXyzCoords (clickDown : Bool) (h : 0 < goodRounds rounds) :
    (readXyzCoords rounds clickDown).2.2.take (goodRounds rounds) = counted rounds := by
  have hle := goodRounds_le rounds
  rw [readXyzCoords_eq clickDown h]
  dsimp only
  rw [xpt2046Read, ← List.map_take, List.take_range, Nat.min_eq_left hle]
  rfl

/-! ### Sorting, and the middle -/

/-- The mean of two numbers, rounded down. -/
def mean (a b : ℕ) : ℕ := (a + b) / 2

theorem mean_bounded (a b : ℕ) (h : a ≤ b) : a ≤ mean a b ∧ mean a b ≤ b := by
  unfold mean
  omega

variable {coord : TsMessage → UInt16} {compare : TsMessage → TsMessage → ℤ}

theorem length_qsort (compare : TsMessage → TsMessage → ℤ) (n : ℕ) (samp : List TsMessage) :
    (qsort compare n samp).length = samp.length := by
  rw [qsort, List.length_append, List.length_insertionSort, ← List.length_append,
    List.take_append_drop]

theorem take_qsort (h : n ≤ samp.length) :
    (qsort compare n samp).take n =
      (samp.take n).insertionSort (fun a b => compare a b ≤ 0) := by
  apply List.take_left'
  rw [List.length_insertionSort, List.length_take_of_le h]

theorem take_qsort_perm (h : n ≤ samp.length) :
    ((qsort compare n samp).take n).Perm (samp.take n) := by
  rw [take_qsort h]
  exact List.perm_insertionSort _ _

/-- The coordinates of the sorted samples ascend. -/
theorem pairwise_take_qsort (h : n ≤ samp.length)
    (hc : ∀ a b, compare a b ≤ 0 ↔ (coord a).toNat ≤ (coord b).toNat) :
    (((qsort compare n samp).take n).map fun p => (coord p).toNat).Pairwise (· ≤ ·) := by
  rw [take_qsort h, List.map_insertionSort _ (· ≤ ·) _ _ fun a _ b _ => hc a b]
  exact List.pairwise_insertionSort _ _

theorem isMiddle_middleOf (hpos : 0 < n) (h : n ≤ samp.length) :
    IsMiddle mean ((samp.take n).map fun p => (coord p).toNat) (middleOf coord n samp) := by
  have hlen : ((samp.take n).map fun p => (coord p).toNat).length = n := by
    rw [List.length_map, List.length_take_of_le h]
  have hget {i : ℕ} (hi : i < n) : ((samp.take n).map fun p => (coord p).toNat)[i]? =
      some (coord (samp.getD i .zero)).toNat := by
    have hi' : i < samp.length := by omega
    simp [List.getD, hi, hi']
  unfold IsMiddle middleOf
  rw [hlen]
  dsimp only
  split_ifs with hodd
  · exact hget (by omega)
  · exact ⟨_, _, hget (by omega), hget (by omega), rfl⟩

/-- **The middle of the sorted samples is the median of the samples**, in whatever order the sort
leaves samples with the same coordinate. -/
theorem isMedian_middleOf (hpos : 0 < n) (h : n ≤ samp.length)
    (hc : ∀ a b, compare a b ≤ 0 ↔ (coord a).toNat ≤ (coord b).toNat) :
    IsMedian mean ((samp.take n).map fun p => (coord p).toNat)
      (middleOf coord n (qsort compare n samp)) := by
  refine ⟨_, (take_qsort_perm h).map _, pairwise_take_qsort h hc, ?_⟩
  exact isMiddle_middleOf hpos (by rwa [length_qsort])

theorem sortByX_le_zero_iff (a b : TsMessage) : sortByX a b ≤ 0 ↔ a.x.toNat ≤ b.x.toNat := by
  unfold sortByX
  omega

theorem sortByY_le_zero_iff (a b : TsMessage) : sortByY a b ≤ 0 ↔ a.y.toNat ≤ b.y.toNat := by
  unfold sortByY
  omega

/-- **The coordinates given to the calibration** are the medians of the first `n` samples. -/
theorem isMedian_measure (hpos : 0 < n) (h : n ≤ samp.length) :
    IsMedian mean ((samp.take n).map fun p => p.x.toNat) (measure n samp).1 ∧
      IsMedian mean ((samp.take n).map fun p => p.y.toNat) (measure n samp).2.1 := by
  refine ⟨isMedian_middleOf hpos h sortByX_le_zero_iff, ?_⟩
  -- the samples are sorted by x when they are sorted by y
  have hlen : n ≤ (qsort sortByX n samp).length := by rwa [length_qsort]
  have hy := isMedian_middleOf hpos hlen sortByY_le_zero_iff
  exact hy.of_perm ((take_qsort_perm h).map _)

end SortingLine.Touch
