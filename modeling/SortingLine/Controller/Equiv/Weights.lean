import SortingLine.Controller.Equiv.Startup
import SortingLine.Library.Telescope
import Mathlib.Algebra.BigOperators.Ring.List
import Mathlib.Algebra.Order.Ring.Int

/-!
# The weights of a batch

`case 9` reads the weight of all six resistors into `adc_sum`, and each weighing of the batch reads
what is left: the weight of an item is the difference, cut off at 0, and `adc_sum` moves on to the
new reading whether or not it was cut.  `batch_weights` says this of every batch of every run.
-/

namespace SortingLine.Sys

variable {s s' s₁ : Sys} {a : Label} {tempAdc : UInt16} {disk : Disk} {tr : List (Sys × Label)}

/-! ### Readings -/

/-- The ADC read of `case 9` returns. -/
def Grabs (x : Sys × Label) : Prop := isMainRead x.2 = true ∧ x.1.main.pc = .readGrab

instance : DecidablePred Grabs := fun _ => inferInstanceAs (Decidable (_ ∧ _))

/-- A weighing: `adc_sum` before it, the answer of the ADC, and the `v_measure` that it records. -/
structure Weighing where
  adcSum : UInt16
  adc : Option UInt16
  vMeasure : UInt32
deriving DecidableEq

/-- The weighing that a step makes, if it makes one. -/
def weighingOf (x : Sys × Label) : List Weighing :=
  match x.2 with
  | .mainRead adc =>
    if x.1.main.pc = .readWeigh then
      [⟨x.1.main.adcSum, adc, (x.1.main.readWeigh adc).1.res.vMeasure⟩]
    else []
  | _ => []

/-- The weighings of a run, in order. -/
def weighingsOf (tr : List (Sys × Label)) : List Weighing := tr.flatMap weighingOf

theorem weighingsOf_concat (x : Sys × Label) :
    weighingsOf (tr ++ [x]) = weighingsOf tr ++ weighingOf x := by
  simp [weighingsOf]

/-- **What a weighing records**: what was lost since `adc_sum`, in units of two; neither the
subtraction nor the doubling wraps. -/
theorem toNat_vMeasure_readWeigh (m : Main) (adc : UInt16) :
    ((m.readWeigh (some adc)).1.res.vMeasure.toNat : Int)
      = 2 * max 0 ((m.adcSum.toNat : Int) - adc.toNat) := by
  have hword (t : UInt16) : (t.toUInt32 * 2).toNat = 2 * t.toNat := by
    have := t.toNat_lt
    rw [UInt32.toNat_mul, UInt16.toNat_toUInt32]
    show t.toNat * 2 % 4294967296 = _
    omega
  show (((if m.adcSum ≥ adc then m.adcSum - adc else 0).toUInt32 * 2).toNat : Int) = _
  rw [hword]
  split_ifs with h
  · have hle : adc.toNat ≤ m.adcSum.toNat := UInt16.le_iff_toNat_le.mp h
    rw [UInt16.toNat_sub_of_le _ _ h]
    omega
  · have hlt : m.adcSum.toNat < adc.toNat := UInt16.lt_iff_toNat_lt.mp (UInt16.not_le.mp h)
    simp only [UInt16.toNat_zero]
    omega

/-- Receiving a message leaves `adc_sum` alone. -/
@[simp]
theorem recv_adcSum {τ : Type} (m : Main) (msg : MainMsg τ) (after : UInt32) :
    (m.recv msg after).1.adcSum = m.adcSum := by
  cases msg <;> simp only [Main.recv] <;> split_ifs <;> rfl

/-- **Who writes `adc_sum`**: a weighing, with its own reading; and `case 9`. -/
theorem step_adcSum (h : s.step a = some s') (hg : ¬ Grabs (s, a)) :
    (weighingOf (s, a) = [] ∧ s'.main.adcSum = s.main.adcSum) ∨
    ∃ adc, weighingOf (s, a) = [⟨s.main.adcSum, adc, (s.main.readWeigh adc).1.res.vMeasure⟩] ∧
      ∀ b, adc = some b → s'.main.adcSum = b := by
  by_cases ha : mover a = .main
  · replace h := step_spec h
    cases a with
    | mainRecv after => obtain ⟨m, q, -, -, rfl⟩ := h; exact .inl ⟨rfl, by simp⟩
    | mainRead adc =>
      rcases h with ⟨hpc, rfl⟩ | ⟨hpc, -⟩
      · refine .inr ⟨adc, if_pos hpc, ?_⟩
        rintro b rfl
        simp [Main.readWeigh]
      · exact absurd ⟨rfl, hpc⟩ hg
    | mainWake =>
      obtain ⟨-, rfl⟩ := h
      refine .inl ⟨rfl, ?_⟩
      rw [commit_main, Main.wake]
      split_ifs <;> rfl
    | mainLoad => rcases h with ⟨-, rfl⟩ | ⟨-, rfl⟩ <;> exact .inl ⟨rfl, rfl⟩
    | mainStore => rcases h with ⟨_, -, rfl⟩ | ⟨_, -, rfl⟩ <;> exact .inl ⟨rfl, rfl⟩
    | _ => cases ha
  · rw [(step_frame h).main ha]
    exact .inl ⟨by cases a <;> first | rfl | exact absurd rfl ha, rfl⟩

/-- Only `case 9` opens a batch. -/
theorem step_ctrlFlow (h : s.step a = some s') (hg : ¬ Grabs (s, a)) (hc : s'.main.ctrlFlow = 1) :
    s.main.ctrlFlow = 1 := by
  by_cases ha : mover a = .main
  · replace h := step_spec h
    cases a with
    | mainRecv after => obtain ⟨m, q, -, -, rfl⟩ := h; simpa using hc
    | mainRead adc =>
      rcases h with ⟨-, rfl⟩ | ⟨hpc, -⟩
      · simpa [Main.readWeigh] using hc
      · exact absurd ⟨rfl, hpc⟩ hg
    | mainWake =>
      obtain ⟨-, rfl⟩ := h
      rw [commit_main, Main.wake] at hc
      split_ifs at hc
      · cases hc
      · exact hc
    | mainLoad => rcases h with ⟨-, rfl⟩ | ⟨-, rfl⟩ <;> exact hc
    | mainStore => rcases h with ⟨_, -, rfl⟩ | ⟨_, -, rfl⟩ <;> exact hc
    | _ => cases ha
  · rwa [← (step_frame h).main ha]

/-! ### The weighings of a batch -/

/-- A reading as an integer. -/
def value (a : UInt16) : Int := a.toNat

/-- The weighings of a stretch of a run without `case 9`, in terms of the readings `as`. -/
theorem weighings_of_run {as : List UInt16} (h : Run step s₁ tr s) (hno : ∀ x ∈ tr, ¬ Grabs x)
    (has : (weighingsOf tr).map Weighing.adc = as.map some) :
    (weighingsOf tr).map Weighing.adcSum = (s₁.main.adcSum :: as).dropLast ∧
    (weighingsOf tr).map (fun w => (w.vMeasure.toNat : Int))
      = (drops (value s₁.main.adcSum) (as.map value)).map (2 * ·) ∧
    s.main.adcSum = as.getLastD s₁.main.adcSum := by
  induction h generalizing as with
  | start =>
    obtain rfl : as = [] := List.map_eq_nil_iff.mp has.symm
    exact ⟨rfl, rfl, rfl⟩
  | @next tr s s' a _ ha ih =>
    have hno' : ∀ x ∈ tr, ¬ Grabs x := fun x hx => hno x (List.mem_append_left _ hx)
    rw [weighingsOf_concat] at has ⊢
    rcases step_adcSum ha (hno _ (by simp)) with ⟨hw, hsum⟩ | ⟨adc, hw, hsum⟩
    · rw [hw, List.append_nil] at has ⊢
      rw [hsum]
      exact ih hno' has
    · -- the last reading is that of this weighing
      rw [hw, List.map_append] at has
      obtain ⟨as, b, rfl⟩ : ∃ as' b, as = as' ++ [b] := by
        rcases List.eq_nil_or_concat as with rfl | ⟨as', b, rfl⟩
        · simp at has
        · exact ⟨as', b, List.concat_eq_append⟩
      rw [List.map_append] at has
      obtain ⟨hpre, hb⟩ := List.append_inj' has rfl
      obtain rfl : adc = some b := List.singleton_inj.mp hb
      obtain ⟨hsums, hmeasures, hlast⟩ := ih hno' hpre
      rw [hw, List.map_append, hsums, List.map_append, hmeasures, hsum b rfl]
      refine ⟨?_, ?_, by simp⟩
      · have hne : s₁.main.adcSum :: as ≠ [] := List.cons_ne_nil _ _
        have hlast' : s.main.adcSum = (s₁.main.adcSum :: as).getLast hne := by
          rw [hlast, List.getLast_eq_getLastD]
        rw [← List.cons_append, List.dropLast_concat, List.map_singleton, hlast']
        exact List.dropLast_append_getLast hne
      · have hlast' : (as.map value).getLastD (value s₁.main.adcSum) = value s.main.adcSum := by
          rw [hlast, List.getLastD_map]
        have hdrops : drops (value s₁.main.adcSum) ((as ++ [b]).map value)
            = drops (value s₁.main.adcSum) (as.map value)
              ++ [max 0 (value s.main.adcSum - value b)] := by
          rw [List.map_append, List.map_singleton, drops_append, hlast']
        rw [hdrops, List.map_append, List.map_singleton, List.map_singleton,
          toNat_vMeasure_readWeigh]
        rfl

/-- **Every weighing lies in a batch**: before it there is a read of `case 9`, and a last one. -/
theorem exists_last_grab (h : Reaches tempAdc disk tr s) (hc : s.main.ctrlFlow = 1) :
    ∃ t₁ y t₂, tr = t₁ ++ y :: t₂ ∧ Grabs y ∧ ∀ z ∈ t₂, ¬ Grabs z := by
  induction h with
  | start => cases hc
  | @next tr s s' a _ ha ih =>
    by_cases hg : Grabs (s, a)
    · exact ⟨tr, (s, a), [], rfl, hg, by simp⟩
    · -- nothing else sets `ctrl_flow`
      obtain ⟨t₁, y, t₂, rfl, hy, ht₂⟩ := ih (step_ctrlFlow ha hg hc)
      exact ⟨t₁, y, t₂ ++ [(s, a)], by simp, hy, List.forall_mem_append.mpr
        ⟨ht₂, List.forall_mem_singleton.mpr hg⟩⟩

/-- The weights of a batch: `a₀` is the reading of `case 9`, and `as` are those of the weighings. -/
structure BatchWeights (a₀ : UInt16) (as : List UInt16) (ws : List Weighing) : Prop where
  /-- Each weighing subtracts from the reading before it in the batch. -/
  adcSum : ws.map Weighing.adcSum = (a₀ :: as).dropLast
  vMeasure : ws.map (fun w => (w.vMeasure.toNat : Int))
    = (drops (value a₀) (as.map value)).map (2 * ·)
  sum_ge : 2 * (value a₀ - value (as.getLastD a₀))
    ≤ (ws.map fun w => (w.vMeasure.toNat : Int)).sum
  sum_eq_iff : (ws.map fun w => (w.vMeasure.toNat : Int)).sum
    = 2 * (value a₀ - value (as.getLastD a₀)) ↔ (a₀ :: as).IsChain (· ≥ ·)

theorem isChain_map_value {as : List UInt16} :
    (as.map value).IsChain (· ≥ ·) ↔ as.IsChain (· ≥ ·) := by
  rw [List.isChain_map]
  refine ⟨List.IsChain.imp fun a b hab => ?_, List.IsChain.imp fun a b hab => ?_⟩
  · exact UInt16.le_iff_toNat_le.mpr (Int.ofNat_le.mp hab)
  · exact Int.ofNat_le.mpr (UInt16.le_iff_toNat_le.mp hab)

theorem batchWeights_of_run {as : List UInt16} (h : Run step s₁ tr s) (hno : ∀ x ∈ tr, ¬ Grabs x)
    (has : (weighingsOf tr).map Weighing.adc = as.map some) :
    BatchWeights s₁.main.adcSum as (weighingsOf tr) := by
  obtain ⟨hsums, hmeasures, -⟩ := weighings_of_run h hno has
  have hlast : value (as.getLastD s₁.main.adcSum)
      = (as.map value).getLastD (value s₁.main.adcSum) := List.getLastD_map.symm
  have hsum : ((drops (value s₁.main.adcSum) (as.map value)).map (2 * ·)).sum
      = 2 * (drops (value s₁.main.adcSum) (as.map value)).sum := by
    rw [List.sum_map_mul_left, List.map_id']
  refine ⟨hsums, hmeasures, ?_, ?_⟩
  · rw [hmeasures, hsum, hlast]
    have := sub_getLast_le_sum_drops (value s₁.main.adcSum) (as.map value)
    omega
  · rw [hmeasures, hsum, hlast, ← isChain_map_value, List.map_cons, ← sum_drops_eq_iff]
    omega

/-- **The weights of a batch telescope.**  In every run each weighing belongs to a batch, and the
weighings of a batch, up to any point of the run, have the weights that the readings of that batch
give. -/
theorem batch_weights (h : Reaches tempAdc disk tr s) :
    (∀ tr₁ x tr₂, tr = tr₁ ++ x :: tr₂ → Weighs x →
      ∃ t₁ y t₂, tr₁ = t₁ ++ y :: t₂ ∧ Grabs y ∧ ∀ z ∈ t₂, ¬ Grabs z) ∧
    ∀ tr₁ s₀ a₀ as tr₂ tr₃, tr = tr₁ ++ (s₀, .mainRead (some a₀)) :: (tr₂ ++ tr₃) →
      s₀.main.pc = .readGrab → (∀ x ∈ tr₂, ¬ Grabs x) →
      (weighingsOf tr₂).map Weighing.adc = as.map some → BatchWeights a₀ as (weighingsOf tr₂) := by
  constructor
  · rintro tr₁ ⟨s₀, a⟩ tr₂ rfl hx
    obtain ⟨s₁, h₁, h₂⟩ := h.of_append
    obtain rfl : s₀ = s₁ := h₂.of_cons.1
    exact exists_last_grab h₁ ((batch_of_reaches h₁).weigh (.inl hx.2))
  · rintro tr₁ s₀ a₀ as tr₂ tr₃ rfl hpc hno has
    obtain ⟨s₁, -, h₁⟩ := h.of_append
    obtain ⟨-, s₂, hstep, h₂⟩ := h₁.of_cons
    obtain ⟨s₃, h₃, -⟩ := h₂.of_append
    -- the read of `case 9` leaves its reading in `adc_sum`
    obtain ⟨hpc', -⟩ | ⟨-, rfl⟩ := step_spec hstep
    · rw [hpc] at hpc'
      cases hpc'
    · have hsum : (s₀.commit (s₀.main.readGrab (some a₀), [])).main.adcSum = a₀ := by
        simp [Main.readGrab]
      rw [← hsum]
      exact batchWeights_of_run h₃ hno has

/-- Two weighings, the second of them heavier than what was left: it records 0, and the sum is more
than the whole drop. -/
theorem batch_weights_two_items : ∃ tr s tr₁ s₀ tr₂, Reaches 0 ⟨false, none⟩ tr s ∧
    tr = tr₁ ++ (s₀, .mainRead (some 3000)) :: tr₂ ∧
    (weighingsOf tr₂).map Weighing.vMeasure = [1000, 0] ∧
    BatchWeights 3000 [2500, 2600] (weighingsOf tr₂) := by
  obtain ⟨tr, s, h, -, hv, hx, hno, has⟩ := exists_reaches
    (grabLabels 3000 ++ weighLabels 2500 ++ resumeLabels ++ weighLabels 2600)
    (fun r => (weighingsOf (r.1.drop 3)).map Weighing.vMeasure = [1000, 0] ∧
      (∃ x ∈ r.1[2]?, x.2 = .mainRead (some 3000) ∧ x.1.main.pc = .readGrab) ∧
      (∀ x ∈ r.1.drop 3, ¬ Grabs x) ∧
      (weighingsOf (r.1.drop 3)).map Weighing.adc = [2500, 2600].map some) (by decide +kernel)
  obtain ⟨⟨s₀, a⟩, hget, rfl, hpc⟩ := hx
  obtain ⟨hlt, hget⟩ := List.getElem?_eq_some_iff.mp hget
  have htr : tr = tr.take 2 ++ (s₀, .mainRead (some 3000)) :: (tr.drop 3 ++ []) := by
    rw [List.append_nil, ← hget, List.getElem_cons_drop, List.take_append_drop]
  exact ⟨tr, s, tr.take 2, s₀, tr.drop 3, h, by simpa using htr, hv,
    (batch_weights h).2 _ _ _ _ _ _ htr hpc hno has⟩

end SortingLine.Sys
