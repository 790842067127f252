import SortingLine.Controller.Equiv.Startup
import SortingLine.Library.Words
import Mathlib.Data.List.Infix
import Mathlib.Tactic.Ring

/-!
# The threshold

`v_threshold` starts from 350 and moves by 10 with each button message, up or down.  It is an
`unsigned int` without a bound: `send_nb_msg` has room for four digits, and below 0 it wraps to the
top of the range, where no item is qualified any more.  `thresholdKept_iff` says for which sequences
of messages the buttons keep their meaning.
-/

namespace SortingLine.Main

variable {τ : Type}

/-! ### Clicks -/

/-- By how many clicks a message raises the threshold. -/
def click : MainMsg τ → Int
  | .thresholdUp => 1
  | .thresholdDown => -1
  | _ => 0

/-- Raising clicks less lowering clicks. -/
def clicks (ds : List (Delivery τ)) : Int := (ds.map fun d => click d.msg).sum

theorem clicks_concat (ds : List (Delivery τ)) (d : Delivery τ) :
    clicks (ds ++ [d]) = clicks ds + click d.msg := by
  simp [clicks]

theorem click_mem (msg : MainMsg τ) : -1 ≤ click msg ∧ click msg ≤ 1 := by
  cases msg <;> simp [click]

theorem handle_vThreshold {m : Main} (hpc : m.pc = .recv) (d : Delivery τ) :
    (m.handle d).res.vThreshold = m.res.vThreshold + UInt32.ofInt (10 * click d.msg) := by
  have hzero : UInt32.ofInt (10 * 0) = 0 := rfl
  by_cases hw : d.msg = .weigh ∧ m.ctrlFlow ≠ 0
  · rw [handle_of_weigh hw.1 hw.2, hw.1]
    exact (UInt32.add_zero _).symm
  by_cases hg : d.msg = .grabbed ∧ m.ctrlFlow = 0
  · rw [handle_of_grabbed hg.1 hg.2, hg.1]
    exact (UInt32.add_zero _).symm
  · rw [handle_of_other hpc hw hg]
    cases h : d.msg with
    | weigh | grabbed => simp only [recv, click, hzero, UInt32.add_zero]; split_ifs <;> rfl
    | thresholdUp => rfl
    | thresholdDown => exact UInt32.sub_eq_add_neg _ _
    | _ => exact (UInt32.add_zero _).symm

/-- **The threshold counts the clicks**, modulo 2³². -/
theorem vThreshold_handleAll (tempAdc : UInt16) (ds : List (Delivery τ)) :
    ((start tempAdc).handleAll ds).res.vThreshold = UInt32.ofInt (350 + 10 * clicks ds) := by
  induction ds using List.reverseRecOn with
  | nil => rfl
  | append_singleton ds d ih =>
    have hpc : ((start tempAdc).handleAll ds).pc = .recv := handleAll_pc rfl ds
    rw [handleAll_concat, handle_vThreshold hpc, ih, clicks_concat, ← UInt32.ofInt_add]
    congr 1
    ring

/-! ### Where the count is the threshold -/

/-- The threshold that so many clicks stand for has one to four digits. -/
def FourDigits (clicks : Int) : Prop := -35 ≤ clicks ∧ clicks ≤ 964

/-- At most one click beyond, the word has four digits just when the count says so. -/
theorem ofInt_le_iff {c : Int} (h : -36 ≤ c ∧ c ≤ 965) :
    UInt32.ofInt (350 + 10 * c) ≤ 9999 ↔ FourDigits c := by
  obtain rfl | hlo := eq_or_lt_of_le h.1
  · exact ⟨fun h => absurd h (by decide), fun h => absurd h.1 (by decide)⟩
  obtain rfl | hhi := eq_or_lt_of_le h.2
  · exact ⟨fun h => absurd h (by decide), fun h => absurd h.2 (by decide)⟩
  · have hmax : (9999 : UInt32).toNat = 9999 := rfl
    have hval := natCast_toNat_ofInt (n := 350 + 10 * c) (by omega) (by omega)
    rw [FourDigits, UInt32.le_iff_toNat_le, hmax]
    omega

/-- The count is the threshold. -/
theorem toNat_vThreshold {ds : List (Delivery τ)} (h : FourDigits (clicks ds)) (tempAdc : UInt16) :
    (((start tempAdc).handleAll ds).res.vThreshold.toNat : Int) = 350 + 10 * clicks ds := by
  obtain ⟨hlo, hhi⟩ := h
  rw [vThreshold_handleAll]
  exact natCast_toNat_ofInt (by omega) (by omega)

/-- A threshold of four digits after each message comes from counts that are in range. -/
theorem fourDigits_of_le {tempAdc : UInt16} {ds : List (Delivery τ)}
    (h : ∀ pre, pre <+: ds → ((start tempAdc).handleAll pre).res.vThreshold ≤ 9999) :
    FourDigits (clicks ds) := by
  induction ds using List.reverseRecOn with
  | nil => exact ⟨by simp [clicks], by simp [clicks]⟩
  | append_singleton ds d ih =>
    -- one message moves the count by at most one click
    obtain ⟨hlo, hhi⟩ := ih fun pre hpre => h pre (hpre.trans (List.prefix_append ..))
    obtain ⟨hdown, hup⟩ := click_mem d.msg
    rw [← ofInt_le_iff (by rw [clicks_concat]; omega), ← vThreshold_handleAll tempAdc]
    exact h _ (List.prefix_refl _)

/-! ### The buttons -/

/-- The verdict on an item that measures `vMeasure`. -/
def judge (m : Main) (vMeasure : UInt32) : UInt32 :=
  (setQualified { m.res with vMeasure }).qualified

/-- What the threshold is meant to do while `main` handles the messages `ds`: it stays a value of
four digits, the buttons raise and lower it, and lowering it disqualifies no item. -/
structure ThresholdKept (m : Main) (ds : List (Delivery τ)) : Prop where
  range : ∀ pre, pre <+: ds → (m.handleAll pre).res.vThreshold ≤ 9999
  raised : ∀ pre d, pre ++ [d] <+: ds → d.msg = .thresholdUp →
    (m.handleAll pre).res.vThreshold ≤ (m.handleAll (pre ++ [d])).res.vThreshold
  lowered : ∀ pre d, pre ++ [d] <+: ds → d.msg = .thresholdDown →
    (m.handleAll (pre ++ [d])).res.vThreshold ≤ (m.handleAll pre).res.vThreshold
  qualified : ∀ pre d, pre ++ [d] <+: ds → d.msg = .thresholdDown → ∀ vMeasure,
    (m.handleAll pre).judge vMeasure = 1 → (m.handleAll (pre ++ [d])).judge vMeasure = 1

/-- An item stays qualified under a threshold that is not higher. -/
theorem judge_mono {m m' : Main} (h : m'.res.vThreshold ≤ m.res.vThreshold) {vMeasure : UInt32}
    (hq : m.judge vMeasure = 1) : m'.judge vMeasure = 1 := by
  unfold judge setQualified at *
  have hm : vMeasure > m.res.vThreshold := by
    by_contra hle
    rw [if_neg hle] at hq
    cases hq
  exact if_pos (UInt32.lt_of_le_of_lt h hm)

/-- **When the buttons keep their meaning**: exactly as long as the count of the clicks stays
between 35 down and 964 up. -/
theorem thresholdKept_iff (tempAdc : UInt16) (ds : List (Delivery τ)) :
    ThresholdKept (start tempAdc) ds ↔ ∀ pre, pre <+: ds → FourDigits (clicks pre) := by
  constructor
  · intro h pre hpre
    exact fourDigits_of_le fun pre' hpre' => h.range pre' (hpre'.trans hpre)
  · intro h
    have hval (pre : List (Delivery τ)) (hpre : pre <+: ds) := toNat_vThreshold (h pre hpre) tempAdc
    have hbefore {pre : List (Delivery τ)} {d : Delivery τ} (hpre : pre ++ [d] <+: ds) :=
      hval pre ((List.prefix_append ..).trans hpre)
    have hlowered (pre : List (Delivery τ)) (d : Delivery τ) (hpre : pre ++ [d] <+: ds)
        (hd : d.msg = .thresholdDown) : ((start tempAdc).handleAll (pre ++ [d])).res.vThreshold
          ≤ ((start tempAdc).handleAll pre).res.vThreshold := by
      have hafter := hval _ hpre
      rw [clicks_concat, hd, click] at hafter
      rw [UInt32.le_iff_toNat_le]
      have := hbefore hpre
      omega
    refine ⟨fun pre hpre => ?_, fun pre d hpre hd => ?_, hlowered, fun pre d hpre hd v hq => ?_⟩
    · obtain ⟨hlo, hhi⟩ := h pre hpre
      rw [vThreshold_handleAll]
      exact (ofInt_le_iff ⟨by omega, by omega⟩).mpr ⟨hlo, hhi⟩
    · have hafter := hval _ hpre
      rw [clicks_concat, hd, click] at hafter
      rw [UInt32.le_iff_toNat_le]
      have := hbefore hpre
      omega
    · exact judge_mono (hlowered pre d hpre hd) hq

/-- So many clicks on the lower button. -/
def lowering (n : Nat) : List (Delivery Unit) := List.replicate n ⟨.thresholdDown, 0, none⟩

/-- 36 clicks down: after 35 the threshold is 0, and the next one makes it 4294967286, which
disqualifies an item of 700. -/
theorem threshold_wraps :
    ((start 0).handleAll (lowering 35)).res.vThreshold = 0 ∧
    ((start 0).handleAll (lowering 36)).res.vThreshold = 4294967286 ∧
    ((start 0).handleAll (lowering 35)).judge 700 = 1 ∧
    ((start 0).handleAll (lowering 36)).judge 700 = 0 ∧
    ¬ ThresholdKept (start 0) (lowering 36) := by
  refine ⟨by decide, by decide, by decide, by decide, fun h => ?_⟩
  have hrange := h.range _ (List.prefix_refl _)
  revert hrange
  decide

end SortingLine.Main
