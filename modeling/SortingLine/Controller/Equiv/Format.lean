import SortingLine.Controller.Equiv.Display
import SortingLine.Controller.Equiv.Startup
import SortingLine.Controller.Equiv.WeighingLaw
import SortingLine.Controller.Format
import Mathlib.Data.Nat.Digits.Lemmas

/-!
# The texts of the display and their buffers

`rt_sprintf` writes as many characters as the number needs: `width` counts them.  A number fits in
`info_buf[8]` from -99999 to 999999, and a date in `info_buf[12]` if its three numbers have at most
nine characters together.  `fits_iff` says which runs stay within these bounds.
-/

namespace SortingLine

/-! ### How long a number is -/

theorem tmpDigits_eq (n : Nat) :
    tmpDigits n = (Nat.digits 10 n).map fun d => UInt8.ofNat (48 + d) := by
  induction n using Nat.strong_induction_on with
  | _ n ih =>
    rw [tmpDigits]
    split_ifs with h
    · simp [h]
    · have hdigits : Nat.digits 10 n = n % 10 :: Nat.digits 10 (n / 10) :=
        Nat.digits_def' (by omega) (by omega)
      rw [ih (n / 10) (by omega), hdigits, List.map_cons]

/-- The number of characters of an integer in decimal, with its sign. -/
def width (n : Int) : Nat := (if n < 0 then 1 else 0) + (Nat.log 10 n.natAbs + 1)

theorem length_printNumber (num : UInt32) : (printNumber num).length = width (signed num) := by
  have hzero : num = 0 ↔ signed num = 0 := by
    rw [signed_eq, ← UInt32.toNat_inj, UInt32.toNat_zero]
    have := num.toNat_lt
    split_ifs <;> omega
  have hdigits : (if num = 0 then [48] else tmpDigits (signed num).natAbs).length
      = Nat.log 10 (signed num).natAbs + 1 := by
    split_ifs with h
    · rw [hzero.mp h]
      simp
    · have hne : (signed num).natAbs ≠ 0 := Int.natAbs_ne_zero.mpr (hzero.not.mp h)
      rw [tmpDigits_eq, List.length_map, Nat.length_digits _ _ (by omega) hne]
  rw [printNumber, List.length_append, List.length_reverse, hdigits, width]
  split_ifs <;> rfl

/-- **The numbers of at most `k + 1` characters.** -/
theorem width_le_iff {n : Int} {k : Nat} :
    width n ≤ k + 1 ↔ -10 ^ k < n ∧ n < 10 ^ (k + 1) := by
  have hpow : (0 : Int) < 10 ^ k := by positivity
  have hpow' : (0 : Int) < 10 ^ (k + 1) := by positivity
  have hcast (k : Nat) : (((10 ^ k : Nat)) : Int) = 10 ^ k := by push_cast; rfl
  unfold width
  split_ifs with h
  · have hlog := Nat.log_lt_iff_lt_pow (b := 10) (by omega) (x := k) (y := n.natAbs) (by omega)
    have := hcast k
    constructor
    · intro hle
      have := hlog.mp (by omega)
      exact ⟨by omega, by omega⟩
    · rintro ⟨hlo, -⟩
      have := hlog.mpr (by omega)
      omega
  · rcases eq_or_ne n 0 with rfl | hne
    · simp
    · have hlog := Nat.log_lt_iff_lt_pow (b := 10) (by omega) (x := k + 1) (y := n.natAbs)
        (by omega)
      have := hcast (k + 1)
      constructor
      · intro hle
        have := hlog.mp (by omega)
        exact ⟨by omega, by omega⟩
      · rintro ⟨-, hhi⟩
        have := hlog.mpr (by omega)
        omega

/-! ### What fits -/

/-- A number that fits in `info_buf[8]`. -/
def Short (v : UInt32) : Prop := -99999 ≤ signed v ∧ signed v ≤ 999999

/-- Three numbers that fit in `info_buf[12]`, with two points between them. -/
def ShortDate (date : UInt32 × UInt32 × UInt32) : Prop :=
  width (signed date.1) + width (signed date.2.1) + width (signed date.2.2) ≤ 9

instance : DecidablePred Short := fun _ => inferInstanceAs (Decidable (_ ∧ _))

theorem length_infoText (v : UInt32) :
    (rtSprintf infoFormat [v]).length = width (signed v) + 2 := by
  rw [← length_printNumber]
  simp [rtSprintf, infoFormat, rtVsnprintf]

theorem length_dateText (year mon day : UInt32) : (rtSprintf dateFormat [year, mon, day]).length
    = width (signed year) + width (signed mon) + width (signed day) + 3 := by
  rw [← length_printNumber, ← length_printNumber, ← length_printNumber]
  simp [rtSprintf, dateFormat, rtVsnprintf]
  omega

theorem infoText_fits_iff (v : UInt32) : (drawTextInGrid v).Fits ↔ Short v := by
  have hwidth := width_le_iff (n := signed v) (k := 5)
  simp only [Formatted.Fits, drawTextInGrid, Short, length_infoText]
  omega

theorem dateText_fits_iff (year mon day : UInt32) :
    (drawRtcTimeInGrid year mon day).Fits ↔ ShortDate (year, mon, day) := by
  simp only [Formatted.Fits, drawRtcTimeInGrid, ShortDate, length_dateText]
  omega

/-- The values of a message that are formatted, in their bounds. -/
def OutMsg.InBounds : OutMsg → Prop
  | .data vMeasure qualified total qualifiedAmount =>
    Short vMeasure ∧ Short qualified ∧ Short total ∧ Short qualifiedAmount
  | .threshold v => Short v
  | .rtc year mon day => ShortDate (year, mon, day)
  | .productInfo total qualifiedAmount => Short total ∧ Short qualifiedAmount
  | .csq v => Short v
  | .msgId v => Short v

/-- **Which messages fit.** -/
theorem OutMsg.fits_iff (m : OutMsg) : m.Fits ↔ m.InBounds := by
  have hnb (v : UInt32) : drawTextInGridNb v 8 = drawTextInGrid v := rfl
  cases m <;> simp [OutMsg.Fits, OutMsg.formatted, OutMsg.InBounds, drawTextsInGrids,
    drawProductInfo, hnb, infoText_fits_iff, dateText_fits_iff]

/-! ### Values that always fit -/

theorem signed_eq_toNat {w : UInt32} {n : Nat} (h : w.toNat ≤ n) (hn : n < 2147483648) :
    signed w = w.toNat := by
  rw [signed_eq, if_pos (by omega)]

theorem short_of_toNat_le {w : UInt32} (h : w.toNat ≤ 999999) : Short w := by
  rw [Short, signed_eq_toNat h (by omega)]
  omega

theorem charDigit_mem (c : UInt8) : -176 ≤ charDigit c ∧ charDigit c ≤ 79 := by
  have := c.toInt8.le_toInt
  have := c.toInt8.toInt_lt
  unfold charDigit
  omega

/-- Whatever the two characters of the answer are, the signal quality fits. -/
theorem short_csq (c₄ c₅ : UInt8) (t : TrStat) : Short (setCsq c₄ c₅ t).csq := by
  have h₄ := charDigit_mem c₄
  have h₅ := charDigit_mem c₅
  rw [Short, setCsq, signed_ofInt (by omega) (by omega)]
  omega

/-- What is measured fits. -/
theorem short_vMeasure (r : ResParas) (t : UInt16) : Short (setVMeasure r t).vMeasure := by
  have := t.toNat_lt
  refine short_of_toNat_le ?_
  rw [setVMeasure, UInt32.toNat_mul, UInt16.toNat_toUInt32]
  show t.toNat * 2 % 4294967296 ≤ _
  omega

/-- A step of `v` that stays in `int` fits just when it stays in the bounds. -/
theorem short_add_iff {v : UInt32} (hv : Short v) {n : Int} (hn : -10 ≤ n ∧ n ≤ 10) :
    Short (v + UInt32.ofInt n) ↔ -99999 ≤ signed v + n ∧ signed v + n ≤ 999999 := by
  obtain ⟨hlo, hhi⟩ := hv
  rw [Short, signed_add (by omega) (by omega)]

/-! ### What `main` sends -/

namespace Main

variable {τ : Type}

/-- What of the state goes to the display, in the bounds. -/
structure InRange (m : Main) : Prop where
  threshold : Short m.res.vThreshold
  total : Short m.info.total
  qualifiedAmount : Short m.info.qualifiedAmount
  msgId : m.stat.msgId ≤ 999

/-- The message makes `main` send a text that does not fit: the threshold is at one of the bounds,
or the totals or the date are beyond them. -/
def RecvOversteps (m : Main) (msg : MainMsg τ) (after : UInt32) : Prop :=
  match msg with
  | .thresholdUp => 999990 ≤ signed m.res.vThreshold
  | .thresholdDown => signed m.res.vThreshold ≤ -99990
  | .restore total qualifiedAmount year mon =>
    ¬ (Short total ∧ Short qualifiedAmount ∧ ShortDate (year, mon, after))
  | .date d => ¬ ShortDate (networkDate d)
  | _ => False

theorem InRange.congr {m m' : Main} (h : InRange m) (hres : m'.res = m.res)
    (hinfo : m'.info = m.info) (hstat : m'.stat = m.stat) : InRange m' :=
  ⟨by rw [hres]; exact h.threshold, by rw [hinfo]; exact h.total,
    by rw [hinfo]; exact h.qualifiedAmount, by rw [hstat]; exact h.msgId⟩

/-- **What a message makes `main` send fits**, unless it oversteps the bounds; and then the state
stays within them. -/
theorem recv_fits {m : Main} (hm : InRange m) (msg : MainMsg τ) (after : UInt32) :
    ((∀ o ∈ Sys.outputs (m.recv msg after).2, o.Fits) ↔ ¬ RecvOversteps m msg after) ∧
    (¬ RecvOversteps m msg after → InRange (m.recv msg after).1) := by
  obtain ⟨hlo, hhi⟩ := hm.threshold
  cases msg with
  | weigh | grabbed =>
    simp only [recv]
    split_ifs <;> exact ⟨by simp [Sys.outputs, RecvOversteps], fun _ => hm.congr rfl rfl rfl⟩
  | blankLog => exact ⟨by simp [recv, Sys.outputs, RecvOversteps], fun _ => hm⟩
  | restore total qualifiedAmount year mon =>
    have ho : Sys.outputs (m.recv (.restore (τ := τ) total qualifiedAmount year mon) after).2
        = [.rtc year mon after, .productInfo total qualifiedAmount] := rfl
    rw [ho, List.forall_mem_cons, List.forall_mem_singleton, OutMsg.fits_iff, OutMsg.fits_iff]
    simp only [OutMsg.InBounds, RecvOversteps, not_not]
    exact ⟨⟨fun h => ⟨h.2.1, h.2.2, h.1⟩, fun h => ⟨h.2.2, h.1, h.2.1⟩⟩,
      fun h => ⟨hm.threshold, h.1, h.2.1, hm.msgId⟩⟩
  | csq c₄ c₅ =>
    have ho : Sys.outputs (m.recv (.csq c₄ c₅ : MainMsg τ) after).2
        = [.csq (setCsq c₄ c₅ m.stat).csq] := rfl
    rw [ho, List.forall_mem_singleton, OutMsg.fits_iff]
    exact ⟨iff_of_true (short_csq c₄ c₅ m.stat) not_false,
      fun _ => ⟨hm.threshold, hm.total, hm.qualifiedAmount, hm.msgId⟩⟩
  | date d =>
    have ho : Sys.outputs (m.recv (.date d : MainMsg τ) after).2
        = [.rtc (networkDate d).1 (networkDate d).2.1 (networkDate d).2.2] := rfl
    rw [ho, List.forall_mem_singleton, OutMsg.fits_iff]
    exact ⟨not_not.symm, fun _ => ⟨hm.threshold, hm.total, hm.qualifiedAmount, hm.msgId⟩⟩
  | thresholdUp =>
    have hword : m.res.vThreshold + 10 = m.res.vThreshold + UInt32.ofInt 10 := rfl
    have ho : Sys.outputs (m.recv (.thresholdUp : MainMsg τ) after).2
        = [.threshold (m.res.vThreshold + 10)] := rfl
    have hshort := short_add_iff hm.threshold (n := 10) (by omega)
    rw [← hword] at hshort
    rw [ho, List.forall_mem_singleton, OutMsg.fits_iff]
    simp only [OutMsg.InBounds, RecvOversteps, hshort]
    exact ⟨by omega, fun h => ⟨hshort.mpr (by omega), hm.total, hm.qualifiedAmount, hm.msgId⟩⟩
  | thresholdDown =>
    have hword : m.res.vThreshold - 10 = m.res.vThreshold + UInt32.ofInt (-10) :=
      UInt32.sub_eq_add_neg _ _
    have ho : Sys.outputs (m.recv (.thresholdDown : MainMsg τ) after).2
        = [.threshold (m.res.vThreshold - 10)] := rfl
    have hshort := short_add_iff hm.threshold (n := -10) (by omega)
    rw [← hword] at hshort
    rw [ho, List.forall_mem_singleton, OutMsg.fits_iff]
    simp only [OutMsg.InBounds, RecvOversteps, hshort]
    exact ⟨by omega, fun h => ⟨hshort.mpr (by omega), hm.total, hm.qualifiedAmount, hm.msgId⟩⟩
  | published tag =>
    have ho : Sys.outputs (m.recv (MainMsg.published tag) after).2 = [.msgId m.stat.msgId] := rfl
    have hid : Short m.stat.msgId := short_of_toNat_le
      ((UInt32.le_iff_toNat_le.mp hm.msgId).trans (by decide))
    rw [ho, List.forall_mem_singleton, OutMsg.fits_iff]
    exact ⟨iff_of_true hid not_false, fun _ => hm⟩

/-- Weighing an item makes `main` send a text that does not fit: one of the totals is at the bound,
and the item counts. -/
def WeighOversteps (m : Main) (adc : Option UInt16) : Prop :=
  signed m.info.total = 999999 ∨
  signed m.info.qualifiedAmount = 999999 ∧
    m.res.vThreshold < (m.measure (adc.getD m.tempAdc)).vMeasure

theorem setMsgId_le (t : TrStat) : (setMsgId t).msgId ≤ 999 := by
  unfold setMsgId
  split_ifs with h
  · exact UInt32.zero_le
  · exact UInt32.not_lt.mp h

/-- **What a weighing makes `main` send fits**, unless a total is at the bound. -/
theorem readWeigh_fits {m : Main} (hm : InRange m) (adc : Option UInt16) :
    ((∀ o ∈ Sys.outputs (m.readWeigh adc).2, o.Fits) ↔ ¬ WeighOversteps m adc) ∧
    (¬ WeighOversteps m adc → InRange (m.readWeigh adc).1) := by
  have hone (v : UInt32) : v + 1 = v + UInt32.ofInt 1 := rfl
  have hq : (m.measure (adc.getD m.tempAdc)).qualified
      = if m.res.vThreshold < (m.measure (adc.getD m.tempAdc)).vMeasure then 1 else 0 := rfl
  have hv : Short (m.measure (adc.getD m.tempAdc)).vMeasure := short_vMeasure m.res _
  have ho : Sys.outputs (m.readWeigh adc).2
      = [.data (m.measure (adc.getD m.tempAdc)).vMeasure
          (m.measure (adc.getD m.tempAdc)).qualified (m.info.total + 1)
          (m.info.qualifiedAmount + (m.measure (adc.getD m.tempAdc)).qualified)] := rfl
  have ht : Short (m.info.total + 1) ↔ ¬ signed m.info.total = 999999 := by
    obtain ⟨hlo, hhi⟩ := hm.total
    rw [hone, short_add_iff hm.total (by omega)]
    omega
  have hqa : Short (m.info.qualifiedAmount + (m.measure (adc.getD m.tempAdc)).qualified) ↔
      ¬ (signed m.info.qualifiedAmount = 999999 ∧
        m.res.vThreshold < (m.measure (adc.getD m.tempAdc)).vMeasure) := by
    obtain ⟨hlo, hhi⟩ := hm.qualifiedAmount
    rw [hq]
    split_ifs with h
    · rw [hone, short_add_iff hm.qualifiedAmount (by omega)]
      simp only [h, and_true]
      omega
    · rw [UInt32.add_zero]
      exact iff_of_true hm.qualifiedAmount fun hc => h hc.2
  have hq01 : Short (m.measure (adc.getD m.tempAdc)).qualified := by
    rw [hq]
    split_ifs <;> decide
  rw [ho, List.forall_mem_singleton, OutMsg.fits_iff]
  simp only [OutMsg.InBounds, WeighOversteps, not_or]
  constructor
  · exact ⟨fun h => ⟨ht.mp h.2.2.1, hqa.mp h.2.2.2⟩,
      fun h => ⟨hv, hq01, ht.mpr h.1, hqa.mpr h.2⟩⟩
  · exact fun h => ⟨hm.threshold, ht.mpr h.1, hqa.mpr h.2, setMsgId_le m.stat⟩

end Main

/-! ### Runs -/

namespace Sys

variable {s s' : Sys} {a : Label} {tempAdc : UInt16} {disk : Disk} {tr : List (Sys × Label)}

/-- The step makes `main` send a text that does not fit. -/
def Oversteps (x : Sys × Label) : Prop :=
  match x.2 with
  | .mainRecv after => ∃ m ∈ x.1.mainMq.items.head?, x.1.main.RecvOversteps m after
  | .mainRead adc => x.1.main.pc = .readWeigh ∧ x.1.main.WeighOversteps adc
  | _ => False

/-- **Step rule**: from a state in the bounds, a step sends texts that fit just when it does not
overstep, and then its new state is in the bounds. -/
theorem step_fits (hs : s.main.InRange) (h : s.step a = some s') :
    ((∀ o ∈ outputs (effects (s, a)), o.Fits) ↔ ¬ Oversteps (s, a)) ∧
    (¬ Oversteps (s, a) → s'.main.InRange) := by
  rcases step_records h with ⟨m, after, rfl, hq, he, hm⟩ | ⟨adc, rfl, hpc, -, he, hm⟩ | hq
  · have ho : Oversteps (s, .mainRecv after) ↔ s.main.RecvOversteps m after := by
      simp [Oversteps, hq]
    rw [he, hm, ho]
    exact Main.recv_fits hs m after
  · have ho : Oversteps (s, .mainRead adc) ↔ s.main.WeighOversteps adc := by
      simp [Oversteps, hpc]
    rw [he, hm, ho]
    exact Main.readWeigh_fits hs adc
  · have ho : ¬ Oversteps (s, a) := by
      cases a with
      | mainRecv after => exact absurd rfl (hq.not_recv after)
      | mainRead adc => exact fun hc => hq.not_weighs ⟨rfl, hc.1⟩
      | _ => exact not_false
    rw [hq.outputs]
    exact ⟨iff_of_true (by simp) ho, fun _ => hs.congr hq.res hq.info hq.stat⟩

theorem inRange_start (tempAdc : UInt16) : (Main.start tempAdc).InRange := by
  have hzero : (Main.start 0).InRange := ⟨by decide, by decide, by decide, by decide⟩
  exact hzero.congr rfl rfl rfl

/-- **Which runs stay inside the buffers**: all texts of all display messages sent in a run fit
exactly when no step of it oversteps the bounds. -/
theorem displayed_fits_iff (h : Reaches tempAdc disk tr s) :
    (∀ m ∈ displayed tr, m.Fits) ↔ ∀ x ∈ tr, ¬ Oversteps x := by
  suffices H : ((∀ m ∈ displayed tr, m.Fits) ↔ ∀ x ∈ tr, ¬ Oversteps x) ∧
      ((∀ x ∈ tr, ¬ Oversteps x) → s.main.InRange) from H.1
  induction h with
  | start =>
    refine ⟨iff_of_true ?_ (by simp), fun _ => inRange_start tempAdc⟩
    have hdate : ShortDate (initInfo.year, initInfo.mon, initInfo.day) := by
      show width 2022 + width 7 + width 13 ≤ 9
      have := (width_le_iff (n := 2022) (k := 3)).mpr (by omega)
      have := (width_le_iff (n := 7) (k := 0)).mpr (by omega)
      have := (width_le_iff (n := 13) (k := 1)).mpr (by omega)
      omega
    have hthreshold : Short initRes.vThreshold := by decide
    simpa [displayed, OutMsg.fits_iff, OutMsg.InBounds, sendVThresholdMsg, sendRtcMsg]
      using ⟨hthreshold, hdate⟩
  | @next tr s s' a _ ha ih =>
    have hdisplayed : displayed (tr ++ [(s, a)]) = displayed tr ++ outputs (effects (s, a)) := by
      simp [displayed]
    rw [hdisplayed, List.forall_mem_append, List.forall_mem_append, List.forall_mem_singleton, ih.1]
    constructor
    · exact and_congr_right fun hC => (step_fits (ih.2 hC) ha).1
    · rintro ⟨hC, hCa⟩
      exact (step_fits (ih.2 hC) ha).2 hCa

/-- Two items after power-on: everything fits. -/
theorem displayed_fits_two_items : ∃ tr s, Reaches 0 ⟨false, none⟩ tr s ∧
    tr.map Prod.snd = grabLabels 3000 ++ weighLabels 2500 ++ resumeLabels ++ weighLabels 2400 ∧
    OutMsg.data 200 0 2 1 ∈ displayed tr ∧ ∀ m ∈ displayed tr, m.Fits := by
  obtain ⟨tr, s, h, hl, hd, hm, hinfo⟩ := exists_reaches
    (grabLabels 3000 ++ weighLabels 2500 ++ resumeLabels ++ weighLabels 2400)
    (fun r => OutMsg.data 200 0 2 1 ∈ displayed r.1 ∧
      (∀ x ∈ r.1, ∀ m ∈ x.1.mainMq.items, m = .weigh ∨ m = .grabbed) ∧
      ∀ x ∈ r.1, signed x.1.main.info.total ≠ 999999 ∧
        signed x.1.main.info.qualifiedAmount ≠ 999999) (by decide +kernel)
  refine ⟨tr, s, h, hl, hd, (displayed_fits_iff h).mpr ?_⟩
  rintro ⟨s', a⟩ hx ho
  cases a with
  | mainRecv after =>
    obtain ⟨m, hhead, ho⟩ := ho
    rcases hm _ hx m (List.mem_of_mem_head? hhead) with rfl | rfl <;> exact ho
  | mainRead adc =>
    obtain ⟨ht, hq⟩ := hinfo _ hx
    rcases ho.2 with ho | ⟨ho, -⟩
    · exact ht ho
    · exact hq ho
  | _ => exact ho

/-- The network answers with a text of the right length that is no date, here with the letter `E` in
the places of the digits: the flush task writes 14 bytes into `info_buf[12]`. -/
theorem date_overruns_buffer : ∃ tr s, Reaches 0 ⟨false, none⟩ tr s ∧
    tr.map Prod.snd = [.nbStart true, .nbCsq none, .nbTime (some (.replicate 8 69)), .mainRecv 0,
      .flushRecv, .flushDraw, .flushRecv, .flushDraw, .flushRecv] ∧
    s.flush = some (.rtc 23331 231 231) ∧ OutMsg.rtc 23331 231 231 ∈ displayed tr ∧
    (rtSprintf dateFormat [23331, 231, 231]).length = 14 ∧ ¬ ∀ m ∈ displayed tr, m.Fits := by
  obtain ⟨tr, s, h, hl, hf, hd⟩ := exists_reaches
    [.nbStart true, .nbCsq none, .nbTime (some (.replicate 8 69)), .mainRecv 0,
      .flushRecv, .flushDraw, .flushRecv, .flushDraw, .flushRecv]
    (fun r => r.2.flush = some (.rtc 23331 231 231) ∧ OutMsg.rtc 23331 231 231 ∈ displayed r.1)
    (by decide +kernel)
  have hlen : (rtSprintf dateFormat [23331, 231, 231]).length = 14 := by
    rw [length_dateText]
    decide
  refine ⟨tr, s, h, hl, hf, hd, hlen, fun hfits => ?_⟩
  have hle : (rtSprintf dateFormat [23331, 231, 231]).length ≤ 12 :=
    hfits _ hd _ (List.mem_singleton_self _)
  omega

end Sys

end SortingLine
