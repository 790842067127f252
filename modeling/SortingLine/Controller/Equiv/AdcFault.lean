import SortingLine.Controller.Equiv.Startup
import SortingLine.I2c.Equiv.Ads1015

/-!
# A failed ADC read

`main` does not look at the result of `rt_device_read`.  If the read stores nothing, an item in
place is weighed with what `temp_adc` still holds, and counted, shown and reported; and a batch
starts on the old `adc_sum`.  So no message for which `main` reads the ADC is handled as a failed
read should be (`unharmed_iff`); all others read nothing.
-/

namespace SortingLine.Main

variable {τ : Type}

/-- The message with the answer of the ADC, as `main` reads it. -/
def deliver (msg : MainMsg τ) (after : UInt32) (dev : Ads1015.Device) : Delivery τ where
  msg
  after
  adc := (Ads1015.rtDeviceRead dev Ads1015.channelS3 2).2

/-- `main` reads the ADC for the message. -/
def Reads (m : Main) (msg : MainMsg τ) : Prop :=
  msg = .weigh ∧ m.ctrlFlow ≠ 0 ∨ msg = .grabbed ∧ m.ctrlFlow = 0

/-- What an iteration leads to, apart from `temp_adc` itself. -/
def outcome (m : Main) (d : Delivery τ) : Main × List Effect :=
  ({ m.handle d with tempAdc := 0 }, m.handleEffects d)

/-- What a failed read should do to the counts, the outputs and the queues: nothing, whatever
`temp_adc` held. -/
structure Unharmed (m : Main) (d : Delivery τ) : Prop where
  adcSum : (m.handle d).adcSum = m.adcSum
  vMeasure : (m.handle d).res.vMeasure = m.res.vMeasure
  qualified : (m.handle d).res.qualified = m.res.qualified
  total : (m.handle d).info.total = m.info.total
  qualifiedAmount : (m.handle d).info.qualifiedAmount = m.info.qualifiedAmount
  msgId : (m.handle d).stat.msgId = m.stat.msgId
  ctrlFlow : (m.handle d).ctrlFlow = m.ctrlFlow
  adcMeasureCount : (m.handle d).adcMeasureCount = m.adcMeasureCount
  notRaised : ∀ v, .pulse v ∈ m.handleEffects d → v = 0
  notShown : ∀ msg, .output msg ∉ m.handleEffects d
  notReported : ∀ r, .nb r ∉ m.handleEffects d
  stale : ∀ t, outcome { m with tempAdc := t } d = outcome m d

variable {m : Main} {d : Delivery τ}

/-- An item in place is shown, whatever the ADC answers. -/
theorem output_mem_handleEffects (hd : d.msg = .weigh) (hc : m.ctrlFlow ≠ 0) :
    .output (sendDataMsg (m.measure (d.adc.getD m.tempAdc))
      (addPorduct m.info (m.measure (d.adc.getD m.tempAdc)))) ∈ m.handleEffects d := by
  simp [handleEffects, recv, hd, hc, readWeigh, measure]

/-- A message for which `main` reads nothing changes nothing. -/
theorem handle_of_not_reads (hpc : m.pc = .recv) (hmsg : d.msg = .weigh ∨ d.msg = .grabbed)
    (h : ¬ m.Reads d.msg) : m.handle d = m ∧ m.handleEffects d = [] := by
  rw [Reads, not_or] at h
  have hrecv : m.recv d.msg d.after = (m, []) := by
    rcases hmsg with hd | hd
    · rw [hd, recv, if_neg fun hc => h.1 ⟨hd, hc⟩]
    · rw [hd, recv, if_neg fun hc => h.2 ⟨hd, hc⟩]
  constructor
  · rw [handle_of_other hpc h.1 h.2, hrecv]
  · simp [handleEffects, hrecv, hpc]

/-- A message for which `main` reads the ADC is not handled as a failed read should be. -/
theorem not_unharmed_of_reads (h : m.Reads d.msg) : ¬ Unharmed m d := by
  intro hu
  rcases h with ⟨hd, hc⟩ | ⟨hd, hc⟩
  · exact hu.notShown _ (output_mem_handleEffects hd hc)
  · -- a batch starts
    have hflow := hu.ctrlFlow
    rw [handle_of_grabbed hd hc, hc] at hflow
    cases hflow

/-- A message for which `main` reads nothing does no harm. -/
theorem unharmed_of_not_reads (hpc : m.pc = .recv) (hmsg : d.msg = .weigh ∨ d.msg = .grabbed)
    (h : ¬ m.Reads d.msg) : Unharmed m d := by
  obtain ⟨hm, he⟩ := handle_of_not_reads hpc hmsg h
  have hstale (t : UInt16) : outcome { m with tempAdc := t } d = outcome m d := by
    obtain ⟨hm', he'⟩ := handle_of_not_reads (m := { m with tempAdc := t }) hpc hmsg h
    rw [outcome, outcome, hm, he, hm', he']
  constructor <;> simp [hm, he, hstale]

/-- **A failed ADC read does no harm** exactly where there is none: `main` reads nothing for the
message, or the device is open and the read meets no fault that the code notices. -/
theorem unharmed_iff (m : Main) (hpc : m.pc = .recv) (msg : MainMsg τ)
    (hmsg : msg = .weigh ∨ msg = .grabbed) (after : UInt32) (dev : Ads1015.Device) :
    ((Ads1015.rtDeviceRead dev Ads1015.channelS3 2).2 = none → Unharmed m (deliver msg after dev)) ↔
      ¬ m.Reads msg ∨
      dev.refCount ≠ 0 ∧ Ads1015.Passes dev.hw dev.bus dev.saved Ads1015.channelS3 := by
  rw [Ads1015.rtDeviceRead_eq_none]
  constructor
  · intro h
    by_contra hc
    rw [not_or, not_not, not_and_or, not_not] at hc
    exact not_unharmed_of_reads hc.1 (h hc.2)
  · rintro (hr | ⟨hopen, hpass⟩) hfail
    · exact unharmed_of_not_reads hpc hmsg hr
    · exact (hfail.elim hopen fun h => h hpass).elim

/-- The device of a bus that is always busy: a read gives `-ETIMEDOUT` and stores nothing. -/
def busyDevice : Ads1015.Device where
  refCount := 1
  saved := 0
  hw := { busy := fun _ => true, xfer := fun _ => .timeout }
  bus := .unused

/-- `main` in a batch that started with 1000, and with 100 in `temp_adc`. -/
def inBatch : Main :=
  (start 100).handle (τ := Unit) { msg := .grabbed, after := 0, adc := some 1000 }

theorem unharmed_outside_batch :
    ((Ads1015.rtDeviceRead busyDevice Ads1015.channelS3 2).2 = none →
      Unharmed (start 100) (deliver (.weigh : MainMsg Unit) 0 busyDevice)) ∧
    Unharmed (start 100) (deliver (.weigh : MainMsg Unit) 0 busyDevice) := by
  have h := (unharmed_iff (start 100) rfl (.weigh : MainMsg Unit) (.inl rfl) 0 busyDevice).mpr
    (.inl (by simp [Reads, start]))
  exact ⟨h, h (by decide)⟩

/-- The bus stays busy while the first item of a batch is weighed: the item is qualified, counted
and reported with a weight that comes from what `temp_adc` held before, and `PULSE_OUT` is raised;
with another value there the item is not qualified.  If it stays busy while the batch is weighed,
the batch starts on the old sum. -/
theorem item_without_reading :
    (Ads1015.rtDeviceRead busyDevice Ads1015.channelS3 2) = (-I2c.etimedout, none) ∧
    (inBatch.handle (deliver (.weigh : MainMsg Unit) 0 busyDevice)).res.vMeasure = 1800 ∧
    (inBatch.handle (deliver (.weigh : MainMsg Unit) 0 busyDevice)).info.total = 1 ∧
    .pulse 1 ∈ inBatch.handleEffects (deliver (.weigh : MainMsg Unit) 0 busyDevice) ∧
    .pulse 1 ∉ { inBatch with tempAdc := 900 }.handleEffects
      (deliver (.weigh : MainMsg Unit) 0 busyDevice) ∧
    ((start 100).handle (deliver (.grabbed : MainMsg Unit) 0 busyDevice)).ctrlFlow = 1 ∧
    ¬ Unharmed inBatch (deliver (.weigh : MainMsg Unit) 0 busyDevice) ∧
    ¬ Unharmed (start 100) (deliver (.grabbed : MainMsg Unit) 0 busyDevice) :=
  ⟨by decide, by decide, by decide, by decide, by decide, by decide,
    not_unharmed_of_reads (.inl ⟨rfl, by decide⟩), not_unharmed_of_reads (.inr ⟨rfl, rfl⟩)⟩

end SortingLine.Main
