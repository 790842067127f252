import SortingLine.I2c.Ads1015
import SortingLine.I2c.Equiv.Bus

/-!
# What an ADC value is worth

`ADS1015_read` writes the configuration register and then reads the conversion register: nine byte
transfers.  A value is good if the bus was free and all of them went well.  The code notices some of
the faults and not others (`read_reliable_iff`): a register byte, a second configuration byte
without an acknowledge, and the data bytes can fail, and it still returns 0 with a value.
-/

namespace SortingLine.Ads1015

open I2c

variable (hw : Hw) (b : Bus)

/-! ### One access to a register -/

/-- The bus after `send_start` and the new baud rate, if it was free. -/
def started : Bus :=
  ({ b.op .take with starts := b.starts + 1 }.write (.cmd cmdStart)).setBaudrate.2

/-- The bus after a register was selected. -/
def selected (regNum : UInt8) : Bus :=
  (Bus.writeBytes hw 0 [regNum] ((started b).sendAddr hw address false).2).2

theorem selected_starts (regNum : UInt8) : (selected hw b regNum).starts = b.starts + 1 := by
  rw [selected, (Bus.writeBytes_one hw _ regNum).2.1, (Bus.sendAddr_result hw _ _ _).2.1]
  rfl

theorem selected_xfers (regNum : UInt8) : (selected hw b regNum).xfers = b.xfers + 2 := by
  rw [selected, (Bus.writeBytes_one hw _ regNum).2.2, (Bus.sendAddr_result hw _ _ _).2.2]
  rfl

/-- **An access up to the data**: it ends early if the bus is busy or the address fails, but not if
the register byte does. -/
theorem regTransfer_eq (regNum : UInt8) (regVal : UInt16) (rw : Bool) :
    regTransfer hw regNum regVal rw b =
    if hw.busy b.starts then (-etimedout, none, { b.op .take with starts := b.starts + 1 })
    else if ¬ (hw.xfer b.xfers).Acked then
      (Bus.addrResult (hw.xfer b.xfers), none, ((started b).sendAddr hw address false).2)
    else if rw then
      let (rt, b) := (selected hw b regNum).sendAddr hw address true
      if rt ≠ 0 then (rt, none, b)
      else
        let (_, buf, b) := Bus.readBytes hw [] 2 b
        (0, some (((buf.getD 0 0).toUInt16 <<< 8) + (buf.getD 1 0).toUInt16), b)
    else
      let (rt, b) := Bus.writeBytes hw 0 [(regVal >>> 8).toUInt8, regVal.toUInt8]
        (selected hw b regNum)
      (rt, none, b) := by
  unfold regTransfer
  by_cases hbusy : hw.busy b.starts
  · have hstart : b.sendStart hw = (-etimedout, { b.op .take with starts := b.starts + 1 }) := by
      rw [Bus.sendStart]
      exact if_pos hbusy
    simp [hstart, hbusy, etimedout]
  · have hstart : b.sendStart hw
        = (0, { b.op .take with starts := b.starts + 1 }.write (.cmd cmdStart)) := by
      rw [Bus.sendStart]
      exact if_neg hbusy
    have hbaud : ({ b.op .take with starts := b.starts + 1 }.write (.cmd cmdStart)).ioctlSetTfrmode
        = (0, started b) := rfl
    have haddr : ((started b).sendAddr hw address false).1 = Bus.addrResult (hw.xfer b.xfers) :=
      (Bus.sendAddr_result hw (started b) address false).1
    have hpointer := (Bus.writeBytes_one hw ((started b).sendAddr hw address false).2 regNum).1
    have hread := (Bus.readBytes_two hw ((selected hw b regNum).sendAddr hw address true).2).1
    -- the counts are positive, the errors among them too
    have hneg := Int.not_lt.mpr hpointer.le
    have hneg' := Int.not_lt.mpr hread.le
    by_cases hack : (hw.xfer b.xfers).Acked
    · have hzero := haddr.trans (Bus.addrResult_eq_zero.mpr hack)
      unfold selected at *
      simp only [hstart, hbaud, hbusy, hzero, hneg, hack]
      by_cases hrt : (Bus.sendAddr hw (Bus.writeBytes hw 0 [regNum]
          ((started b).sendAddr hw address false).2).2 address true).1 = 0 <;>
        simp [hrt, hneg']
    · have hne : Bus.addrResult (hw.xfer b.xfers) ≠ 0 := fun h => hack (Bus.addrResult_eq_zero.mp h)
      simp [hstart, hbaud, hbusy, haddr, hack, hne]

/-! ### The two accesses of a read -/

/-- **Writing the configuration register**: the result is 2 if the address byte and the first data
byte are acknowledged and the second does not time out. -/
theorem config_result (val : UInt16) :
    (regAccess hw pointerConfig val false b).1 =
      (if hw.busy b.starts then -etimedout
      else if ¬ (hw.xfer b.xfers).Acked then Bus.addrResult (hw.xfer b.xfers)
      else Bus.pairResult (hw.xfer (b.xfers + 2)) (hw.xfer (b.xfers + 3))) ∧
    (hw.busy b.starts = false → (hw.xfer b.xfers).Acked → (hw.xfer (b.xfers + 2)).Acked →
      (regAccess hw pointerConfig val false b).2.2.starts = b.starts + 1 ∧
      (regAccess hw pointerConfig val false b).2.2.xfers = b.xfers + 4) := by
  have hreg : ¬ pointerConfig ≥ registerCount := by decide
  obtain ⟨hret, hstarts, hxfers⟩ := Bus.writeBytes_two hw (selected hw b pointerConfig)
    (val >>> 8).toUInt8 val.toUInt8
  rw [selected_xfers] at hret hxfers
  rw [selected_starts] at hstarts
  simp only [regAccess, if_neg hreg, regTransfer_eq]
  cases hbusy : hw.busy b.starts with
  | true => exact ⟨rfl, fun h => absurd h (by decide)⟩
  | false =>
    by_cases hack : (hw.xfer b.xfers).Acked
    · simp only [hack, not_true_eq_false, if_false, Bool.false_eq_true]
      exact ⟨hret, fun _ _ h => ⟨hstarts, hxfers h⟩⟩
    · simp only [hack, not_false_eq_true, if_true, if_false, Bool.false_eq_true]
      exact ⟨trivial, fun _ h => h.elim⟩

/-- The conversion register as it is put together from the bytes received, shifted. -/
def fromBytes (buf : List UInt8) : UInt16 :=
  (((buf.getD 0 0).toUInt16 <<< 8) + (buf.getD 1 0).toUInt16) >>> 4

/-- **Reading the conversion register**: the result is 0, and a value is stored, if the two address
bytes are acknowledged. -/
theorem convert_result :
    (readConvert hw b).1 =
      (if hw.busy b.starts then -etimedout
      else if ¬ (hw.xfer b.xfers).Acked then Bus.addrResult (hw.xfer b.xfers)
      else Bus.addrResult (hw.xfer (b.xfers + 2))) ∧
    (readConvert hw b).2.1 =
      if hw.busy b.starts = false ∧ (hw.xfer b.xfers).Acked ∧ (hw.xfer (b.xfers + 2)).Acked then
        some (fromBytes (Bus.pairReceived (hw.xfer (b.xfers + 3)) (hw.xfer (b.xfers + 4))))
      else none := by
  have hreg : ¬ pointerConvert ≥ registerCount := by decide
  have haddr := Bus.sendAddr_result hw (selected hw b pointerConvert) address true
  have hread := (Bus.readBytes_two hw ((selected hw b pointerConvert).sendAddr hw address true).2).2
  rw [selected_xfers] at haddr
  rw [haddr.2.2] at hread
  simp only [readConvert, regAccess, if_neg hreg, regTransfer_eq]
  cases hbusy : hw.busy b.starts with
  | true => simp
  | false =>
    by_cases hack : (hw.xfer b.xfers).Acked
    · by_cases hack' : (hw.xfer (b.xfers + 2)).Acked
      · have hzero := haddr.1.trans (Bus.addrResult_eq_zero.mpr hack')
        simp [hack, hack', hzero, hread, fromBytes, Bus.addrResult_eq_zero.mpr hack']
      · have hne := Bus.addrResult_eq_zero.not.mpr hack'
        simp [hack, hack', haddr.1, hne]
    · have hne := Bus.addrResult_eq_zero.not.mpr hack
      simp [hack, hne]

theorem toNat_fromBytes (d₁ d₂ : UInt8) :
    (fromBytes [d₁, d₂]).toNat = (d₁.toNat * 256 + d₂.toNat) / 16 := by
  have h₁ := d₁.toNat_lt
  have h₂ := d₂.toNat_lt
  have hshift : (d₁.toUInt16 <<< 8).toNat = d₁.toNat * 256 := by
    rw [UInt16.toNat_shiftLeft, UInt8.toNat_toUInt16, Nat.shiftLeft_eq]
    exact Nat.mod_eq_of_lt (by show d₁.toNat * 256 < 65536; omega)
  show (((d₁.toUInt16 <<< 8) + d₂.toUInt16) >>> 4).toNat = _
  rw [UInt16.toNat_shiftRight, UInt16.toNat_add, hshift, UInt8.toNat_toUInt16,
    Nat.shiftRight_eq_div_pow, Nat.mod_eq_of_lt (by omega)]
  rfl

/-! ### Values and faults -/

/-- The configuration register was written: the bus was free and four bytes were acknowledged. -/
def ConfigSent (starts xfers : Nat) : Prop :=
  hw.busy starts = false ∧ ∀ i < 4, (hw.xfer (xfers + i)).Acked

/-- The conversion register was read: the bus was free, three bytes were acknowledged, and the two
bytes `d₁` and `d₂` were received. -/
def Converted (starts xfers : Nat) (d₁ d₂ : UInt8) : Prop :=
  hw.busy starts = false ∧ (∀ i < 3, (hw.xfer (xfers + i)).Acked) ∧
    (hw.xfer (xfers + 3)).received = some d₁ ∧ (hw.xfer (xfers + 4)).received = some d₂

/-- The faults that the code notices when it writes the configuration register do not occur. -/
def ConfigPasses (starts xfers : Nat) : Prop :=
  hw.busy starts = false ∧ (hw.xfer xfers).Acked ∧ (hw.xfer (xfers + 2)).Acked ∧
    hw.xfer (xfers + 3) ≠ .timeout

/-- The faults that the code notices when it reads the conversion register do not occur. -/
def ConvertPasses (starts xfers : Nat) : Prop :=
  hw.busy starts = false ∧ (hw.xfer xfers).Acked ∧ (hw.xfer (xfers + 2)).Acked

variable (saved : UInt16) (channel : Int)

/-- All bytes of the call were transferred, the conversion register as `d₁` and `d₂`. -/
def Transferred (d₁ d₂ : UInt8) : Prop :=
  if cfgVal saved channel ≠ 0 then
    ConfigSent hw b.starts b.xfers ∧ Converted hw (b.starts + 1) (b.xfers + 4) d₁ d₂
  else Converted hw b.starts b.xfers d₁ d₂

/-- The call meets no fault that the code notices. -/
def Passes : Prop :=
  if cfgVal saved channel ≠ 0 then
    ConfigPasses hw b.starts b.xfers ∧ ConvertPasses hw (b.starts + 1) (b.xfers + 4)
  else ConvertPasses hw b.starts b.xfers

/-- What a call should give: with the result 0 a value that was transferred, and else no value. -/
structure Reliable : Prop where
  value : (read hw saved channel b).1 = 0 → ∃ d₁ d₂, Transferred hw b saved channel d₁ d₂ ∧
    ∃ v, (read hw saved channel b).2.1 = some v ∧ v.toNat = (d₁.toNat * 256 + d₂.toNat) / 16
  error : (¬ ∃ d₁ d₂, Transferred hw b saved channel d₁ d₂) →
    (read hw saved channel b).1 ≠ 0 ∧ (read hw saved channel b).2.1 = none

theorem pairResult_eq_two {r r' : Response} :
    Bus.pairResult r r' = 2 ↔ r.Acked ∧ r' ≠ .timeout := by
  cases r <;> cases r' <;> simp [Bus.pairResult, Response.Acked, etimedout]

theorem pairResult_ne_zero (r r' : Response) : Bus.pairResult r r' ≠ 0 := by
  cases r <;> cases r' <;> simp [Bus.pairResult, etimedout]

theorem addrResult_ne_two (r : Response) : Bus.addrResult r ≠ 2 := by
  cases r <;> simp [Bus.addrResult, etimedout]

/-- The result of writing the configuration register is 2 if no fault is noticed, and never 0. -/
theorem config_eq_two_iff (val : UInt16) :
    ((regAccess hw pointerConfig val false b).1 = 2 ↔ ConfigPasses hw b.starts b.xfers) ∧
    (regAccess hw pointerConfig val false b).1 ≠ 0 := by
  rw [(config_result hw b val).1, ConfigPasses]
  cases hw.busy b.starts with
  | true => simp [etimedout]
  | false =>
    by_cases hack : (hw.xfer b.xfers).Acked
    · simp [hack, pairResult_eq_two, pairResult_ne_zero]
    · simp [hack, addrResult_ne_two, Bus.addrResult_eq_zero]

/-- The result of reading the conversion register is 0 if no fault is noticed. -/
theorem convert_eq_zero_iff :
    (readConvert hw b).1 = 0 ↔ ConvertPasses hw b.starts b.xfers := by
  rw [(convert_result hw b).1, ConvertPasses]
  cases hw.busy b.starts with
  | true => simp [etimedout]
  | false =>
    by_cases hack : (hw.xfer b.xfers).Acked
    · simp [hack, Bus.addrResult_eq_zero]
    · simp [hack, Bus.addrResult_eq_zero]

/-- **What a read gives**: 0 and a value if no fault is noticed, an error and no value if one is. -/
theorem read_result :
    (Passes hw b saved channel → (read hw saved channel b).1 = 0 ∧
      (read hw saved channel b).2.1 ≠ none ∧
      ∀ d₁ d₂, Transferred hw b saved channel d₁ d₂ →
        (read hw saved channel b).2.1 = some (fromBytes [d₁, d₂])) ∧
    (¬ Passes hw b saved channel →
      (read hw saved channel b).1 ≠ 0 ∧ (read hw saved channel b).2.1 = none) := by
  have hconvert (b : Bus) :
      (ConvertPasses hw b.starts b.xfers → (readConvert hw b).1 = 0 ∧
        (readConvert hw b).2.1 ≠ none ∧
        ∀ d₁ d₂, Converted hw b.starts b.xfers d₁ d₂ →
          (readConvert hw b).2.1 = some (fromBytes [d₁, d₂])) ∧
      (¬ ConvertPasses hw b.starts b.xfers →
        (readConvert hw b).1 ≠ 0 ∧ (readConvert hw b).2.1 = none) := by
    have hval := (convert_result hw b).2
    refine ⟨fun h => ⟨(convert_eq_zero_iff hw b).mpr h, ?_, fun d₁ d₂ hd => ?_⟩,
      fun h => ⟨(convert_eq_zero_iff hw b).not.mpr h, hval.trans (if_neg h)⟩⟩
    · rw [hval, if_pos (show _ ∧ _ from h)]
      exact Option.some_ne_none _
    · have hpair : Bus.pairReceived (hw.xfer (b.xfers + 3)) (hw.xfer (b.xfers + 4)) = [d₁, d₂] := by
        obtain ⟨-, -, h₁, h₂⟩ := hd
        cases hr : hw.xfer (b.xfers + 3) with
        | timeout => rw [hr] at h₁; cases h₁
        | ack rx => rw [hr] at h₁; simp [Bus.pairReceived, h₁, h₂]
        | nack rx => rw [hr] at h₁; simp [Bus.pairReceived, h₁, h₂]
      rw [hval, hpair]
      exact if_pos h
  unfold read Passes Transferred
  split_ifs with hcfg
  · obtain ⟨htwo, hne⟩ := config_eq_two_iff hw b (cfgVal saved channel)
    by_cases hpass : ConfigPasses hw b.starts b.xfers
    · -- the conversion register is read with the next transfers
      obtain ⟨hstarts, hxfers⟩ := (config_result hw b (cfgVal saved channel)).2 hpass.1 hpass.2.1
        hpass.2.2.1
      have hread := hconvert (regAccess hw pointerConfig (cfgVal saved channel) false b).2.2
      rw [hstarts, hxfers] at hread
      simp only [htwo.mpr hpass, ne_eq, not_true_eq_false, if_false, hpass, true_and]
      exact ⟨fun h => ⟨(hread.1 h).1, (hread.1 h).2.1, fun d₁ d₂ hd => (hread.1 h).2.2 d₁ d₂ hd.2⟩,
        hread.2⟩
    · simp only [if_pos (htwo.not.mpr hpass), hpass, false_and, not_false_eq_true, true_implies,
        false_implies, true_and]
      exact ⟨hne, trivial⟩
  · exact hconvert b

theorem Transferred.passes {d₁ d₂ : UInt8} (h : Transferred hw b saved channel d₁ d₂) :
    Passes hw b saved channel := by
  have hconvert {starts xfers : Nat} (h : Converted hw starts xfers d₁ d₂) :
      ConvertPasses hw starts xfers := ⟨h.1, h.2.1 0 (by omega), h.2.1 2 (by omega)⟩
  unfold Transferred at h
  unfold Passes
  split_ifs at h ⊢ with hcfg
  · obtain ⟨⟨hbusy, hack⟩, hread⟩ := h
    refine ⟨⟨hbusy, hack 0 (by omega), hack 2 (by omega), fun ht => ?_⟩, hconvert hread⟩
    have h3 := hack 3 (by omega)
    rw [ht] at h3
    exact h3
  · exact hconvert h

/-- **When the value of a read can be relied on**: exactly if the call meets a fault that the code
notices, or none at all. -/
theorem read_reliable_iff : Reliable hw b saved channel ↔
    ¬ Passes hw b saved channel ∨ ∃ d₁ d₂, Transferred hw b saved channel d₁ d₂ := by
  obtain ⟨hpass, hfail⟩ := read_result hw b saved channel
  constructor
  · intro h
    by_cases hp : Passes hw b saved channel
    · obtain ⟨d₁, d₂, hd, -⟩ := h.value (hpass hp).1
      exact .inr ⟨d₁, d₂, hd⟩
    · exact .inl hp
  · rintro (hp | ⟨d₁, d₂, hd⟩)
    · exact ⟨fun h => absurd h (hfail hp).1, fun _ => hfail hp⟩
    · refine ⟨fun _ => ⟨d₁, d₂, hd, _, (hpass hd.passes).2.2 d₁ d₂ hd, toNat_fromBytes d₁ d₂⟩,
        fun hno => absurd ⟨d₁, d₂, hd⟩ hno⟩

/-- **What the device stores**: nothing if it was not opened, or the read met a fault that the code
notices. -/
theorem rtDeviceRead_eq_none (dev : Device) (pos : Int) :
    (rtDeviceRead dev pos 2).2 = none ↔
      dev.refCount = 0 ∨ ¬ Passes dev.hw dev.bus dev.saved pos := by
  obtain ⟨hpass, hfail⟩ := read_result dev.hw dev.bus dev.saved pos
  rw [rtDeviceRead, rtAds1015Read, if_neg two_ne_zero]
  by_cases h : dev.refCount = 0
  · simp [h]
  · rw [if_neg h, or_iff_right h]
    exact ⟨fun hnone hp => (hpass hp).2.1 hnone, fun hp => (hfail hp).2⟩

/-- Hardware on which transfer `n` ends with `r`, and all others go well and receive 100. -/
def hwWith (n : Nat) (r : Response) : Hw :=
  { busy := fun _ => false, xfer := fun i => if i = n then r else .ack 100 }

/-- The first data byte of the conversion register times out: the result is 0 and the value is 0,
though nothing was received.  If the second byte times out, or the register byte or the second
configuration byte is not acknowledged, the result is 0 too. -/
theorem read_fabricates :
    (read (hwWith 7 .timeout) 0 channelS3 .unused).1 = 0 ∧
    (read (hwWith 7 .timeout) 0 channelS3 .unused).2.1 = some 0 ∧
    (read (hwWith 8 .timeout) 0 channelS3 .unused).1 = 0 ∧
    (read (hwWith 8 .timeout) 0 channelS3 .unused).2.1 = some 1600 ∧
    (read (hwWith 3 (.nack 0)) 0 channelS3 .unused).1 = 0 ∧
    (read (hwWith 5 (.nack 0)) 0 channelS3 .unused).1 = 0 ∧
    ¬ Reliable (hwWith 7 .timeout) .unused 0 channelS3 := by
  refine ⟨by decide, by decide, by decide, by decide, by decide, by decide, fun h => ?_⟩
  obtain ⟨d₁, d₂, hd, -⟩ := h.value (by decide)
  cases hd.2.2.2.1

end SortingLine.Ads1015
