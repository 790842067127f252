import SortingLine.I2c.Bus

/-!
# The ADC

`ADS1015_reg_access` and `ADS1015_read` of `ads1015.c`, and the device `rt_ads1015_read` that `main`
reads.  The results of the bus primitives mix byte counts, negative errors and positive errors; the
tests are those of the source.
-/

namespace SortingLine.Ads1015

open I2c

/-- `ADS1015_ADDRESS` -/
def address : UInt8 := 0x48

/-- `ADS1015_REGISTER_COUNT` -/
def registerCount : UInt8 := 4

/-- `ADS1015_REG_POINTER_CONVERT` -/
def pointerConvert : UInt8 := 0

/-- `ADS1015_REG_POINTER_CONFIG` -/
def pointerConfig : UInt8 := 1

/-- `ADS1015_REG_CONFIG_MUX_MASK` -/
def muxMask : UInt16 := 0x7000

/-- `ADS1015_CFG_DEFAULT`: `CQUE_NONE`, `DR_1600SPS` and `PGA_4_096V`. -/
def cfgDefault : UInt16 := 0x0003 ||| 0x0080 ||| 0x0200

variable (hw : Hw)

/-- `ADS1015_reg_access` from `send_start` to `lbl_done`: `rt`, and what was stored in `*regVal`. -/
def regTransfer (regNum : UInt8) (regVal : UInt16) (rw : Bool) (b : Bus) :
    Int × Option UInt16 × Bus :=
  let (rt, b) := b.sendStart hw
  if rt ≠ 0 then (rt, none, b)
  else
    let (rt, b) := b.ioctlSetTfrmode
    if rt ≠ 0 then (rt, none, b)
    else
      let (rt, b) := b.sendAddr hw address false
      if rt ≠ 0 then (rt, none, b)
      else
        -- the register; an error is positive, so it is taken for a count
        let (rwCnt, b) := Bus.writeBytes hw 0 [regNum] b
        let rt := if rwCnt < 0 then rwCnt else rt
        if rt ≠ 0 then (rt, none, b)
        else if rw then
          let (rt, b) := b.sendAddr hw address true
          if rt ≠ 0 then (rt, none, b)
          else
            let (rwCnt, buf, b) := Bus.readBytes hw [] 2 b
            let rt := if rwCnt < 0 then rwCnt else rt
            if rt ≠ 0 then (rt, none, b)
            -- `buf` was cleared at the start
            else (rt, some (((buf.getD 0 0).toUInt16 <<< 8) + (buf.getD 1 0).toUInt16), b)
        else
          let (rt, b) := Bus.writeBytes hw 0 [(regVal >>> 8).toUInt8, regVal.toUInt8] b
          (rt, none, b)

/-- `ADS1015_reg_access`: the result, and what was stored in `*regVal` if anything was. -/
def regAccess (regNum : UInt8) (regVal : UInt16) (rw : Bool) (b : Bus) :
    Int × Option UInt16 × Bus :=
  if regNum ≥ registerCount then (-1, none, b)
  else
    let (rt, val, b) := regTransfer hw regNum regVal rw b
    -- `lbl_done`, whether or not a primitive has stopped the transaction
    (rt, val, b.sendStop)

/-- The `switch` of `ADS1015_read`: the bits of the channel, `none` for its `default`. -/
def channelMux (channel : Int) : Option UInt16 :=
  if channel = 0xD0 then some 0x0000
  else if channel = 0xD1 then some 0x1000
  else if channel = 0xD2 then some 0x2000
  else if channel = 0xD3 then some 0x3000
  else if channel = 0x10 then some 0x4000
  else if channel = 0x11 then some 0x5000
  else if channel = 0x12 then some 0x6000
  else if channel = 0x13 then some 0x7000
  else none

/-- `cfgVal` in `ADS1015_read`, 0 if the channel is not configured; `saved` is `saved_config_reg`.
-/
def cfgVal (saved : UInt16) (channel : Int) : UInt16 :=
  let saved := if saved = 0 then cfgDefault else saved
  if channel > 0 then
    match channelMux channel with
    | some mux => saved &&& ~~~muxMask ||| mux
    | none => 0
  else 0

/-- The end of `ADS1015_read`: read the conversion register. -/
def readConvert (b : Bus) : Int × Option UInt16 × Bus :=
  let (rt, val, b) := regAccess hw pointerConvert 0 true b
  (rt, if rt = 0 then val.map fun v : UInt16 => v >>> 4 else val, b)

/-- `ADS1015_read`: the result, and what was stored in the caller's buffer if anything was. -/
def read (saved : UInt16) (channel : Int) (b : Bus) : Int × Option UInt16 × Bus :=
  if cfgVal saved channel ≠ 0 then
    let (rt, _, b) := regAccess hw pointerConfig (cfgVal saved channel) false b
    if rt ≠ 2 then (rt, none, b) else readConvert hw b
  else readConvert hw b

/-- `ADS1015_CHANNEL_S3`, which `main` reads. -/
def channelS3 : Int := 0x13

/-- The device that `main` reads, and the bus under it. -/
structure Device where
  /-- `ref_count`, which `rt_device_open` counts up. -/
  refCount : UInt8
  /-- `saved_config_reg` -/
  saved : UInt16
  hw : Hw
  bus : Bus

/-- `rt_ads1015_read`: the position is the channel. -/
def rtAds1015Read (dev : Device) (pos : Int) (size : Nat) : Int × Option UInt16 :=
  if size = 0 then (0, none)
  else
    let (rt, val, _) := read dev.hw dev.saved pos dev.bus
    (rt, val)

/-- `rt_device_read` of a device with a read function: 0 is also the result of reading a device that
was not opened. -/
def rtDeviceRead (dev : Device) (pos : Int) (size : Nat) : Int × Option UInt16 :=
  if dev.refCount = 0 then (0, none) else rtAds1015Read dev pos size

end SortingLine.Ads1015
