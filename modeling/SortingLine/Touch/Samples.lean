import Mathlib.Data.List.Sort

/-!
# Samples of the touch screen

`XPT2046_do_cmd` and `XPT2046_read` of `xpt2046.c`, and `read_xyz_coords` of `touch_utils.c` with
the sorting and the medians of `touchscreen_click_task`.

A transfer over SPI has no error here: the bus is there, and one that times out answers the positive
`ETIMEDOUT`, which `XPT2046_do_cmd` takes for a count.  The buffer then holds whatever it held, so
the answers to a command are two arbitrary bytes.
-/

namespace SortingLine.Touch

/-- `ts_message_t` -/
structure TsMessage where
  x : UInt16
  y : UInt16
  z : UInt16
deriving DecidableEq, Repr

/-- An entry that `memset` has cleared. -/
def TsMessage.zero : TsMessage := ⟨0, 0, 0⟩

/-! ### The chip -/

/-- `CMD_READ_X` -/
def cmdReadX : UInt8 := 0xD0

/-- `CMD_READ_Y` -/
def cmdReadY : UInt8 := 0x90

/-- `CMD_READ_Z1` -/
def cmdReadZ1 : UInt8 := 0xB0

/-- What comes back during a read: for each point, the two bytes after a command. -/
abbrev Answers := ℕ → UInt8 → UInt8 × UInt8

/-- `XPT2046_do_cmd`: the first bit is the BUSY signal, then come twelve bits. -/
def xpt2046DoCmd (buf : UInt8 × UInt8) : UInt16 :=
  (buf.1.toUInt16 <<< 5 ||| (buf.2 >>> 3).toUInt16) &&& 0xFFF

/-- A round of the loop of `XPT2046_read`. -/
def point (answers : Answers) (readed : ℕ) : TsMessage where
  x := xpt2046DoCmd (answers readed cmdReadX)
  y := xpt2046DoCmd (answers readed cmdReadY)
  z := xpt2046DoCmd (answers readed cmdReadZ1)

/-- `XPT2046_read`: what it stores for `ptcount` points. -/
def xpt2046Read (answers : Answers) (ptcount : ℕ) : List TsMessage :=
  (List.range ptcount).map (point answers)

/-! ### Sampling -/

/-- `MAX_SAMPLES` -/
def maxSamples : ℕ := 16

/-- `MIN_SAMPLES` -/
def minSamples : ℕ := 12

/-- `GET_TOUCH_DOWN`: the pin is low while the screen is touched. -/
def getTouchDown (level : Bool) : Bool := !level

/-- What a round of `read_xyz_coords` finds: the level of the pin, and the answers of the chip. -/
structure Round where
  level : Bool
  answers : Answers

/-- The test that ends the loop of `read_xyz_coords`. -/
def outOfRange (p : TsMessage) : Bool :=
  p.x < 100 || p.x > 4000 || p.y < 100 || p.y > 4000 || p.z < 100 || p.z > 4000

/-- The loop of `read_xyz_coords`, with `left` rounds up to `MAX_SAMPLES`: `*click_down`, `readed`
and `samp`.  Every round reads the whole array and tests one entry of it. -/
def sampleLoop (rounds : ℕ → Round) : ℕ → Bool → ℕ → List TsMessage → Bool × ℕ × List TsMessage
  | 0, clickDown, readed, samp => (clickDown, readed, samp)
  | left + 1, _, readed, samp =>
    if !getTouchDown (rounds readed).level then (false, readed, samp)
    else
      let samp := xpt2046Read (rounds readed).answers maxSamples
      if outOfRange (samp.getD readed .zero) then (true, readed, samp)
      else sampleLoop rounds left true (readed + 1) samp

/-- `read_xyz_coords` -/
def readXyzCoords (rounds : ℕ → Round) (clickDown : Bool) : Bool × ℕ × List TsMessage :=
  sampleLoop rounds maxSamples clickDown 0 (List.replicate maxSamples .zero)

/-! ### The middle of the samples -/

/-- `sort_by_x` -/
def sortByX (a b : TsMessage) : ℤ := a.x.toNat - b.x.toNat

/-- `sort_by_y` -/
def sortByY (a b : TsMessage) : ℤ := a.y.toNat - b.y.toNat

/-- `qsort` of the first `n` entries.  The order of equal entries is not specified, and nothing
depends on it: see `isMedian_middleOf`. -/
def qsort (compare : TsMessage → TsMessage → ℤ) (n : ℕ) (samp : List TsMessage) : List TsMessage :=
  (samp.take n).insertionSort (fun a b => compare a b ≤ 0) ++ samp.drop n

/-- The middle one of the first `readed` entries, or the mean of the two in the middle. -/
def middleOf (coord : TsMessage → UInt16) (readed : ℕ) (samp : List TsMessage) : ℕ :=
  let middle := readed / 2
  if readed % 2 = 1 then (coord (samp.getD middle .zero)).toNat
  else ((coord (samp.getD (middle - 1) .zero)).toNat + (coord (samp.getD middle .zero)).toNat) / 2

/-- `x`, `y` and `z` in `touchscreen_click_task` before they are calibrated. -/
def measure (readed : ℕ) (samp : List TsMessage) : ℕ × ℕ × UInt16 :=
  -- z: the last one
  let z := (samp.getD (readed - 1) .zero).z
  let samp := qsort sortByX readed samp
  let x := middleOf TsMessage.x readed samp
  let samp := qsort sortByY readed samp
  let y := middleOf TsMessage.y readed samp
  (x, y, z)

end SortingLine.Touch
