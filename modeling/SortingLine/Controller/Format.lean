import SortingLine.Controller.Data
import SortingLine.Library.Words

/-!
# The texts of the display

`rt_flush_task` formats the values of a message with `rt_sprintf` and draws the texts.  Only the two
formats `" %i"` and `"%i.%i.%i"` occur, so of `rt_vsnprintf` and `print_number` (`kservice.c`) what
follows is a `%i` without flags, width or precision.  `rt_sprintf` does not know the size of the
buffer it writes to.
-/

namespace SortingLine

/-! ### `rt_sprintf` -/

/-- The `while` loop of `print_number`: the digits, the last one first. -/
def tmpDigits (num : Nat) : List UInt8 :=
  if num = 0 then [] else UInt8.ofNat (48 + num % 10) :: tmpDigits (num / 10)
termination_by num
decreasing_by omega

/-- `print_number` with base 10 and the flag `SIGN` alone. -/
def printNumber (num : UInt32) : List UInt8 :=
  (if signed num < 0 then [45] else []) ++
    -- negating the least `int` gives it back, and `divide` takes it as unsigned
    (if num = 0 then [48] else tmpDigits (signed num).natAbs).reverse

/-- The loop of `rt_vsnprintf` over a format in which every `%` is followed by `i`. -/
def rtVsnprintf : List UInt8 → List UInt32 → List UInt8
  | 37 :: 105 :: fmt, num :: args => printNumber num ++ rtVsnprintf fmt args
  | c :: fmt, args => c :: rtVsnprintf fmt args
  | [], _ => []

/-- `rt_sprintf`: the bytes it writes, with the final NUL. -/
def rtSprintf (fmt : List UInt8) (args : List UInt32) : List UInt8 := rtVsnprintf fmt args ++ [0]

/-- `" %i"`. -/
def infoFormat : List UInt8 := [32, 37, 105]

/-- `"%i.%i.%i"`. -/
def dateFormat : List UInt8 := [37, 105, 46, 37, 105, 46, 37, 105]

/-! ### The flush task -/

/-- What `rt_sprintf` writes, and the size of the buffer it writes to. -/
structure Formatted where
  size : Nat
  text : List UInt8
deriving DecidableEq

/-- The text is inside the buffer. -/
def Formatted.Fits (t : Formatted) : Prop := t.text.length ≤ t.size

/-- `draw_text_in_grid`, with its `info_buf[8]`. -/
def drawTextInGrid (val : UInt32) : Formatted := ⟨8, rtSprintf infoFormat [val]⟩

/-- `draw_text_in_grid_nb`: the buffer is the caller's. -/
def drawTextInGridNb (val : UInt32) (size : Nat) : Formatted := ⟨size, rtSprintf infoFormat [val]⟩

/-- `draw_texts_in_grids`, with its `info_buf[8]`. -/
def drawTextsInGrids (vMeasure qualified total qualifiedAmount : UInt32) : List Formatted :=
  [drawTextInGridNb vMeasure 8, drawTextInGridNb qualified 8, drawTextInGridNb total 8,
    drawTextInGridNb qualifiedAmount 8]

/-- `draw_rtc_time_in_grid`, with its `info_buf[12]`. -/
def drawRtcTimeInGrid (year mon day : UInt32) : Formatted :=
  ⟨12, rtSprintf dateFormat [year, mon, day]⟩

/-- `draw_product_info`, with its `info_buf[8]`. -/
def drawProductInfo (total qualifiedAmount : UInt32) : List Formatted :=
  [drawTextInGridNb total 8, drawTextInGridNb qualifiedAmount 8]

/-- The `switch` of `rt_flush_task`: what it formats for a message. -/
def OutMsg.formatted : OutMsg → List Formatted
  | .data vMeasure qualified total qualifiedAmount =>
    drawTextsInGrids vMeasure qualified total qualifiedAmount
  | .threshold v => [drawTextInGrid v]
  | .rtc year mon day => [drawRtcTimeInGrid year mon day]
  | .productInfo total qualifiedAmount => drawProductInfo total qualifiedAmount
  | .csq v => [drawTextInGrid v]
  | .msgId v => [drawTextInGrid v]

/-- All texts of a message are inside their buffers. -/
def OutMsg.Fits (m : OutMsg) : Prop := ∀ t ∈ m.formatted, t.Fits

end SortingLine
