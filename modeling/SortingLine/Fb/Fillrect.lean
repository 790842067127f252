import Mathlib.Algebra.Order.Group.Int
import Mathlib.Data.Int.Range
import SortingLine.Fb.Screen

/-!
# Filling a rectangle

`fb_fillrect` and `fb_set_pixel_internal` of `ls1x_fb_utils.c`, for any number of bytes per pixel.
A line of the screen takes as many bytes as its pixels, as `ls1x_fb.c` sets up `line_length`.
-/

namespace SortingLine.Fb

/-- What the two functions read of `LS1x_FB_t`, with the colours. -/
structure PixelFb extends Screen where
  bytesPerPixel : ℕ
  bytesPerPixel_pos : 0 < bytesPerPixel
  bytesPerPixel_le : bytesPerPixel ≤ 4
  mColorMap : UInt32 → UInt16

/-- `*p = v` for a byte, or `*p ^= v`. -/
def putByte (xor : Bool) (v : UInt8) (p : ℤ) (m : Vram) : Vram := fun a =>
  if a = p then (if xor then m a ^^^ v else v) else m a

/-- Some bytes, one after the other. -/
def putBytes (xor : Bool) : List UInt8 → ℤ → Vram → Vram
  | [], _, m => m
  | v :: bs, p, m => putBytes xor bs (p + 1) (putByte xor v p m)

/-- A byte of a number, the least significant one first. -/
def byteOf (color : UInt32) (i : UInt32) : UInt8 := (color >>> (8 * i)).toUInt8

/-- The bytes that the cases of `fb_set_pixel_internal` write; half words and words have the least
significant byte first. -/
def pixelBytes (bytesPerPixel : ℕ) (color : UInt32) : List UInt8 :=
  match bytesPerPixel with
  | 2 => [byteOf color 0, byteOf color 1]
  | 3 => [byteOf color 2, byteOf color 1, byteOf color 0]
  | 4 => [byteOf color 0, byteOf color 1, byteOf color 2, byteOf color 3]
  | _ => [byteOf color 0]

/-- `fb_set_pixel_internal` -/
def fbSetPixelInternal (fb : PixelFb) (loc : ℤ) (xor : Bool) (color : UInt32) (m : Vram) : Vram :=
  putBytes xor (pixelBytes fb.bytesPerPixel color) loc m

/-- `lineAddr` -/
def PixelFb.lineAddr (fb : PixelFb) (y : ℤ) : ℤ := y * (fb.xres * fb.bytesPerPixel)

/-- A coordinate is moved to the nearest one of the screen.  The second comparison is of `unsigned`,
where the coordinate is not negative any more. -/
def clampTo (res : ℕ) (v : ℤ) : ℤ :=
  let v := if v < 0 then 0 else v
  if res ≤ v then res - 1 else v

/-- `fb_fillrect` -/
def fbFillrect (fb : PixelFb) (x1 y1 x2 y2 : ℤ) (coloridx : UInt32) (m : Vram) : Vram :=
  let (x1, x2) := if x2 < x1 then (x2, x1) else (x1, x2)
  let (y1, y2) := if y2 < y1 then (y2, y1) else (y1, y2)
  let x1 := clampTo fb.xres x1
  let x2 := clampTo fb.xres x2
  let y1 := clampTo fb.yres y1
  let y2 := clampTo fb.yres y2
  if x2 < x1 ∨ y2 < y1 then m
  else
    let xor := coloridx &&& xormode != 0
    let color := (fb.mColorMap (coloridx &&& ~~~xormode)).toUInt32
    (Int.range y1 (y2 + 1)).foldl (fun m y =>
      let loc := fb.lineAddr y + x1 * fb.bytesPerPixel
      (Int.range x1 (x2 + 1)).foldl (fun m x =>
        fbSetPixelInternal fb (loc + (x - x1) * fb.bytesPerPixel) xor color m) m) m

end SortingLine.Fb
