import SortingLine.Fb.Font
import SortingLine.Fb.Screen
import SortingLine.Library.Loop

/-!
# Drawing text

`fb_draw_ascii_char`, `fb_draw_gb2312_char`, `fb_textout` and the functions that put a string, of
`ls1x_fb_utils.c`.  The frame buffer is open.  `COL_GAP` is 0.
-/

namespace SortingLine.Fb

/-- What the drawing functions read of `LS1x_FB_t`, with the colours and the tables of the fonts. -/
structure LS1xFb extends Screen where
  fgColoridx : UInt32
  mColorMap : UInt32 → UInt16
  asc : ℕ → UInt8
  song : ℕ → UInt8

/-- `CONS_FONT_WIDTH` -/
def consFontWidth : ℕ := 8

/-- `CONS_FONT_HEIGHT` -/
def consFontHeight : ℕ := 16

/-! ### Characters -/

/-- A row of a character: the bits of `data` from `top` on, the next one to the right of it. -/
def drawRow (xor : Bool) (color : UInt16) (top width : ℕ) (memAddr : ℤ) (data : ℕ) (m : Vram) :
    Vram :=
  (List.range width).foldl (fun m (fontCol : ℕ) =>
    if (data <<< fontCol).testBit top then wrPixel xor color (memAddr + 2 * fontCol) m else m) m

/-- What the two functions that draw a character have in common; they differ in how they read a row
of the table.  It is drawn if both its corners are on the screen. -/
def drawChar (top : ℕ) (rowData : (ℕ → UInt8) → ℕ → ℕ) (fb : LS1xFb) (x y : ℤ) (chr : Ptr)
    (m : Vram) : Option Vram := do
  match ← getFontDesc chr with
  | none => return m
  | some font =>
    match ← font.getFontData chr with
    | none => return m
    | some offset =>
      let table := match font with
        | .asc => fb.asc
        | .song => fb.song
      let fontBuf := fun i => table (offset + i)
      let xor := fb.fgColoridx &&& xormode != 0
      let color := fb.mColorMap (fb.fgColoridx &&& ~~~xormode)
      if fb.InBound x y ∧ fb.InBound (x + font.width - 1) (y + font.height - 1) then
        return (List.range font.height).foldl (fun m (fontRow : ℕ) =>
          drawRow xor color top font.width (fb.fbAddr x (y + fontRow)) (rowData fontBuf fontRow)
            m) m
      else return m

/-- `fb_draw_ascii_char` -/
def fbDrawAsciiChar : LS1xFb → ℤ → ℤ → Ptr → Vram → Option Vram :=
  drawChar 7 fun fontBuf row => (fontBuf row).toNat

/-- `fb_draw_gb2312_char` -/
def fbDrawGb2312Char : LS1xFb → ℤ → ℤ → Ptr → Vram → Option Vram :=
  drawChar 15 fun fontBuf row => (fontBuf (2 * row)).toNat <<< 8 ||| (fontBuf (2 * row + 1)).toNat

/-- `draw_font` -/
def Font.drawFont : Font → LS1xFb → ℤ → ℤ → Ptr → Vram → Option Vram
  | asc => fbDrawAsciiChar
  | song => fbDrawGb2312Char

/-! ### Strings -/

/-- The variables of `fb_textout`: `pch - str`, `dx` and the memory. -/
structure TextState where
  pch : ℕ
  dx : Int32
  vram : Vram

/-- A round of the loop in `fb_textout`. -/
def textoutStep (fb : LS1xFb) (x y : Int32) (str : CString) (s : TextState) :
    Option (Option TextState) := do
  let pch := str.ptr s.pch
  if (← pch 0) = 0 then return none
  else
    match ← getFontDesc pch with
    | some font =>
      let vram ← font.drawFont fb (x + s.dx).toInt y.toInt pch s.vram
      return some ⟨s.pch + font.getCharSize, s.dx + .ofNat font.width, vram⟩
    | none => return some ⟨s.pch + 1, s.dx + .ofNat consFontWidth, s.vram⟩

/-- `fb_textout`, in at most `n` rounds. -/
def fbTextout (n : ℕ) (fb : LS1xFb) (x y : Int32) (str : CString) (m : Vram) : Option TextState :=
  loop (textoutStep fb x y str) n ⟨0, 0, m⟩

/-- `fb_put_string`; the colour is put back after it. -/
def fbPutString (n : ℕ) (fb : LS1xFb) (x y : Int32) (str : CString) (coloridx : UInt32) (m : Vram) :
    Option (LS1xFb × TextState) := do
  let savedColoridx := fb.fgColoridx
  let fb := { fb with fgColoridx := coloridx }
  let s ← fbTextout n fb x y str m
  return ({ fb with fgColoridx := savedColoridx }, s)

/-- `fb_put_string_center` -/
def fbPutStringCenter (n : ℕ) (fb : LS1xFb) (x y : Int32) (str : CString) (coloridx : UInt32)
    (m : Vram) : Option (LS1xFb × TextState) :=
  let x := x - .ofNat (str.bytes.length * consFontWidth / 2)
  let y := y - .ofNat (consFontHeight / 2)
  fbPutString n fb x y str coloridx m

end SortingLine.Fb
