import SortingLine.Fb.Text

/-!
# The screen console

`fb_cons_putc`, `fb_cons_puts` and `fb_cons_scroll` of `ls1x_fb_utils.c`.  `Rows`, `Cols` and the
cursor are `unsigned int`, so what is below 0 is large.  `COL_GAP` and `ROW_GAP` are 0.
-/

namespace SortingLine.Fb

/-- `LS1x_FB_t` without the cursor. -/
structure Cons extends LS1xFb where
  bgColoridx : UInt32
  rows : UInt32
  cols : UInt32

/-- The cursor, with the memory. -/
structure ConsState where
  curRow : UInt32
  curCol : UInt32
  vram : Vram

/-! ### Scrolling -/

/-- `FB_ADDR_ASC` -/
def Screen.fbAddrAsc (fb : Screen) (r c : UInt32) : UInt32 :=
  (r * .ofNat fb.xres * .ofNat consFontHeight + c * .ofNat consFontWidth) * 2

/-- `fb_cons_clear_row` -/
def fbConsClearRow (fb : Cons) (row : UInt32) (m : Vram) : Vram :=
  let memAddr := fb.fbAddrAsc row 0
  let wr16 := fb.mColorMap fb.bgColoridx
  (List.range (fb.xres * consFontHeight)).foldl (fun m (i : ℕ) =>
    wrFb16 ((memAddr + .ofNat (2 * i)).toNat) wr16 m) m

/-- `*pdest = *psrc` for two words. -/
def copyWord (pdest psrc : ℤ) (m : Vram) : Vram := fun a =>
  if pdest ≤ a ∧ a < pdest + 4 then m (psrc + (a - pdest)) else m a

/-- The rows of the screen are moved up by one. -/
def moveRowsUp (fb : Cons) (m : Vram) : Vram :=
  let count := UInt32.ofNat fb.xres * (.ofNat fb.yres - .ofNat consFontHeight) * 2 / 4
  (List.range count.toNat).foldl (fun m (i : ℕ) =>
    copyWord (4 * i) ((fb.fbAddrAsc 1 0).toNat + 4 * i) m) m

/-- `fb_cons_scroll` -/
def fbConsScroll (fb : Cons) (s : ConsState) : ConsState :=
  let curRow := s.curRow + 1
  if fb.rows - 1 < curRow then
    ⟨curRow - 1, 0, fbConsClearRow fb (curRow - 1) (moveRowsUp fb s.vram)⟩
  else { s with curRow }

/-! ### Output -/

/-- A character at the cursor. -/
def drawAtCursor (fb : Cons) (font : Font) (chr : Ptr) (s : ConsState) : Option ConsState := do
  let x := (s.curCol * .ofNat consFontWidth).toInt32
  let y := (s.curRow * .ofNat consFontHeight).toInt32
  let vram ← font.drawFont fb.toLS1xFb x.toInt y.toInt chr s.vram
  return { s with vram }

/-- The cursor moves on by some columns, and to the next row when it is at `Cols`. -/
def advance (fb : Cons) (n : UInt32) (s : ConsState) : ConsState :=
  let s := { s with curCol := s.curCol + n }
  if s.curCol = fb.cols then fbConsScroll fb { s with curCol := 0 } else s

/-- `fb_cons_putc` -/
def fbConsPutc (fb : Cons) (chr : UInt8) (s : ConsState) : Option ConsState := do
  -- `'\r'`, `'\n'`, `'\b'`
  if chr = 0x0D then return { s with curCol := 0 }
  else if chr = 0x0A then return fbConsScroll fb { s with curCol := 0 }
  else if chr = 0x08 then
    let s := { s with curCol := s.curCol - 1 }
    let s :=
      if s.curCol < 0 then
        let s := { s with curRow := s.curRow - 1 }
        let s := if s.curRow < 0 then { s with curRow := 0 } else s
        { s with curCol := fb.cols - 1 }
      else s
    match ← getFontDesc (ptrTo 20) with
    | some font => drawAtCursor fb font (ptrTo 20) s
    | none => return s
  else
    match ← getFontDesc (ptrTo chr) with
    | none => return s
    | some font =>
      let s ← drawAtCursor fb font (ptrTo chr) s
      return advance fb 1 s

/-- The variables of `fb_cons_puts`: `pch - str`, with the console. -/
structure PutsState where
  pch : ℕ
  cons : ConsState

/-- A round of the loop in `fb_cons_puts`. -/
def putsStep (fb : Cons) (str : CString) (s : PutsState) : Option (Option PutsState) := do
  let pch := str.ptr s.pch
  let chr ← pch 0
  if chr = 0 then return none
  else if chr &&& 0x80 = 0 then
    let cons ← fbConsPutc fb chr s.cons
    return some ⟨s.pch + 1, cons⟩
  else
    match ← getFontDesc pch with
    | some font =>
      let cons :=
        if fb.cols - s.cons.curCol < 2 then fbConsScroll fb { s.cons with curCol := 0 } else s.cons
      let cons ← drawAtCursor fb font pch cons
      return some ⟨s.pch + 2, advance fb 2 cons⟩
    | none =>
      -- `'?'`, twice
      let cons ← fbConsPutc fb 0x3F s.cons
      let cons ← fbConsPutc fb 0x3F cons
      return some ⟨s.pch + 2, cons⟩

/-- `fb_cons_puts`, in at most `n` rounds. -/
def fbConsPuts (n : ℕ) (fb : Cons) (str : CString) (cons : ConsState) : Option PutsState :=
  loop (putsStep fb str) n ⟨0, cons⟩

end SortingLine.Fb
