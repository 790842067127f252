import Mathlib.Data.Nat.Notation

/-!
# The fonts

`font_desc.c` with the fonts that are configured: `asc_iso8859_8x16` for the characters up to `0x7F`
and `gb2312_song_16x16` for those of two bytes.  A pointer is what can be read from it on, so that
reading further than a string goes is seen.
-/

namespace SortingLine.Fb

/-- `_RamSize` of `ld.script`, in bytes. -/
def ramSize : ℕ := 64 * 1024 * 1024

/-- A string in memory, up to its NUL. -/
structure CString where
  bytes : List UInt8
  ne_zero : ∀ c ∈ bytes, c ≠ 0
  length_lt : bytes.length < ramSize

/-- What can be read through a pointer. -/
abbrev Ptr := ℕ → Option UInt8

/-- The pointer `str + i`: nothing is read behind the NUL. -/
def CString.ptr (str : CString) (i : ℕ) : Ptr := fun j => (str.bytes ++ [0])[i + j]?

/-- A pointer to a single character. -/
def ptrTo (chr : UInt8) : Ptr := fun j => [chr][j]?

/-- `IS_GB2312_CHAR` -/
def isGb2312Char (ch1 ch2 : UInt8) : Bool :=
  ((0xA1 ≤ ch1 && ch1 ≤ 0xA9) || (0xB0 ≤ ch1 && ch1 ≤ 0xF7)) && 0xA1 ≤ ch2 && ch2 ≤ 0xFE

/-- The entries of `font16_descs`. -/
inductive Font
  | asc
  | song
deriving DecidableEq

namespace Font

/-- `width` -/
def width : Font → ℕ
  | asc => 8
  | song => 16

/-- `height` -/
def height : Font → ℕ
  | asc => 16
  | song => 16

/-- `get_char_size` -/
def getCharSize : Font → ℕ
  | asc => 1
  | song => 2

/-- `char_in_this`: true for the 0 of the source. -/
def charInThis : Font → Ptr → Option Bool
  | asc, str => do
    let ch ← str 0
    return ch ≤ 0x7F
  | song, str => do
    let ch1 ← str 0
    let ch2 ← str 1
    return isGb2312Char ch1 ch2

/-- `get_font_data`: where the character begins in the table of the font. -/
def getFontData : Font → Ptr → Option (Option ℕ)
  | asc, str => do
    let ch ← str 0
    return if 0x7F < ch then none else some (ch.toNat * 16)
  | song, str => do
    let ch1 ← str 0
    let ch2 ← str 1
    let area := ch1.toNat - 0xA1
    let offset :=
      if area < 9 then area * 94 + ch2.toNat - 0xA1
      else if 15 ≤ area then (area - 6) * 94 + ch2.toNat - 0xA1
      else 0
    return if isGb2312Char ch1 ch2 then some (offset * 32) else none

end Font

/-- `get_font_desc`, without the outline fonts. -/
def getFontDesc (str : Ptr) : Option (Option Font) := do
  if ← Font.asc.charInThis str then return some .asc
  else if ← Font.song.charInThis str then return some .song
  else return none

end SortingLine.Fb
