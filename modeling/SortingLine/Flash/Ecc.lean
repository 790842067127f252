import Mathlib.Logic.Function.Basic
import Mathlib.Data.List.Basic

/-!
# The software ECC

`ls1x_nand_ecc.c`: three bytes of parities for each 256 bytes of a page.  The code takes pointers to
buffers whose length it is told or takes for granted; here such a buffer is a function that gives
the byte at each offset from the pointer.
-/

namespace SortingLine.Flash

/-- The bytes from a pointer on. -/
abbrev Buf := ℕ → BitVec 8

/-- `nand_ecc_precalc_table` -/
def nandEccPrecalcTable : List (BitVec 8) :=
  [0x00, 0x55, 0x56, 0x03, 0x59, 0x0c, 0x0f, 0x5a, 0x5a, 0x0f, 0x0c, 0x59, 0x03, 0x56, 0x55, 0x00,
    0x65, 0x30, 0x33, 0x66, 0x3c, 0x69, 0x6a, 0x3f, 0x3f, 0x6a, 0x69, 0x3c, 0x66, 0x33, 0x30, 0x65,
    0x66, 0x33, 0x30, 0x65, 0x3f, 0x6a, 0x69, 0x3c, 0x3c, 0x69, 0x6a, 0x3f, 0x65, 0x30, 0x33, 0x66,
    0x03, 0x56, 0x55, 0x00, 0x5a, 0x0f, 0x0c, 0x59, 0x59, 0x0c, 0x0f, 0x5a, 0x00, 0x55, 0x56, 0x03,
    0x69, 0x3c, 0x3f, 0x6a, 0x30, 0x65, 0x66, 0x33, 0x33, 0x66, 0x65, 0x30, 0x6a, 0x3f, 0x3c, 0x69,
    0x0c, 0x59, 0x5a, 0x0f, 0x55, 0x00, 0x03, 0x56, 0x56, 0x03, 0x00, 0x55, 0x0f, 0x5a, 0x59, 0x0c,
    0x0f, 0x5a, 0x59, 0x0c, 0x56, 0x03, 0x00, 0x55, 0x55, 0x00, 0x03, 0x56, 0x0c, 0x59, 0x5a, 0x0f,
    0x6a, 0x3f, 0x3c, 0x69, 0x33, 0x66, 0x65, 0x30, 0x30, 0x65, 0x66, 0x33, 0x69, 0x3c, 0x3f, 0x6a,
    0x6a, 0x3f, 0x3c, 0x69, 0x33, 0x66, 0x65, 0x30, 0x30, 0x65, 0x66, 0x33, 0x69, 0x3c, 0x3f, 0x6a,
    0x0f, 0x5a, 0x59, 0x0c, 0x56, 0x03, 0x00, 0x55, 0x55, 0x00, 0x03, 0x56, 0x0c, 0x59, 0x5a, 0x0f,
    0x0c, 0x59, 0x5a, 0x0f, 0x55, 0x00, 0x03, 0x56, 0x56, 0x03, 0x00, 0x55, 0x0f, 0x5a, 0x59, 0x0c,
    0x69, 0x3c, 0x3f, 0x6a, 0x30, 0x65, 0x66, 0x33, 0x33, 0x66, 0x65, 0x30, 0x6a, 0x3f, 0x3c, 0x69,
    0x03, 0x56, 0x55, 0x00, 0x5a, 0x0f, 0x0c, 0x59, 0x59, 0x0c, 0x0f, 0x5a, 0x00, 0x55, 0x56, 0x03,
    0x66, 0x33, 0x30, 0x65, 0x3f, 0x6a, 0x69, 0x3c, 0x3c, 0x69, 0x6a, 0x3f, 0x65, 0x30, 0x33, 0x66,
    0x65, 0x30, 0x33, 0x66, 0x3c, 0x69, 0x6a, 0x3f, 0x3f, 0x6a, 0x69, 0x3c, 0x66, 0x33, 0x30, 0x65,
    0x00, 0x55, 0x56, 0x03, 0x59, 0x0c, 0x0f, 0x5a, 0x5a, 0x0f, 0x0c, 0x59, 0x03, 0x56, 0x55, 0x00]

/-- The table entry of a byte. -/
def precalc (b : BitVec 8) : BitVec 8 := nandEccPrecalcTable.getD b.toNat 0

/-! ### Calculation -/

/-- The registers of `nand_calculate_ecc`: column parities, and the line parities with the line
number inverted and not. -/
structure EccRegs where
  reg1 : BitVec 8
  reg2 : BitVec 8
  reg3 : BitVec 8

/-- The three bytes of an ECC. -/
structure Ecc where
  c0 : BitVec 8
  c1 : BitVec 8
  c2 : BitVec 8
deriving DecidableEq

/-- One pass of the loop that builds up the parities. -/
def eccStep (dat : Buf) (r : EccRegs) (i : ℕ) : EccRegs :=
  let idx := precalc (dat i)
  let r := { r with reg1 := r.reg1 ^^^ (idx &&& 0x3f#8) }
  if idx &&& 0x40#8 ≠ 0 then
    { r with reg3 := r.reg3 ^^^ BitVec.ofNat 8 i, reg2 := r.reg2 ^^^ ~~~ BitVec.ofNat 8 i }
  else r

/-- `tmp1`: the upper halves of the line parities, interleaved. -/
def tmp1 (reg2 reg3 : BitVec 8) : BitVec 8 :=
  (reg3 &&& 0x80#8) ||| (reg2 &&& 0x80#8) >>> 1 ||| (reg3 &&& 0x40#8) >>> 1 |||
    (reg2 &&& 0x40#8) >>> 2 ||| (reg3 &&& 0x20#8) >>> 2 ||| (reg2 &&& 0x20#8) >>> 3 |||
    (reg3 &&& 0x10#8) >>> 3 ||| (reg2 &&& 0x10#8) >>> 4

/-- `tmp2`: the lower halves of the line parities, interleaved. -/
def tmp2 (reg2 reg3 : BitVec 8) : BitVec 8 :=
  (reg3 &&& 0x08#8) <<< 4 ||| (reg2 &&& 0x08#8) <<< 3 ||| (reg3 &&& 0x04#8) <<< 3 |||
    (reg2 &&& 0x04#8) <<< 2 ||| (reg3 &&& 0x02#8) <<< 2 ||| (reg2 &&& 0x02#8) <<< 1 |||
    (reg3 &&& 0x01#8) <<< 1 ||| (reg2 &&& 0x01#8)

/-- The final ECC code. -/
def EccRegs.code (r : EccRegs) : Ecc where
  c0 := ~~~ tmp1 r.reg2 r.reg3
  c1 := ~~~ tmp2 r.reg2 r.reg3
  c2 := (~~~ r.reg1) <<< 2 ||| 0x03#8

/-- `nand_calculate_ecc` -/
def nandCalculateEcc (dat : Buf) : Ecc :=
  ((List.range 256).foldl (eccStep dat) { reg1 := 0, reg2 := 0, reg3 := 0 }).code

/-! ### Correction -/

/-- The loop of `countbits`; after 32 shifts nothing is left. -/
def countbitsLoop : ℕ → BitVec 32 → ℕ
  | 0, _ => 0
  | n + 1, byte => if byte = 0 then 0 else (byte &&& 1).toNat + countbitsLoop n (byte >>> 1)

/-- `countbits` -/
def countbits (byte : BitVec 32) : ℕ := countbitsLoop 32 byte

/-- `Check for a single bit error`: of each pair of parities just one differs. -/
def SingleBitError (s0 s1 s2 : BitVec 8) : Prop :=
  (s0 ^^^ s0 >>> 1) &&& 0x55#8 = 0x55#8 ∧ (s1 ^^^ s1 >>> 1) &&& 0x55#8 = 0x55#8 ∧
    (s2 ^^^ s2 >>> 1) &&& 0x54#8 = 0x54#8

instance (s0 s1 s2 : BitVec 8) : Decidable (SingleBitError s0 s1 s2) :=
  inferInstanceAs (Decidable (_ ∧ _))

/-- The offset of the byte that is wrong. -/
def byteoffs (s0 s1 : BitVec 8) : BitVec 8 :=
  (s1 &&& 0x80#8) ||| (s1 <<< 1 &&& 0x40#8) ||| (s1 <<< 2 &&& 0x20#8) |||
    (s1 <<< 3 &&& 0x10#8) ||| (s0 >>> 4 &&& 0x08#8) ||| (s0 >>> 3 &&& 0x04#8) |||
    (s0 >>> 2 &&& 0x02#8) ||| (s0 >>> 1 &&& 0x01#8)

/-- The number of the bit that is wrong. -/
def bitnum (s2 : BitVec 8) : BitVec 8 :=
  (s2 >>> 5 &&& 0x04#8) ||| (s2 >>> 4 &&& 0x02#8) ||| (s2 >>> 3 &&& 0x01#8)

/-- `nand_correct_data`: the value returned, and the block. -/
def nandCorrectData (dat : Buf) (readEcc calcEcc : Ecc) : Int × Buf :=
  let s1 := calcEcc.c0 ^^^ readEcc.c0
  let s0 := calcEcc.c1 ^^^ readEcc.c1
  let s2 := calcEcc.c2 ^^^ readEcc.c2
  if s0 ||| s1 ||| s2 = 0#8 then (0, dat)
  else if SingleBitError s0 s1 s2 then
    let k := (byteoffs s0 s1).toNat
    (1, Function.update dat k (dat k ^^^ 1#8 <<< (bitnum s2).toNat))
  else if countbits (s0.setWidth 32 ||| s1.setWidth 32 <<< 8 ||| s2.setWidth 32 <<< 16) = 1 then
    (1, dat)
  else (-1, dat)

/-! ### Pages -/

/-- The 256 bytes of step `i`. -/
def sector (buf : Buf) (i : ℕ) : Buf := fun j => buf (256 * i + j)

/-- The ECC of step `i`. -/
def eccAt (eccCode : Buf) (i : ℕ) : Ecc where
  c0 := eccCode (3 * i)
  c1 := eccCode (3 * i + 1)
  c2 := eccCode (3 * i + 2)

/-- Byte `k` of the ECC codes, one behind the other. -/
def eccByte (ecc : ℕ → Ecc) (k : ℕ) : BitVec 8 :=
  match k % 3 with
  | 0 => (ecc (k / 3)).c0
  | 1 => (ecc (k / 3)).c1
  | _ => (ecc (k / 3)).c2

/-- `src` written from offset `off` on, for `len` bytes. -/
def copyAt (buf : Buf) (off len : ℕ) (src : Buf) : Buf :=
  fun k => if off ≤ k ∧ k < off + len then src (k - off) else buf k

/-- What `nand_correct_page_swecc` changes. -/
structure Swecc where
  buf : Buf
  eccFixed : ℕ
  eccUnfixed : ℕ

/-- One pass of the correcting loop. -/
def correctStep (eccCode : Buf) (eccCalc : ℕ → Ecc) (st : Swecc) (i : ℕ) : Swecc :=
  let r := nandCorrectData (sector st.buf i) (eccAt eccCode i) (eccCalc i)
  { buf := copyAt st.buf (256 * i) 256 r.2
    eccFixed := if r.1 = 1 then st.eccFixed + 1 else st.eccFixed
    eccUnfixed := if r.1 = -1 then st.eccUnfixed + 1 else st.eccUnfixed }

/-- `nand_correct_page_swecc`: all ECCs are calculated before the first correction. -/
def nandCorrectPageSwecc (buf eccCode : Buf) (pagesize eccFixed eccUnfixed : ℕ) : Swecc :=
  (List.range (pagesize / 256)).foldl
    (correctStep eccCode fun i => nandCalculateEcc (sector buf i)) { buf, eccFixed, eccUnfixed }

/-- `nand_calculate_page_swecc`: `eccCode` with the codes of the page. -/
def nandCalculatePageSwecc (buf eccCode : Buf) (pagesize : ℕ) : Buf :=
  copyAt eccCode 0 (pagesize / 256 * 3) (eccByte fun i => nandCalculateEcc (sector buf i))

end SortingLine.Flash
