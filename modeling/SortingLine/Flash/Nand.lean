import SortingLine.Flash.Ecc
import Mathlib.Algebra.Group.Nat.Defs

/-!
# The NAND controller

`ls1x_nand.c` for the LS1B, down to its registers: which bytes of which page a transfer is set up
for, how its end is waited for, and what the driver returns.  The controller is known by what its
command register reads (`Hw.cmd`): a transfer is complete when the register says so in time.  The
bytes of a page are its 2048 main bytes followed by its 64 spare bytes.

`addr_h` and `addr_l` are the two words of one address, in which the page number stands above the
column: above 11 bits of it in a transfer of main bytes alone, else above 12.

The DMA engine clears its start bit.  What is counted for statistics, the timing register and the
caches are left out.
-/

namespace SortingLine.Nand

open Flash

/-! ### Constants -/

/-- `BYTES_OF_PAGE` -/
def bytesOfPage : BitVec 32 := 0x800

/-- `OOBBYTES_OF_PAGE` -/
def oobbytesOfPage : BitVec 32 := 0x40

/-- `FULL_PAGE_SIZE` -/
def fullPageSize : BitVec 32 := bytesOfPage + oobbytesOfPage

/-- `PAGES_OF_CHIP` -/
def pagesOfChip : BitVec 32 := 0x10000

/-- `NAND_OP_MAIN` -/
def opMain : BitVec 32 := 0x0001

/-- `NAND_OP_SPARE` -/
def opSpare : BitVec 32 := 0x0002

/-- `nand_cmd_rdy_0` -/
def cmdRdy0 : BitVec 32 := 0x10000

/-- `nand_cmd_done` -/
def cmdDone : BitVec 32 := 0x400

/-- `nand_cmd_spare` -/
def cmdSpare : BitVec 32 := 0x200

/-- `nand_cmd_main` -/
def cmdMain : BitVec 32 := 0x100

/-- `nand_cmd_erase_1` -/
def cmdErase1 : BitVec 32 := 0x8

/-- `nand_cmd_write` -/
def cmdWrite : BitVec 32 := 0x4

/-- `nand_cmd_read` -/
def cmdRead : BitVec 32 := 0x2

/-- `nand_cmd_start` -/
def cmdStart : BitVec 32 := 0x1

/-- `ETIMEDOUT`, as in `libc_errno.h`; that it is more than 1 is all that matters. -/
def etimedout : Int := 110

/-- `EINVAL` -/
def einval : Int := 22

/-- `EFAULT` -/
def efault : Int := 14

/-- `ENODATA` -/
def enodata : Int := 61

/-! ### Set-up of a transfer -/

/-- What `LS1x_NAND_calc_rw_size` stores through its last three pointers. -/
structure RwSize where
  cmd : BitVec 32
  offset : BitVec 32
  rwsize : BitVec 32

/-- `(bufSize < remain_size) ? bufSize : remain_size`; the signed operand is converted. -/
def clip (bufSize remainSize : BitVec 32) : BitVec 32 :=
  if bufSize < remainSize then bufSize else remainSize

/-- `LS1x_NAND_calc_rw_size`, with `*offset` 0 before. -/
def calcRwSize (bufSize colAddr opFlags cmd : BitVec 32) : RwSize :=
  if bufSize = 0 ∨ (opFlags = opMain ∧ bytesOfPage ≤ colAddr) ∨
      (opFlags = opSpare ∧ oobbytesOfPage ≤ colAddr) ∨
      (opFlags = opMain ||| opSpare ∧ fullPageSize ≤ colAddr) then
    { cmd, offset := 0, rwsize := 0 }
  else if opFlags = opMain then
    { cmd := cmd ||| cmdMain
      offset := colAddr
      rwsize := clip bufSize (bytesOfPage - colAddr) }
  else if opFlags = opSpare then
    { cmd := cmd ||| cmdSpare
      offset := colAddr
      rwsize := clip bufSize (oobbytesOfPage - colAddr) }
  else if opFlags = opMain ||| opSpare then
    if bufSize + colAddr < bytesOfPage then
      -- High-boundary in "main" area
      { cmd := cmd ||| cmdMain
        offset := colAddr
        rwsize := clip bufSize (bytesOfPage - colAddr) }
    else if colAddr < bytesOfPage then
      -- Low-boundary in "main" area
      { cmd := cmd ||| (cmdMain ||| cmdSpare)
        offset := colAddr
        rwsize := clip bufSize (fullPageSize - colAddr) }
    else
      -- Low-boundary in "spare" area
      { cmd := cmd ||| cmdSpare
        offset := colAddr - bytesOfPage
        rwsize := clip bufSize (oobbytesOfPage - (colAddr - bytesOfPage)) }
  else { cmd, offset := 0, rwsize := 0 }

/-- The registers of the controller that a command uses. -/
structure Regs where
  cmd : BitVec 32
  addrL : BitVec 32
  addrH : BitVec 32
  opnum : BitVec 32

/-- `MAIN_ADDRH` -/
def mainAddrH (page : BitVec 32) : BitVec 32 := page >>> 21

/-- `MAIN_ADDRL` -/
def mainAddrL (page : BitVec 32) : BitVec 32 := page <<< 11

/-- `MAIN_SPARE_ADDRH` -/
def mainSpareAddrH (page : BitVec 32) : BitVec 32 := page >>> 20

/-- `MAIN_SPARE_ADDRL` -/
def mainSpareAddrL (page : BitVec 32) : BitVec 32 := page <<< 12

/-- `LS1x_NAND_send_rw_command` -/
def sendRwCommand (regs : Regs) (pageNum offset nandCmd : BitVec 32) : Regs :=
  { regs with
    cmd := nandCmd &&& (cmdSpare ||| cmdMain ||| cmdWrite ||| cmdRead)
    addrH := if cmdSpare &&& nandCmd ≠ 0 then mainSpareAddrH pageNum else mainAddrH pageNum
    addrL :=
      if cmdSpare &&& nandCmd ≠ 0 then
        if cmdMain &&& nandCmd ≠ 0 then mainSpareAddrL pageNum + offset
        else mainSpareAddrL pageNum + bytesOfPage + offset
      else mainAddrL pageNum + offset }

/-- `LS1x_NAND_cmd_start` -/
def cmdStarted (regs : Regs) : Regs := { regs with cmd := regs.cmd ||| cmdStart }

/-! ### The controller -/

/-- The address in the two address registers. -/
def Regs.address (regs : Regs) : ℕ := regs.addrH.toNat * 2 ^ 32 + regs.addrL.toNat

/-- How many bits of the address the column has. -/
def Regs.shift (regs : Regs) : ℕ := if cmdSpare &&& regs.cmd ≠ 0 then 12 else 11

/-- The page that a command is about. -/
def Regs.page (regs : Regs) : ℕ := regs.address / 2 ^ regs.shift

/-- The column that a transfer starts at. -/
def Regs.column (regs : Regs) : ℕ := regs.address % 2 ^ regs.shift

/-- The chip and the controller: the bytes of each page, what the command register reads, poll by
poll, and what a read that is not complete in time leaves in the DMA buffer. -/
structure Hw where
  page : ℕ → Buf
  cmd : ℕ → BitVec 32
  aborted : Buf

/-- What a command does that is complete. -/
inductive Op
  | read (page column : ℕ) (bytes : List (BitVec 8))
  | write (page column : ℕ) (bytes : List (BitVec 8))
  | erase (page : ℕ)
deriving DecidableEq

/-- A command that was started, and if it was complete in time. -/
structure Command where
  op : Op
  done : Bool
deriving DecidableEq

/-- `LS1x_NAND_dev_t`, and all commands that were started so far. -/
structure Dev where
  regs : Regs
  dmaBuf : Buf
  commands : List Command

/-- The loop of `LS1x_NAND_waitdone`: `n` passes from poll `i` on. -/
def waitLoop (cmd : ℕ → BitVec 32) : ℕ → ℕ → Int
  | _, 0 => -etimedout
  | i, n + 1 =>
    if cmd i &&& cmdDone ≠ 0 ∧ cmd i &&& cmdRdy0 ≠ 0 then 0 else waitLoop cmd (i + 1) n

/-- `LS1x_NAND_waitdone`; the register is read every 10 us. -/
def waitdone (cmd : ℕ → BitVec 32) (timeoutUs : ℕ) : Int := waitLoop cmd 0 ((timeoutUs + 9) / 10)

/-- `n` bytes from a pointer on. -/
def bytesAt (buf : Buf) (n : ℕ) : List (BitVec 8) := (List.range n).map buf

/-- The buffer that a caller of `LS1x_NAND_read_page` gives. -/
inductive Target
  | null
  | dmaBuf
  | user (buf : Buf)

/-! ### Reading and writing pages -/

/-- What `LS1x_NAND_read_page` returns, stores in `*rdSize` and leaves in the buffer given. -/
structure ReadPage where
  rt : Int
  rdSize : BitVec 32
  target : Target
  dev : Dev

/-- `LS1x_NAND_read_page` -/
def readPage (hw : Hw) (dev : Dev) (pageNum colAddr : BitVec 32) (dataBuf : Target)
    (bufSize opFlags : BitVec 32) : ReadPage :=
  if pagesOfChip ≤ pageNum then { rt := -einval, rdSize := 0, target := dataBuf, dev }
  else if dataBuf matches .null then { rt := -efault, rdSize := 0, target := dataBuf, dev }
  else
    let rw := calcRwSize bufSize colAddr opFlags cmdRead
    if rw.rwsize = 0 then { rt := -enodata, rdSize := 0, target := dataBuf, dev }
    else
      let regs := cmdStarted
        (sendRwCommand { dev.regs with opnum := rw.rwsize } pageNum rw.offset rw.cmd)
      let rt := -waitdone hw.cmd 400
      let src : Buf := fun i => hw.page regs.page (regs.column + i)
      let op := Op.read regs.page regs.column (bytesAt src regs.opnum.toNat)
      if rt = 0 then
        let dmaBuf := copyAt dev.dmaBuf 0 regs.opnum.toNat src
        let dev := { regs, dmaBuf, commands := dev.commands ++ [⟨op, true⟩] }
        match dataBuf with
        | .user buf =>
          { rt, rdSize := rw.rwsize, target := .user (copyAt buf 0 rw.rwsize.toNat dmaBuf), dev }
        | _ => { rt, rdSize := 0, target := dataBuf, dev }
      else
        -- the cancel command of `LS1x_NAND_waitdone` is what is left in the register
        let regs := { regs with cmd := cmdDone }
        let dev := { regs, dmaBuf := hw.aborted, commands := dev.commands ++ [⟨op, false⟩] }
        { rt, rdSize := 0, target := dataBuf, dev }

/-- What `LS1x_NAND_write_page` returns and stores in `*wrSize`. -/
structure WritePage where
  rt : Int
  wrSize : BitVec 32
  dev : Dev

/-- `LS1x_NAND_write_page` -/
def writePage (hw : Hw) (dev : Dev) (pageNum colAddr : BitVec 32) (dataBuf : Option Buf)
    (bufSize opFlags : BitVec 32) : WritePage :=
  if pagesOfChip ≤ pageNum then { rt := -einval, wrSize := 0, dev }
  else
    match dataBuf with
    | none => { rt := -efault, wrSize := 0, dev }
    | some dataBuf =>
      let rw := calcRwSize bufSize colAddr opFlags cmdWrite
      if rw.rwsize = 0 then { rt := -enodata, wrSize := 0, dev }
      else
        let dmaBuf := copyAt dev.dmaBuf 0 rw.rwsize.toNat dataBuf
        let regs := cmdStarted
          (sendRwCommand { dev.regs with opnum := rw.rwsize } pageNum rw.offset rw.cmd)
        let rt := -waitdone hw.cmd 1000
        let op := Op.write regs.page regs.column (bytesAt dmaBuf regs.opnum.toNat)
        let regs := if rt = 0 then regs else { regs with cmd := cmdDone }
        { rt
          wrSize := bufSize
          dev := { regs, dmaBuf, commands := dev.commands ++ [⟨op, decide (rt = 0)⟩] } }

/-! ### Driver entries -/

/-- `NAND_PARAM_t` -/
structure NandParam where
  pageNum : BitVec 32
  colAddr : BitVec 32
  opFlags : BitVec 32

/-- `LS1x_NAND_read`, `dev` not null: the value returned, the buffer and the device. -/
def nandRead (hw : Hw) (dev : Dev) (buf : Option Buf) (size : BitVec 32)
    (param : Option NandParam) : Int × Option Buf × Dev :=
  match buf, param with
  | none, _ => (-1, none, dev)
  | some buf, none => (-einval, some buf, dev)
  | some buf, some param =>
    if size &&& 0x03 ≠ 0 then (-efault, some buf, dev)
    else
      let r := readPage hw dev param.pageNum param.colAddr (.user buf) size param.opFlags
      let buf := match r.target with
        | .user buf => buf
        | _ => buf
      if r.rt = 0 then (r.rdSize.toInt, some buf, r.dev) else (r.rt, some buf, r.dev)

/-- `LS1x_NAND_write`, `dev` not null: the value returned, and the device. -/
def nandWrite (hw : Hw) (dev : Dev) (buf : Option Buf) (size : BitVec 32)
    (param : Option NandParam) : Int × Dev :=
  match buf, param with
  | none, _ => (-1, dev)
  | some _, none => (-einval, dev)
  | some buf, some param =>
    if size &&& 0x03 ≠ 0 then (-efault, dev)
    else
      let r := writePage hw dev param.pageNum param.colAddr (some buf) size param.opFlags
      if r.rt = 0 then (r.wrSize.toInt, r.dev) else (r.rt, r.dev)

end SortingLine.Nand
