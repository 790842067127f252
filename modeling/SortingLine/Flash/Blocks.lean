import SortingLine.Flash.Chunk
import SortingLine.Flash.Nand

/-!
# Blocks of the NAND

The operations on blocks of `ls1x_nand.c`, and the two functions of `ls1x_yaffs.c` that YAFFS erases
and queries a block through.  A block is bad when the first spare byte of its first or second page
is not `0xFF`.

Each operation runs up to three commands: the reads of the two markers, and the erase or the read
of the tags.
-/

namespace SortingLine.Nand

open Flash

/-- `BLOCKS_OF_CHIP` -/
def blocksOfChip : BitVec 32 := 0x400

/-- `BLOCK_TO_PAGE` -/
def blockToPage (blkNum : BitVec 32) : BitVec 32 := blkNum <<< 6

/-- The commands of an operation on a block. -/
inductive BlockCommand
  | firstMarker
  | secondMarker
  | final
deriving DecidableEq

/-- The chip and the controller during an operation on a block: `polls k` is what the command
register reads during command `k`. -/
structure BlockHw where
  page : ℕ → Buf
  polls : BlockCommand → ℕ → BitVec 32
  aborted : BlockCommand → Buf

/-- The hardware during one of the commands. -/
def BlockHw.during (hw : BlockHw) (k : BlockCommand) : Hw where
  page := hw.page
  cmd := hw.polls k
  aborted := hw.aborted k

/-! ### The driver -/

/-- `LS1x_NAND_is_badblock`; `true` is 1. -/
def isBadblock (hw : BlockHw) (dev : Dev) (blkNum : BitVec 32) : Int × Dev :=
  let pageNum := blockToPage blkNum
  let r := readPage (hw.during .firstMarker) dev pageNum 0 .dmaBuf 8 opSpare
  let ch0 := r.dev.dmaBuf 0
  if r.rt ≠ 0 then (r.rt, r.dev)
  else
    let r := readPage (hw.during .secondMarker) r.dev (pageNum + 1) 0 .dmaBuf 8 opSpare
    let ch1 := r.dev.dmaBuf 0
    if r.rt ≠ 0 then (r.rt, r.dev)
    else if ch0 ≠ 0xFF ∨ ch1 ≠ 0xFF then (1, r.dev)
    else (0, r.dev)

/-- The end of `LS1x_NAND_erase_block`, from `pageNum = BLOCK_TO_PAGE(blkNum)` on. -/
def sendErase (hw : Hw) (dev : Dev) (blkNum : BitVec 32) : Int × Dev :=
  let pageNum := blockToPage blkNum
  let regs := cmdStarted
    { opnum := 1, addrH := mainAddrH pageNum, addrL := mainAddrL pageNum, cmd := cmdErase1 }
  let rt := -waitdone hw.cmd 10000
  (rt,
    { dev with
      regs := if rt = 0 then regs else { regs with cmd := cmdDone }
      commands := dev.commands ++ [⟨.erase regs.page, decide (rt = 0)⟩] })

/-- `LS1x_NAND_erase_block` -/
def eraseBlock (hw : BlockHw) (dev : Dev) (blkNum : BitVec 32) (checkbad : Bool) : Int × Dev :=
  if blocksOfChip ≤ blkNum then (-einval, dev)
  else if checkbad then
    let bad := isBadblock hw dev blkNum
    if bad.1 = 1 then (0, bad.2) else sendErase (hw.during .final) bad.2 blkNum
  else sendErase (hw.during .final) dev blkNum

/-! ### The file system's functions -/

/-- `ls1x_nand_EraseBlock`, and if it returns `YAFFS_OK`. -/
def ls1xNandEraseBlock (hw : BlockHw) (dev : Dev) (flashBlock : BitVec 32) : Bool × Dev :=
  let r := eraseBlock hw dev flashBlock true
  (decide (r.1 = 0), r.2)

/-- The values of `enum yaffs_block_state` that a query gives. -/
inductive YaffsBlockState
  | dead
  | needsScan
  | empty
deriving DecidableEq

/-- `ls1x_Read_ChunkAndTags` with `data` null: the tags afterwards.  `tempbuf` and `t` are what is
on the stack. -/
def readChunkTags (hw : Hw) (dev : Dev) (yaffsDev : YaffsDev) (tempbuf : Buf) (t : YaffsExtTags)
    (nandChunk : BitVec 32) : YaffsExtTags × Dev :=
  let r := nandRead hw dev (some tempbuf) (BitVec.ofNat 32 sizeofPackedTags2)
    (some { pageNum := nandChunk
            colAddr := BitVec.ofNat 32 yaffsDev.pt2Offset
            opFlags := if yaffsDev.inbandTags then opMain else opSpare })
  if r.1 = sizeofPackedTags2 then
    (yaffsUnpackTags2 (getPacked (r.2.1.getD tempbuf) 0), r.2.2)
  else (t, r.2.2)

/-- What `ls1x_Query_Block` returns and stores. -/
structure QueryBlock where
  ok : Bool
  state : YaffsBlockState
  seqNumber : BitVec 32
  dev : Dev

/-- `ls1x_Query_Block` -/
def ls1xQueryBlock (hw : BlockHw) (dev : Dev) (yaffsDev : YaffsDev) (tempbuf : Buf)
    (t : YaffsExtTags) (blockNo : BitVec 32) : QueryBlock :=
  let bad := isBadblock hw dev blockNo
  if bad.1 ≠ 0 then { ok := false, state := .dead, seqNumber := 0, dev := bad.2 }
  else
    let r := readChunkTags (hw.during .final) bad.2 yaffsDev tempbuf t (blockNo * 64)
    if r.1.chunkUsed ≠ 0 then
      { ok := true, state := .needsScan, seqNumber := r.1.seqNumber, dev := r.2 }
    else { ok := true, state := .empty, seqNumber := 0, dev := r.2 }

end SortingLine.Nand
