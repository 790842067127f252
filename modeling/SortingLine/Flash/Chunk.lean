import SortingLine.Flash.Tags

/-!
# Reading and writing chunks

`ls1x_Read_ChunkAndTags` and `ls1x_Write_ChunkAndTags`.  A page is its 2048 main bytes followed by
its 64 spare bytes, the last 24 of which hold the ECCs.  The NAND driver is known by the values it
returns; a transfer that returns its size has moved the bytes unchanged, and one that does not ends
the call, so what it has moved does not matter.

The device has `no_tags_ecc` set, as the port sets it: the tags have no ECC of their own.
-/

namespace SortingLine.Flash

/-- `BYTES_OF_PAGE` -/
def bytesOfPage : ℕ := 2048

/-- `OOBBYTES_OF_PAGE` -/
def oobbytesOfPage : ℕ := 64

/-- `ecc_len` -/
def eccLen : ℕ := bytesOfPage / 256 * 3

/-- `ecc_offset` -/
def eccOffset : ℕ := oobbytesOfPage - eccLen

/-- `BAD_FLAG_OFFSET + BAD_FLAG_LEN` -/
def badFlagEnd : ℕ := 4

/-- `opFlags` of a transfer. -/
inductive NandOp
  /-- `NAND_OP_MAIN` -/
  | main
  /-- `NAND_OP_SPARE` -/
  | spare
  /-- `NAND_OP_MAIN | NAND_OP_SPARE` -/
  | mainSpare
deriving DecidableEq

/-- Where in a page the area of an operation starts. -/
def NandOp.start : NandOp → ℕ
  | .main | .mainSpare => 0
  | .spare => bytesOfPage

/-- The return values of the driver, by operation and size. -/
abbrev NandReturns := NandOp → ℕ → Int

/-- Every transfer returns its size. -/
def faithful : NandReturns := fun _ size => size

/-- What a complete read from a column on delivers. -/
def nandRead (page : Buf) (op : NandOp) (column : ℕ) : Buf := fun i => page (op.start + column + i)

/-- The page after a complete write. -/
def nandWrite (page : Buf) (op : NandOp) (buf : Buf) (size : ℕ) : Buf :=
  copyAt page op.start size buf

/-- `struct yaffs_dev`, as far as the two functions use it. -/
structure YaffsDev where
  inbandTags : Bool
  dataBytesPerChunk : ℕ
  nEccFixed : BitVec 32
  nEccUnfixed : BitVec 32
deriving DecidableEq

/-- The device that `LS1x_initialize_YAFFS` and `yaffs_guts_initialise` configure. -/
def YaffsDev.configured (nEccFixed nEccUnfixed : BitVec 32) : YaffsDev where
  inbandTags := true
  dataBytesPerChunk := bytesOfPage - sizeofPackedTags2
  nEccFixed
  nEccUnfixed

/-- `pt2_offset` -/
def YaffsDev.pt2Offset (dev : YaffsDev) : ℕ :=
  if dev.inbandTags then dev.dataBytesPerChunk else badFlagEnd

/-! ### Reading -/

/-- The transfers of a read: `data`, if it is not null, and `tempbuf`. -/
def readTransfers (dev : YaffsDev) (fullpage data tags : Bool) (rt : NandReturns) (page : Buf) :
    Option (Option Buf × Buf) :=
  if data then
    if fullpage then
      if rt .mainSpare (bytesOfPage + oobbytesOfPage) = bytesOfPage + oobbytesOfPage then
        let full := nandRead page .mainSpare 0
        some (some full, fun i => full (bytesOfPage + i))
      else none
    else if rt .main bytesOfPage = bytesOfPage then
      if rt .spare oobbytesOfPage = oobbytesOfPage then
        some (some (nandRead page .main 0), nandRead page .spare 0)
      else none
    else none
  else if tags then
    let op := if dev.inbandTags then NandOp.main else .spare
    if rt op sizeofPackedTags2 = sizeofPackedTags2 then
      some (none, nandRead page op dev.pt2Offset)
    else none
  else none

/-- `unpack the tags` -/
def readTags (dev : YaffsDev) (data : Option Buf) (tempbuf : Buf) : YaffsExtTags :=
  match data with
  | some data =>
    if dev.inbandTags then yaffsUnpackTags2TagsOnly (getPacked data dev.pt2Offset)
    else yaffsUnpackTags2 (getPacked tempbuf 0)
  | none => yaffsUnpackTags2 (getPacked tempbuf 0)

/-- The two `if`s after `do ecc check`. -/
def reportEcc (dev : YaffsDev) (tags : YaffsExtTags) (eccFixed eccUnfixed : ℕ) :
    YaffsExtTags × YaffsDev :=
  let r :=
    if 0 < eccUnfixed ∧ tags.eccResult = .noError then
      ({ tags with eccResult := .unfixed },
        { dev with nEccUnfixed := dev.nEccUnfixed + BitVec.ofNat 32 eccUnfixed })
    else (tags, dev)
  if 0 < eccFixed ∧ r.1.eccResult = .noError then
    ({ r.1 with eccResult := .fixed },
      { r.2 with nEccFixed := r.2.nEccFixed + BitVec.ofNat 32 eccFixed })
  else r

/-- What a read with `YAFFS_OK` gives; a pointer that is null gives nothing. -/
structure ChunkAndTags where
  data : Option Buf
  tags : Option YaffsExtTags

/-- `ls1x_Read_ChunkAndTags`; `data` and `tags` say which pointer is not null.  The result is `none`
for `YAFFS_FAIL`. -/
def ls1xReadChunkAndTags (dev : YaffsDev) (fullpage data tags : Bool) (rt : NandReturns)
    (page : Buf) : Option ChunkAndTags × YaffsDev :=
  match readTransfers dev fullpage data tags rt page with
  | none => (none, dev)
  | some (dat, tempbuf) =>
    let t := if tags then some (readTags dev dat tempbuf) else none
    -- without `data` there is no check, and both counts stay 0
    let sw := dat.map fun dat =>
      nandCorrectPageSwecc dat (fun i => tempbuf (eccOffset + i)) bytesOfPage 0 0
    match t, sw with
    | some t, some sw =>
      let r := reportEcc dev t sw.eccFixed sw.eccUnfixed
      (some { data := some sw.buf, tags := some r.1 }, r.2)
    | t, sw => (some { data := sw.map Swecc.buf, tags := t }, dev)

/-! ### Writing -/

/-- The caller's buffer and `tempbuf` after the tags have been packed. -/
def packTags (dev : YaffsDev) (data : Buf) (tags : YaffsExtTags) : Buf × Buf :=
  let tempbuf : Buf := fun _ => 0xff
  let packed := yaffsPackTags2TagsOnly tags
  if dev.inbandTags then (putPacked data dev.pt2Offset packed, tempbuf)
  else (data, putPacked tempbuf dev.pt2Offset packed)

/-- `tempbuf` with the ECCs of the page. -/
def putEcc (data tempbuf : Buf) : Buf :=
  copyAt tempbuf eccOffset eccLen
    (nandCalculatePageSwecc data (fun i => tempbuf (eccOffset + i)) bytesOfPage)

/-- `ls1x_Write_ChunkAndTags`, neither pointer null: the page afterwards, or `none` for
`YAFFS_FAIL`. -/
def ls1xWriteChunkAndTags (dev : YaffsDev) (fullpage : Bool) (rt : NandReturns) (page data : Buf)
    (tags : YaffsExtTags) : Option Buf :=
  let (data, tempbuf) := packTags dev data tags
  if fullpage then
    let full := copyAt data bytesOfPage oobbytesOfPage (putEcc data tempbuf)
    if rt .mainSpare (bytesOfPage + oobbytesOfPage) = bytesOfPage + oobbytesOfPage then
      some (nandWrite page .mainSpare full (bytesOfPage + oobbytesOfPage))
    else none
  else if rt .main bytesOfPage = bytesOfPage then
    let page := nandWrite page .main data bytesOfPage
    if rt .spare oobbytesOfPage = oobbytesOfPage then
      some (nandWrite page .spare (putEcc data tempbuf) oobbytesOfPage)
    else none
  else none

end SortingLine.Flash
