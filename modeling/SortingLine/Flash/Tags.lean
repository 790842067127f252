import SortingLine.Flash.Ecc

/-!
# Chunk tags

`yaffs_packedtags2.c`: the tags of a chunk, and the four words they are packed into.  An object
header has no use for a chunk number and a byte count, and stores other facts about its object in
their place.
-/

namespace SortingLine.Flash

/-- `enum yaffs_ecc_result`, in the order of the values. -/
inductive YaffsEccResult
  | unknown
  | noError
  | fixed
  | unfixed
deriving DecidableEq

/-- `YAFFS_OBJECT_TYPE_FILE` -/
def yaffsObjectTypeFile : BitVec 32 := 1

/-- `YAFFS_OBJECT_TYPE_HARDLINK` -/
def yaffsObjectTypeHardlink : BitVec 32 := 4

/-- `struct yaffs_ext_tags`; `memset` to zero gives the default values.  The object type is read
from four bits of flash, and need not be one of the enumeration. -/
structure YaffsExtTags where
  chunkUsed : BitVec 32 := 0
  objId : BitVec 32 := 0
  chunkId : BitVec 32 := 0
  nBytes : BitVec 32 := 0
  eccResult : YaffsEccResult := .unknown
  blockBad : BitVec 32 := 0
  isDeleted : BitVec 32 := 0
  serialNumber : BitVec 32 := 0
  seqNumber : BitVec 32 := 0
  extraAvailable : BitVec 32 := 0
  extraParentId : BitVec 32 := 0
  extraIsShrink : BitVec 32 := 0
  extraShadows : BitVec 32 := 0
  extraObjType : BitVec 32 := 0
  extraLength : BitVec 32 := 0
  extraEquivId : BitVec 32 := 0
deriving DecidableEq

/-- `struct yaffs_packed_tags2_tags_only` -/
structure PackedTags2 where
  seqNumber : BitVec 32
  objId : BitVec 32
  chunkId : BitVec 32
  nBytes : BitVec 32
deriving DecidableEq

/-- `EXTRA_HEADER_INFO_FLAG` -/
def extraHeaderInfoFlag : BitVec 32 := 0x80000000

/-- `EXTRA_SHRINK_FLAG` -/
def extraShrinkFlag : BitVec 32 := 0x40000000

/-- `EXTRA_SHADOWS_FLAG` -/
def extraShadowsFlag : BitVec 32 := 0x20000000

/-- `EXTRA_SPARE_FLAGS` -/
def extraSpareFlags : BitVec 32 := 0x10000000

/-- `ALL_EXTRA_FLAGS` -/
def allExtraFlags : BitVec 32 := 0xf0000000

/-- `EXTRA_OBJECT_TYPE_SHIFT` -/
def extraObjectTypeShift : ℕ := 28

/-- `EXTRA_OBJECT_TYPE_MASK` -/
def extraObjectTypeMask : BitVec 32 := 0x0f <<< extraObjectTypeShift

/-- `yaffs_pack_tags2_tags_only` -/
def yaffsPackTags2TagsOnly (t : YaffsExtTags) : PackedTags2 :=
  if t.chunkId = 0 ∧ t.extraAvailable ≠ 0 then
    { seqNumber := t.seqNumber
      chunkId := extraHeaderInfoFlag ||| t.extraParentId |||
        (if t.extraIsShrink ≠ 0 then extraShrinkFlag else 0) |||
        (if t.extraShadows ≠ 0 then extraShadowsFlag else 0)
      objId := (t.objId &&& ~~~ extraObjectTypeMask) ||| t.extraObjType <<< extraObjectTypeShift
      nBytes :=
        if t.extraObjType = yaffsObjectTypeHardlink then t.extraEquivId
        else if t.extraObjType = yaffsObjectTypeFile then t.extraLength
        else 0 }
  else
    { seqNumber := t.seqNumber
      objId := t.objId
      chunkId := t.chunkId
      nBytes := t.nBytes }

/-- `Do extra header info stuff` -/
def unpackExtra (t : YaffsExtTags) (ptt : PackedTags2) : YaffsExtTags :=
  let t := { t with
    chunkId := 0
    nBytes := 0
    extraAvailable := 1
    extraParentId := ptt.chunkId &&& ~~~ allExtraFlags
    extraIsShrink := if ptt.chunkId &&& extraShrinkFlag ≠ 0 then 1 else 0
    extraShadows := if ptt.chunkId &&& extraShadowsFlag ≠ 0 then 1 else 0
    extraObjType := ptt.objId >>> extraObjectTypeShift
    objId := t.objId &&& ~~~ extraObjectTypeMask }
  if t.extraObjType = yaffsObjectTypeHardlink then { t with extraEquivId := ptt.nBytes }
  else { t with extraLength := ptt.nBytes }

/-- `yaffs_unpack_tags2_tags_only`; an erased chunk has all bits set in its sequence number. -/
def yaffsUnpackTags2TagsOnly (ptt : PackedTags2) : YaffsExtTags :=
  if ptt.seqNumber = 0xffffffff then {}
  else
    let t : YaffsExtTags :=
      { chunkUsed := 1
        objId := ptt.objId
        chunkId := ptt.chunkId
        nBytes := ptt.nBytes
        seqNumber := ptt.seqNumber }
    if ptt.chunkId &&& extraHeaderInfoFlag ≠ 0 then unpackExtra t ptt else t

/-- `yaffs_unpack_tags2` without the tags' own ECC. -/
def yaffsUnpackTags2 (ptt : PackedTags2) : YaffsExtTags :=
  { yaffsUnpackTags2TagsOnly ptt with eccResult := .noError }

/-! ### In memory -/

/-- The word at an offset, least significant byte first. -/
def getWord (buf : Buf) (off : ℕ) : BitVec 32 :=
  buf (off + 3) ++ buf (off + 2) ++ buf (off + 1) ++ buf off

/-- Byte `k` of a word. -/
def wordByte (w : BitVec 32) (k : ℕ) : BitVec 8 := w.extractLsb' (8 * k) 8

/-- The packed tags at an offset. -/
def getPacked (buf : Buf) (off : ℕ) : PackedTags2 where
  seqNumber := getWord buf off
  objId := getWord buf (off + 4)
  chunkId := getWord buf (off + 8)
  nBytes := getWord buf (off + 12)

/-- The bytes of packed tags. -/
def PackedTags2.bytes (p : PackedTags2) : Buf := fun k =>
  match k / 4 with
  | 0 => wordByte p.seqNumber k
  | 1 => wordByte p.objId (k - 4)
  | 2 => wordByte p.chunkId (k - 8)
  | _ => wordByte p.nBytes (k - 12)

/-- `sizeof (struct yaffs_packed_tags2_tags_only)` -/
def sizeofPackedTags2 : ℕ := 16

/-- A buffer with packed tags written at an offset. -/
def putPacked (buf : Buf) (off : ℕ) (p : PackedTags2) : Buf :=
  copyAt buf off sizeofPackedTags2 p.bytes

end SortingLine.Flash
