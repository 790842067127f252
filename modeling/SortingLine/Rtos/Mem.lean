import SortingLine.Library.Memory
import SortingLine.RtMq.Queue

/-!
# The heap of the kernel

`RTT4/src/mem.c`: `rt_system_heap_init`, `rt_malloc`, `rt_realloc`, `rt_calloc` and `rt_free`.  The
heap is one stretch of memory, cut into blocks that begin with a `struct heap_mem`; the header of
the last, empty block is `heap_end`.  A header says where the next and the previous block begin and
whether the block is used; `lfree` is where a search for a free block begins.

Places in the heap are distances from `heap_ptr`, which is a multiple of 8.  A pointer that
`rt_malloc` returns is the place behind a header, so it is never 0, which stands for `RT_NULL`.  A
result `none` is an assertion that fails, or a loop that does not end.  `heap_sem` makes the calls
atomic; where `rt_realloc` allocates, copies and frees, it is three of them one after the other.
-/

namespace SortingLine

/-- A difference of two `rt_size_t`. -/
def subSize (a b : ℕ) : ℕ := (a + 4294967296 - b) % 4294967296

/-- `struct heap_mem` -/
structure HeapMem where
  magic : ℕ
  used : ℕ
  next : ℕ
  prev : ℕ
deriving DecidableEq, Repr

/-- `HEAP_MAGIC` -/
def heapMagic : ℕ := 0x1ea0

/-- `SIZEOF_STRUCT_MEM`: the 12 bytes of a header are aligned to 8. -/
def sizeofStructMem : ℕ := 16

/-- `MIN_SIZE` -/
def minSize : ℕ := 12

/-- `MIN_SIZE_ALIGNED` -/
def minSizeAligned : ℕ := 16

/-- The variables of `mem.c`, and the memory from `heap_ptr` on. -/
structure Heap where
  memSizeAligned : ℕ
  lfree : ℕ
  usedMem : ℕ
  maxMem : ℕ
  byte : Memory

namespace Heap

open Memory

/-- `heap_end` -/
def heapEnd (s : Heap) : ℕ := s.memSizeAligned + sizeofStructMem

/-- The header at a place. -/
def get (s : Heap) (mem : ℕ) : HeapMem where
  magic := rdLe s.byte mem 2
  used := rdLe s.byte (mem + 2) 2
  next := rdLe s.byte (mem + 4) 4
  prev := rdLe s.byte (mem + 8) 4

/-- A header is stored. -/
def put (s : Heap) (mem : ℕ) (h : HeapMem) : Heap :=
  { s with
    byte := wrLe (wrLe (wrLe (wrLe s.byte mem 2 h.magic) (mem + 2) 2 h.used) (mem + 4) 4 h.next)
      (mem + 8) 4 h.prev }

/-- Some fields of a header are changed. -/
def modify (s : Heap) (mem : ℕ) (f : HeapMem → HeapMem) : Heap := s.put mem (f (s.get mem))

/-- `rt_system_heap_init`, with what the memory holds; `none` where the range is too small. -/
def rtSystemHeapInit (byte : Memory) (beginAddr endAddr : ℕ) : Option Heap :=
  let beginAlign := (beginAddr + 7) / 8 * 8
  let endAlign := endAddr / 8 * 8
  if 2 * sizeofStructMem < endAlign ∧ beginAlign ≤ endAlign - 2 * sizeofStructMem then
    let s : Heap :=
      { memSizeAligned := endAlign - beginAlign - 2 * sizeofStructMem
        lfree := 0
        usedMem := 0
        maxMem := 0
        byte }
    let s := s.put 0 { magic := heapMagic, used := 0, next := s.heapEnd, prev := 0 }
    some (s.put s.heapEnd { magic := heapMagic, used := 1, next := s.heapEnd, prev := s.heapEnd })
  else none

/-- A free block is joined with the block behind it, if that is free. -/
def plugForward (s : Heap) (mem : ℕ) : Heap :=
  let nmem := (s.get mem).next
  if mem ≠ nmem ∧ (s.get nmem).used = 0 ∧ nmem ≠ s.heapEnd then
    let s := if s.lfree = nmem then { s with lfree := mem } else s
    let next := (s.get nmem).next
    (s.modify mem fun h => { h with next }).modify next fun h => { h with prev := mem }
  else s

/-- A free block is joined with the block before it, if that is free. -/
def plugBackward (s : Heap) (mem : ℕ) : Heap :=
  let pmem := (s.get mem).prev
  if pmem ≠ mem ∧ (s.get pmem).used = 0 then
    let s := if s.lfree = mem then { s with lfree := pmem } else s
    let next := (s.get mem).next
    (s.modify pmem fun h => { h with next }).modify next fun h => { h with prev := pmem }
  else s

/-- `plug_holes` -/
def plugHoles (s : Heap) (mem : ℕ) : Option Heap :=
  if s.heapEnd ≤ mem ∨ (s.get mem).used ≠ 0 then none
  else some ((s.plugForward mem).plugBackward mem)

/-- The `for` of `rt_malloc`: the first block from `ptr` on that is not used and long enough, or
that there is none. -/
def search (s : Heap) (size : ℕ) : ℕ → ℕ → Option (Option ℕ)
  | 0, _ => none
  | fuel + 1, ptr =>
    if ptr < subSize s.memSizeAligned size then
      if (s.get ptr).used = 0 ∧
          size ≤ subSize (s.get ptr).next (ptr + sizeofStructMem) then some (some ptr)
      else search s size fuel (s.get ptr).next
    else some none

/-- The `while` of `rt_malloc` that moves `lfree` to the next block that is not used. -/
def nextUnused (s : Heap) : ℕ → ℕ → Option ℕ
  | 0, _ => none
  | fuel + 1, mem =>
    if (s.get mem).used ≠ 0 ∧ mem ≠ s.heapEnd then nextUnused s fuel (s.get mem).next
    else some mem

/-- The statistics of an allocation. -/
def count (s : Heap) (n : ℕ) : Heap :=
  { s with usedMem := s.usedMem + n, maxMem := max s.maxMem (s.usedMem + n) }

/-- A block is used, and what is left of it behind `size` bytes becomes a block if it is long
enough. -/
def carve (s : Heap) (ptr size : ℕ) : Heap :=
  let mem := s.get ptr
  if size + sizeofStructMem + minSizeAligned ≤ subSize mem.next (ptr + sizeofStructMem) then
    let ptr2 := ptr + sizeofStructMem + size
    let s := s.put ptr2 { magic := heapMagic, used := 0, next := mem.next, prev := ptr }
    let s := s.modify ptr fun h => { h with next := ptr2, used := 1 }
    let s :=
      if mem.next ≠ s.memSizeAligned + sizeofStructMem then
        s.modify mem.next fun h => { h with prev := ptr2 }
      else s
    s.count (size + sizeofStructMem)
  else (s.modify ptr fun h => { h with used := 1 }).count (mem.next - ptr)

/-- `RT_ALIGN (size, RT_ALIGN_SIZE)` -/
def alignSize (size : UInt32) : ℕ := (rtAlign size rtAlignSize).toNat

/-- More steps than any loop over the blocks needs. -/
def fuel (s : Heap) : ℕ := s.heapEnd + 1

/-- A block that was found is used, and its `magic` is set. -/
def claim (s : Heap) (ptr size : ℕ) : Heap :=
  (s.carve ptr size).modify ptr fun h => { h with magic := heapMagic }

/-- `lfree` must not stay at a block that is used now. -/
def moveLfree (s : Heap) (ptr : ℕ) : Option Heap :=
  if ptr = s.lfree then (s.nextUnused s.fuel s.lfree).map fun lfree => { s with lfree }
  else some s

/-- The part of `rt_malloc` for a block that was found. -/
def grant (s : Heap) (ptr size : ℕ) : Option (ℕ × Heap) :=
  ((s.claim ptr size).moveLfree ptr).bind fun s =>
    -- the assertions before the return
    if ptr + sizeofStructMem + size ≤ s.heapEnd ∧ ptr % 8 = 0 then some (ptr + sizeofStructMem, s)
    else none

/-- `rt_malloc` -/
def rtMalloc (s : Heap) (size : UInt32) : Option (ℕ × Heap) :=
  if size = 0 then some (0, s)
  else
    let size := alignSize size
    if s.memSizeAligned < size then some (0, s)
    else
      let size := if size < minSizeAligned then minSizeAligned else size
      match s.search size s.fuel s.lfree with
      | none => none
      | some none => some (0, s)
      | some (some ptr) => s.grant ptr size

/-- The part of `rt_free` that makes a block free. -/
def release (s : Heap) (mem : ℕ) : Heap :=
  let s := s.modify mem fun h => { h with used := 0, magic := heapMagic }
  let s := if mem < s.lfree then { s with lfree := mem } else s
  { s with usedMem := s.usedMem - ((s.get mem).next - mem) }

/-- `rt_free` -/
def rtFree (s : Heap) (rmem : ℕ) : Option Heap :=
  if rmem = 0 then some s
  else if rmem % 8 ≠ 0 ∨ s.heapEnd ≤ rmem then none
  else
    let mem := rmem - sizeofStructMem
    if (s.get mem).used = 0 ∨ (s.get mem).magic ≠ heapMagic then none
    else (s.release mem).plugHoles mem

/-- The part of `rt_realloc` that makes a block shorter; what is behind it becomes a free block. -/
def shorten (s : Heap) (ptr newsize : ℕ) : Heap :=
  let mem := s.get ptr
  let size := subSize (subSize mem.next ptr) sizeofStructMem
  let s := { s with usedMem := s.usedMem - (size - newsize) }
  let ptr2 := ptr + sizeofStructMem + newsize
  let s := s.put ptr2 { magic := heapMagic, used := 0, next := mem.next, prev := ptr }
  let s := s.modify ptr fun h => { h with next := ptr2 }
  if mem.next ≠ s.memSizeAligned + sizeofStructMem then
    s.modify mem.next fun h => { h with prev := ptr2 }
  else s

/-- `rt_realloc` -/
def rtRealloc (s : Heap) (rmem : ℕ) (newsize : UInt32) : Option (ℕ × Heap) :=
  let aligned := alignSize newsize
  if s.memSizeAligned < aligned then some (0, s)
  else if aligned = 0 then (s.rtFree rmem).map (0, ·)
  else if rmem = 0 then s.rtMalloc (rtAlign newsize rtAlignSize)
  else if s.heapEnd ≤ rmem then some (rmem, s)
  else
    let ptr := rmem - sizeofStructMem
    let size := subSize (subSize (s.get ptr).next ptr) sizeofStructMem
    if size = aligned then some (rmem, s)
    else if aligned + sizeofStructMem + minSize < size then
      ((s.shorten ptr aligned).plugHoles (ptr + sizeofStructMem + aligned)).map (rmem, ·)
    else do
      let (nmem, s) ← s.rtMalloc (rtAlign newsize rtAlignSize)
      if nmem = 0 then some (0, s)
      else
        let n := if size < aligned then size else aligned
        let s ← { s with byte := copyBytes s.byte nmem rmem n }.rtFree rmem
        some (nmem, s)

/-- `rt_calloc` -/
def rtCalloc (s : Heap) (count size : UInt32) : Option (ℕ × Heap) :=
  (s.rtMalloc (count * size)).map fun (p, s) =>
    if p = 0 then (0, s)
    else (p, { s with byte := zeroBytes s.byte p (count * size).toNat })

end Heap

end SortingLine
