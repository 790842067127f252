import Mathlib.Logic.Function.Basic
import SortingLine.Library.Run
import SortingLine.Rtos.Mem

/-!
# The heap and those who use it

The threads that call `rt_malloc`, `rt_calloc`, `rt_realloc` and `rt_free`, and that store to what
they hold.  For every pointer held there is a record of the bytes that its holder relies on: what it
has stored, the zeros of `rt_calloc`, and after `rt_realloc` the bytes from before, as far as they
fit.  The record does not take part in the calls; it is compared with the memory.

A call is legal if a pointer that it gives back is held or `RT_NULL`, a store is to a byte that is
held, and the number of bytes asked for can be aligned without overflow.
-/

namespace SortingLine

open Memory

/-- The heap, and what its users hold: the bytes they rely on, by pointer. -/
structure HeapUse where
  heap : Heap
  held : ℕ → Option (List UInt8)

/-- What the users do. -/
inductive HeapCall
  | malloc (size : UInt32)
  | calloc (count size : UInt32)
  | realloc (rmem : ℕ) (newsize : UInt32)
  | free (rmem : ℕ)
  | store (rmem i : ℕ) (value : UInt8)
deriving DecidableEq, Repr

/-- The largest request that `RT_ALIGN` does not make 0. -/
def maxRequest : ℕ := 0xfffffff8

namespace HeapUse

/-- Right after `rt_system_heap_init` nothing is held. -/
def start (heap : Heap) : HeapUse := { heap, held := fun _ => none }

/-- A pointer is given to a user, who relies on some bytes there. -/
def give (u : HeapUse) (rmem : ℕ) (data : List UInt8) : HeapUse :=
  { u with held := Function.update u.held rmem (some data) }

/-- A pointer is given back. -/
def takeBack (u : HeapUse) (rmem : ℕ) : HeapUse :=
  { u with held := Function.update u.held rmem none }

/-- The bytes that a user relies on. -/
def dataAt (u : HeapUse) (rmem : ℕ) : List UInt8 := (u.held rmem).getD []

/-- A call may be made. -/
def Legal (u : HeapUse) : HeapCall → Prop
  | .malloc size => size.toNat ≤ maxRequest
  | .calloc count size => count.toNat * size.toNat ≤ maxRequest
  | .realloc rmem newsize => (rmem = 0 ∨ (u.held rmem).isSome) ∧ newsize.toNat ≤ maxRequest
  | .free rmem => rmem = 0 ∨ (u.held rmem).isSome
  | .store rmem i _ => i < (u.dataAt rmem).length

instance (u : HeapUse) (c : HeapCall) : Decidable (u.Legal c) := by
  cases c <;> unfold Legal <;> infer_instance

/-- What the holder relies on when `n` bytes of `data` are kept by `rt_realloc`, and the rest is
whatever the memory holds. -/
def resized (heap : Heap) (rmem n : ℕ) (data : List UInt8) : List UInt8 :=
  data.take n ++ bytesAt heap.byte (rmem + data.length) (n - data.length)

/-- The call, and what is held then; `none` if an assertion fails or a loop does not end. -/
def call (u : HeapUse) : HeapCall → Option HeapUse
  | .malloc size =>
    (u.heap.rtMalloc size).map fun (p, heap) =>
      if p = 0 then { u with heap }
      else { u with heap }.give p (bytesAt heap.byte p size.toNat)
  | .calloc count size =>
    (u.heap.rtCalloc count size).map fun (p, heap) =>
      if p = 0 then { u with heap }
      else { u with heap }.give p (List.replicate (count.toNat * size.toNat) 0)
  | .realloc rmem newsize =>
    (u.heap.rtRealloc rmem newsize).map fun (p, heap) =>
      if p ≠ 0 then
        ({ u with heap }.takeBack rmem).give p (resized heap p newsize.toNat (u.dataAt rmem))
      else if newsize = 0 then { u with heap }.takeBack rmem
      else { u with heap }
  | .free rmem => (u.heap.rtFree rmem).map fun heap => { u with heap }.takeBack rmem
  | .store rmem i value =>
    some ({ u with
      heap := { u.heap with byte := Function.update u.heap.byte (rmem + i) value } }.give
        rmem ((u.dataAt rmem).set i value))

/-- A legal call. -/
def step (u : HeapUse) (c : HeapCall) : Option HeapUse := if u.Legal c then u.call c else none

end HeapUse

end SortingLine
