import Mathlib.Logic.Function.Iterate
import SortingLine.Library.Bytes

/-!
# Message queues of the kernel

`rt_mq_create`, `rt_mq_send` and `rt_mq_recv` of `RTT4/src/ipc.c`.  A queue owns a pool of
message slots of `msg_size` bytes; each slot is either linked in the queue (`msg_queue_head` to
`msg_queue_tail`) or in the free list (`msg_queue_free`).  A slot is never cleared: behind the
bytes of the message it still holds what an older, longer message left there.

* `rt_mq_send` does not wait.  It refuses a message longer than a slot (`-RT_ERROR`), and one
  that finds no free slot (`-RT_EFULL`).
* `rt_mq_recv` copies `min (size, msg_size)` bytes of the slot, whatever the length of the message
  was, and puts the slot back in front of the free list.
-/

namespace SortingLine

/-- `RT_ALIGN (size, align)`. -/
def rtAlign (size align : UInt32) : UInt32 := (size + align - 1) &&& ~~~(align - 1)

/-- `RT_ALIGN_SIZE`. -/
def rtAlignSize : UInt32 := 8

/-- The size of a slot: `rt_mq_create` rounds the size it is given up. -/
def slotSize (msgSize : UInt32) : Nat := (rtAlign msgSize rtAlignSize).toNat

@[simp]
theorem slotSize_twenty : slotSize 20 = 24 := by decide

@[simp]
theorem slotSize_twentyFour : slotSize 24 = 24 := by decide

/-- The result of a send. -/
inductive RtErr
  | eok
  | efull
  | error
deriving DecidableEq, Repr

/-- A message queue: the slots in the queue, oldest first, and the free slots. -/
structure RtMq (msgSize maxMsgs : Nat) where
  queue : List (List UInt8)
  free : List (List UInt8)
  length_slot : ∀ slot ∈ queue ++ free, slot.length = msgSize
  length_pool : queue.length + free.length = maxMsgs

namespace RtMq

variable {msgSize maxMsgs : Nat}

/-- `rt_mq_create`: every slot of the pool is free; the pool is memory from the heap, so its
contents are arbitrary. -/
def create (pool : List (List UInt8)) (hs : ∀ slot ∈ pool, slot.length = msgSize)
    (hl : pool.length = maxMsgs) : RtMq msgSize maxMsgs :=
  ⟨[], pool, by simpa using hs, by simpa using hl⟩

/-- Moving a free slot to the end of the queue, with a message copied into it, keeps the sizes. -/
theorem length_slot_send {mq : RtMq msgSize maxMsgs} {slot data : List UInt8}
    {free : List (List UInt8)} (hf : mq.free = slot :: free) (hd : data.length ≤ msgSize) :
    ∀ x ∈ mq.queue ++ [patch slot 0 data] ++ free, x.length = msgSize := by
  have hs := mq.length_slot
  rw [hf] at hs
  intro x hx
  simp only [List.mem_append, List.mem_singleton, or_assoc] at hx
  rcases hx with hx | rfl | hx
  · exact hs x (by simp [hx])
  · have hslot := hs slot (by simp)
    rw [length_patch]
    omega
  · exact hs x (by simp [hx])

/-- `rt_mq_send (mq, buffer, size)`, with `data` the `size` bytes at `buffer`. -/
def send (mq : RtMq msgSize maxMsgs) (data : List UInt8) : RtErr × RtMq msgSize maxMsgs :=
  if hd : msgSize < data.length then (.error, mq)
  else
    match hf : mq.free with
    | [] => (.efull, mq)
    | slot :: free =>
      -- only the bytes of the message are copied: the rest of the slot stays as it was
      (.eok,
        { queue := mq.queue ++ [patch slot 0 data]
          free := free
          length_slot := length_slot_send hf (by omega)
          length_pool := by
            have hp := mq.length_pool
            rw [hf, List.length_cons] at hp
            rw [List.length_append, List.length_singleton]
            omega })

/-- `rt_mq_recv (mq, buffer, size, RT_WAITING_FOREVER)`: `none` while the queue is empty, and else
the new contents of `buffer`. -/
def recv (mq : RtMq msgSize maxMsgs) (buffer : List UInt8) (size : Nat) :
    Option (List UInt8 × RtMq msgSize maxMsgs) :=
  match hq : mq.queue with
  | [] => none
  | slot :: queue =>
    some (patch buffer 0 (slot.take (min size msgSize)),
      { queue := queue
        free := slot :: mq.free
        length_slot := by
          intro x hx
          refine mq.length_slot x ?_
          rw [hq]
          simp only [List.cons_append, List.mem_append, List.mem_cons] at hx ⊢
          tauto
        length_pool := by
          have hp := mq.length_pool
          rw [hq, List.length_cons] at hp
          rw [List.length_cons]
          omega })

/-- `rt_mq_control (mq, RT_IPC_CMD_RESET, NULL)`: the messages go to the front of the free list, one
after the other. -/
def reset (mq : RtMq msgSize maxMsgs) : RtMq msgSize maxMsgs where
  queue := []
  free := mq.queue.reverse ++ mq.free
  length_slot := by
    intro x hx
    refine mq.length_slot x ?_
    simpa using hx
  length_pool := by
    have hp := mq.length_pool
    simp only [List.length_nil, List.length_append, List.length_reverse]
    omega

/-- The queue after a receive. -/
def pop (mq : RtMq msgSize maxMsgs) : RtMq msgSize maxMsgs :=
  ((mq.recv [] 0).map Prod.snd).getD mq

end RtMq

end SortingLine
