import SortingLine.Uart.Ns16550
import Mathlib.Data.List.DropRight

/-!
# The buffers of the serial port

`NS16550_buf_t` of `ns16550.c`, field by field: `initialize_buffer`, `enqueue_to_buffer` and
`dequeue_from_buffer`.  The two pointers are given by their distance from `Buf`; a byte that is
written through one goes where it points to, in `Buf` or not.

While `enqueue_to_buffer` writes, `Count` grows by the length of what it is given, which is the size
of an object in memory; the range of `int` is far beyond it.
-/

namespace SortingLine.Uart

open Ns16550

/-- `NS16550_buf_t` -/
structure BufT where
  /-- The memory from `Buf` on. -/
  buf : ℕ → UInt8
  count : ℤ
  pHead : ℕ
  pTail : ℕ

namespace BufT

/-- `initialize_buffer` -/
def initializeBuffer (data : BufT) : BufT := { data with count := 0, pHead := 0, pTail := 0 }

/-- A pointer after `++`, brought back to `Buf` from its end. -/
def advance (p : ℕ) : ℕ := if uartBufSize ≤ p + 1 then 0 else p + 1

/-- One pass of the loop of `enqueue_to_buffer`. -/
def enqueueByte (data : BufT) (b : UInt8) : BufT :=
  { data with
    buf := Function.update data.buf data.pTail b
    count := data.count + 1
    pTail := advance data.pTail }

/-- `enqueue_to_buffer`: the value returned, and the buffer. -/
def enqueueToBuffer (data : BufT) (buf : List UInt8) : ℤ × BufT :=
  let data := buf.foldl enqueueByte data
  (buf.length,
    if uartBufSize < data.count then { data with count := uartBufSize, pHead := data.pTail }
    else data)

/-- One pass of the loop of `dequeue_from_buffer`, without the byte it copies. -/
def dequeueByte (data : BufT) : BufT :=
  { data with count := data.count - 1, pHead := advance data.pHead }

/-- The loop of `dequeue_from_buffer`: the bytes copied, and the buffer. -/
def dequeueLoop (data : BufT) : ℕ → List UInt8 × BufT
  | 0 => ([], data)
  | k + 1 =>
    let r := dequeueLoop data.dequeueByte k
    (data.buf data.pHead :: r.1, r.2)

/-- `dequeue_from_buffer`: the value returned, the bytes copied, and the buffer. -/
def dequeueFromBuffer (data : BufT) (len : ℤ) : ℤ × List UInt8 × BufT :=
  let count := if len < data.count then len else data.count
  (count, data.dequeueLoop count.toNat)

end BufT

/-- A call. -/
inductive BufCall
  | enqueue (buf : List UInt8)
  | dequeue (len : ℕ)
deriving DecidableEq

/-- A call: the value returned, the bytes copied out, and the buffer. -/
def BufT.call (data : BufT) : BufCall → ℤ × List UInt8 × BufT
  | .enqueue buf =>
    let r := data.enqueueToBuffer buf
    (r.1, [], r.2)
  | .dequeue len => data.dequeueFromBuffer len

/-- What a call does to a queue that keeps the newest `uartBufSize` bytes: the value returned, the
bytes taken out, and what is left. -/
def keepNewest (l : List UInt8) : BufCall → ℤ × List UInt8 × List UInt8
  | .enqueue buf => (buf.length, [], (l ++ buf).rtake uartBufSize)
  | .dequeue len => (min len l.length, l.take len, l.drop len)

/-- A buffer and the queue that it should be. -/
structure PairedBuf where
  data : BufT
  queue : List UInt8

namespace PairedBuf

/-- One call, on both. -/
def step (s : PairedBuf) (call : BufCall) : Option PairedBuf :=
  some { data := (s.data.call call).2.2, queue := (keepNewest s.queue call).2.2 }

/-- The state `s` is reached by the calls `tr`, from a buffer that was initialised, whatever it
held. -/
def Reaches (tr : List (PairedBuf × BufCall)) (s : PairedBuf) : Prop :=
  ∃ data : BufT, Run step { data := data.initializeBuffer, queue := [] } tr s

/-- The buffer holds the queue. -/
structure Refines (s : PairedBuf) : Prop where
  count : s.data.count = s.queue.length
  length : s.queue.length ≤ uartBufSize
  pHead : s.data.pHead < uartBufSize
  pTail : s.data.pTail < uartBufSize
  wrapped : s.data.pTail = (s.data.pHead + s.queue.length) % uartBufSize
  content : ∀ i (hi : i < s.queue.length),
    s.data.buf ((s.data.pHead + i) % uartBufSize) = s.queue[i]

end PairedBuf

end SortingLine.Uart
