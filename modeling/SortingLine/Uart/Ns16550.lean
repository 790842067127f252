import SortingLine.Library.Ring
import SortingLine.Library.Run
import Mathlib.Data.UInt

/-!
# The serial port

The interrupt mode of `ns16550.c`.  A task calls `NS16550_write`, which fills the transmit FIFO
itself when `LINE_STATUS` says that it is empty and leaves the rest in `TxData`; the interrupt
handler moves what has been received to `RxData` and goes on with `TxData`.  The two are followed
register access by register access.  The handler may interrupt the writer between any two of
these, but not the other way round, and not where the task has disabled interrupts.

The line takes bytes out of the transmit FIFO, and puts bytes into the receive FIFO, at any time.
-/

namespace SortingLine

/-! ### Registers -/

namespace Ns16550

/-- `SP_FIFO_SIZE` -/
def fifoSize : ℕ := 16

/-- `UART_BUF_SIZE` -/
def uartBufSize : ℕ := 512

instance : NeZero uartBufSize := ⟨by decide⟩

/-- `SP_INT_RX_ENABLE` -/
def intRxEnable : UInt8 := 0x01

/-- `SP_INT_TX_ENABLE` -/
def intTxEnable : UInt8 := 0x02

/-- `NS16550_ENABLE_ALL_INTR` -/
def enableAllIntr : UInt8 := intRxEnable ||| intTxEnable

/-- `NS16550_ENABLE_ALL_INTR_EXCEPT_TX` -/
def enableAllIntrExceptTx : UInt8 := intRxEnable

/-- `SP_INTID_NOPEND` -/
def intidNopend : UInt8 := 0x01

/-- `SP_INTID_TXRDY` -/
def intidTxrdy : UInt8 := 0x02

/-- `SP_INTID_RXRDY` -/
def intidRxrdy : UInt8 := 0x04

/-- `SP_LSR_RDY` -/
def lsrRdy : UInt8 := 0x01

/-- `SP_LSR_THOLD` -/
def lsrThold : UInt8 := 0x20

end Ns16550

open Ns16550

/-- `NS16550_buf_t` -/
abbrev Ns16550Buf := Ring UInt8 uartBufSize

/-! ### State -/

/-- Where `NS16550_write` stands. -/
inductive UartWriter
  | idle
  /-- Before the read of `LINE_STATUS`. -/
  | start (buf : List UInt8)
  /-- In the loop that writes `sent` bytes to `TRANSMIT_BUFFER`, `todo` of them still to go; `rest`
  is what follows them in the buffer. -/
  | send (sent : ℕ) (todo rest : List UInt8)
  /-- Before the critical section that adds `rest` to `TxData`. -/
  | enqueue (rest : List UInt8)
deriving DecidableEq

/-- Where `NS16550_interrupt_process` stands; `count` keeps its value from one pass to the next. -/
inductive UartHandler
  /-- Before the read of `INTERRUPT_ID`. -/
  | interruptId (count : ℕ)
  /-- In the loop that fetches received characters, `buf` so far. -/
  | receive (status : UInt8) (buf : List UInt8) (count : ℕ)
  /-- Before `check if we need transmit characters go on`. -/
  | check (status : UInt8) (count : ℕ)
  /-- In the loop that writes to `TRANSMIT_BUFFER`, `todo` still to go. -/
  | transmit (status : UInt8) (count : ℕ) (todo : List UInt8)
  /-- Before the write of `INTERRUPT_ENABLE`. -/
  | setInterrupt (status : UInt8) (count : ℕ)
deriving DecidableEq

/-- A port in interrupt mode, and the two FIFOs of its chip. -/
structure Uart where
  /-- The number of bytes in the transmit FIFO. -/
  fifo : ℕ
  rxFifo : List UInt8
  interruptEnable : UInt8
  rxData : Ns16550Buf
  txData : Ns16550Buf
  writer : UartWriter
  handler : Option UartHandler
  /-- All bytes written to `TRANSMIT_BUFFER` so far. -/
  transmitted : List UInt8
  /-- The buffers of all calls of `NS16550_write` so far, one behind the other. -/
  written : List UInt8

/-- Who moves. -/
inductive UartLabel
  /-- A task calls `NS16550_write`; a size that is not positive counts as an empty buffer. -/
  | write (buf : List UInt8)
  /-- The next action of the call. -/
  | writer
  /-- `NS16550_read`, one pass of its loop. -/
  | read (size : ℕ)
  /-- The handler is entered. -/
  | interrupt
  /-- The next action of the handler; when this is the read of `INTERRUPT_ID`, `thre` says whether
  the chip reports an empty transmit FIFO, which it may have reported before. -/
  | handler (thre : Bool)
  /-- The line takes a byte. -/
  | drain
  /-- A byte is received. -/
  | arrive (b : UInt8)
deriving DecidableEq

namespace Uart

/-- `NS16550_LINE_STATUS`, as far as it is used. -/
def lineStatus (s : Uart) : UInt8 :=
  (if s.rxFifo = [] then 0 else lsrRdy) ||| (if s.fifo = 0 then lsrThold else 0)

/-- The transmit FIFO is empty, for all that `LINE_STATUS` says. -/
def Thold (s : Uart) : Prop := s.lineStatus &&& lsrThold ≠ 0

instance (s : Uart) : Decidable s.Thold := inferInstanceAs (Decidable (_ ≠ _))

/-- There is a received byte, for all that `LINE_STATUS` says. -/
def Rdy (s : Uart) : Prop := s.lineStatus &&& lsrRdy ≠ 0

instance (s : Uart) : Decidable s.Rdy := inferInstanceAs (Decidable (_ ≠ _))

/-- The transmit interrupt is enabled. -/
def TxEnabled (s : Uart) : Prop := s.interruptEnable &&& intTxEnable ≠ 0

instance (s : Uart) : Decidable s.TxEnabled := inferInstanceAs (Decidable (_ ≠ _))

/-- The receive interrupt is enabled. -/
def RxEnabled (s : Uart) : Prop := s.interruptEnable &&& intRxEnable ≠ 0

instance (s : Uart) : Decidable s.RxEnabled := inferInstanceAs (Decidable (_ ≠ _))

/-- The chip has a reason to interrupt that the enable register lets through. -/
def Pending (s : Uart) : Prop := s.RxEnabled ∧ s.rxFifo ≠ [] ∨ s.TxEnabled ∧ s.fifo = 0

instance (s : Uart) : Decidable s.Pending := inferInstanceAs (Decidable (_ ∨ _))

/-- `NS16550_INTERRUPT_ID`: received data comes first. -/
def interruptId (s : Uart) (thre : Bool) : UInt8 :=
  if s.RxEnabled ∧ s.rxFifo ≠ [] then intidRxrdy
  else if thre = true ∧ s.TxEnabled ∧ s.fifo = 0 then intidTxrdy
  else intidNopend

/-- `NS16550_set_interrupt`, after `count` bytes have been sent. -/
def setInterrupt (s : Uart) (count : ℕ) : Uart :=
  { s with interruptEnable := if 0 < count then enableAllIntr else enableAllIntrExceptTx }

/-- A write to `NS16550_TRANSMIT_BUFFER`; a full FIFO does not take the byte. -/
def transmitBuffer (s : Uart) (b : UInt8) : Uart :=
  { s with fifo := min (s.fifo + 1) fifoSize, transmitted := s.transmitted ++ [b] }

/-! ### Actions -/

/-- After the direct part of a write: `if (sent < len)`. -/
def afterSend (rest : List UInt8) : UartWriter :=
  if rest = [] then .idle else .enqueue rest

/-- `NS16550_write_string_int`, from one register access to the next. -/
def writerStep (s : Uart) : Option Uart :=
  match s.writer with
  | .idle => none
  | .start buf =>
    if s.Thold then
      let sent := if buf.length ≤ fifoSize then buf.length else fifoSize
      some { s with writer := .send sent (buf.take sent) (buf.drop sent) }
    else some { s with writer := afterSend buf }
  | .send sent (b :: todo) rest =>
    some { s.transmitBuffer b with writer := .send sent todo rest }
  | .send sent [] rest => some { s.setInterrupt sent with writer := afterSend rest }
  | .enqueue rest => some { s with txData := s.txData.enqueue rest, writer := .idle }

/-- `NS16550_interrupt_process`, from one register access to the next. -/
def handlerStep (s : Uart) (thre : Bool) : Option Uart :=
  match s.handler with
  | none => none
  | some (.interruptId count) =>
    let status := s.interruptId thre
    if status &&& intidRxrdy ≠ 0 then some { s with handler := some (.receive status [] count) }
    else some { s with handler := some (.check status count) }
  | some (.receive status buf count) =>
    match s.rxFifo with
    | b :: rxFifo =>
      if buf.length < fifoSize ∧ s.Rdy then
        some { s with rxFifo, handler := some (.receive status (buf ++ [b]) count) }
      else
        some { s with rxData := s.rxData.enqueue buf, handler := some (.check status count) }
    | [] => some { s with rxData := s.rxData.enqueue buf, handler := some (.check status count) }
  | some (.check status count) =>
    if 0 < s.txData.count ∧ s.Thold then
      let r := s.txData.dequeue fifoSize
      some { s with txData := r.2, handler := some (.transmit status r.1.length r.1) }
    else some { s with handler := some (.setInterrupt status count) }
  | some (.transmit status count (b :: todo)) =>
    some { s.transmitBuffer b with handler := some (.transmit status count todo) }
  | some (.transmit status count []) =>
    some { s with handler := some (.setInterrupt status count) }
  | some (.setInterrupt status count) =>
    -- `while ((status & SP_INTID_NOPEND) == 0)`
    let next := if status &&& intidNopend = 0 then some (.interruptId count) else none
    some { s.setInterrupt count with handler := next }

/-- One step; a task runs only while the handler does not. -/
def step (s : Uart) : UartLabel → Option Uart
  | .write buf =>
    match s.handler, s.writer with
    | none, .idle => some { s with writer := .start buf, written := s.written ++ buf }
    | _, _ => none
  | .writer => if s.handler.isNone then s.writerStep else none
  | .read size =>
    if s.handler.isNone then some { s with rxData := (s.rxData.dequeue size).2 } else none
  | .interrupt =>
    if s.handler.isNone ∧ s.Pending then some { s with handler := some (.interruptId 0) } else none
  | .handler thre => s.handlerStep thre
  | .drain => if s.fifo = 0 then none else some { s with fifo := s.fifo - 1 }
  | .arrive b =>
    some { s with rxFifo := if s.rxFifo.length < fifoSize then s.rxFifo ++ [b] else s.rxFifo }

/-- After `NS16550_open`, whatever the buffers and the chip hold. -/
def opened (rxData txData : RingData UInt8 uartBufSize) (fifo : ℕ) (rxFifo : List UInt8) :
    Uart where
  fifo
  rxFifo
  interruptEnable := enableAllIntrExceptTx
  rxData := Ring.clear rxData
  txData := Ring.clear txData
  writer := .idle
  handler := none
  transmitted := []
  written := []

/-- The state `s` of an opened port is reached by the steps `tr`. -/
def Reaches (tr : List (Uart × UartLabel)) (s : Uart) : Prop :=
  ∃ rxData txData fifo rxFifo, Run step (opened rxData txData fifo rxFifo) tr s

end Uart

end SortingLine
