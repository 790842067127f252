import SortingLine.Library.Mutex
import Mathlib.Data.UInt

/-!
# The I2C bus

The primitives of `ls1x_i2c_bus.c`, register write by register write.  The hardware is known by its
answers alone (`Hw`): whether the bus is idle when a transaction starts, and how each byte transfer
ends.  The mutex is taken in `send_start` and released in `send_stop`; what a call does to it and to
the registers is logged, in order, as operations of `Library/Mutex.lean`.

`bus == NULL` and `buf == NULL` do not occur.  The divider that `set_baudrate` computes, and what it
reads from the control register, are left out: of `ctrl`, `prerlo` and `prerhi` only the writes are
logged.
-/

namespace SortingLine.I2c

/-! ### The hardware -/

/-- How a byte transfer ends: with or without an acknowledge, and what `rxreg` then holds; or not
before `LS1x_I2C_wait_done` gives up. -/
inductive Response
  | ack (rx : UInt8)
  | nack (rx : UInt8)
  | timeout
deriving DecidableEq, Repr

/-- The byte was transferred and acknowledged. -/
def Response.Acked : Response → Prop
  | .ack _ => True
  | _ => False

/-- What was received, unless the transfer timed out. -/
def Response.received : Response → Option UInt8
  | .ack rx => some rx
  | .nack rx => some rx
  | .timeout => none

instance : DecidablePred Response.Acked := fun r =>
  match r with
  | .ack _ => inferInstanceAs (Decidable True)
  | .nack _ => inferInstanceAs (Decidable False)
  | .timeout => inferInstanceAs (Decidable False)

/-- The answers of the hardware: for each transaction in order, whether the bus is busy until
`LS1x_I2C_send_start` gives up, and for each byte transfer in order, how it ends. -/
structure Hw where
  busy : Nat → Bool
  xfer : Nat → Response

/-- A write to a register, with its value if it is `cmd` or `txreg`. -/
inductive Write
  | cmd (v : UInt8)
  | txreg (v : UInt8)
  | ctrl
  | prerlo
  | prerhi
deriving DecidableEq, Repr

/-- `i2c_cmd_start` -/
def cmdStart : UInt8 := 0x80

/-- `i2c_cmd_stop` -/
def cmdStop : UInt8 := 0x40

/-- `i2c_cmd_read` -/
def cmdRead : UInt8 := 0x20

/-- `i2c_cmd_write` -/
def cmdWrite : UInt8 := 0x10

/-- `i2c_cmd_nack` -/
def cmdNack : UInt8 := 0x08

/-- `i2c_cmd_ack` -/
def cmdAck : UInt8 := 0

/-- `ETIMEDOUT`, as in `libc_errno.h`; that it is more than 2 is all that matters. -/
def etimedout : Int := 110

/-- The bus as a thread uses it. -/
structure Bus where
  /-- The transactions started so far. -/
  starts : Nat
  /-- The byte transfers so far. -/
  xfers : Nat
  /-- How the last of them ended. -/
  last : Response
  /-- What was done to the mutex and to the registers, the newest last. -/
  log : List (Mutex.Op Write)

namespace Bus

/-- A bus that was not used yet. -/
def unused : Bus := { starts := 0, xfers := 0, last := .ack 0, log := [] }

variable (hw : Hw) (b : Bus)

/-- One more operation. -/
def op (o : Mutex.Op Write) : Bus := { b with log := b.log ++ [o] }

/-- A register is written. -/
def write (w : Write) : Bus := b.op (.act w)

/-- `i2c_sr_rxnack` in the status register. -/
def rxnack : Bool :=
  match b.last with
  | .nack _ => true
  | _ => false

/-- The data register. -/
def rxreg : UInt8 := b.last.received.getD 0

/-! ### The primitives -/

/-- `LS1x_I2C_wait_done`. -/
def waitDone : Int × Bus :=
  (if hw.xfer b.xfers = .timeout then -etimedout else 0,
    { b with xfers := b.xfers + 1, last := hw.xfer b.xfers })

/-- `LS1x_I2C_set_baudrate`. -/
def setBaudrate : Int × Bus :=
  (0, ((((b.write .ctrl).write .prerlo).write .prerhi).write (.cmd 0)).write .ctrl)

/-- `LS1x_I2C_send_start`: if the bus stays busy the mutex stays taken. -/
def sendStart : Int × Bus :=
  let b := b.op .take
  if hw.busy b.starts then (-etimedout, { b with starts := b.starts + 1 })
  else (0, { b with starts := b.starts + 1 }.write (.cmd cmdStart))

/-- `LS1x_I2C_send_stop`. -/
def sendStop : Bus := (b.write (.cmd cmdStop)).op .release

/-- `LS1x_I2C_send_addr`: on an error it has stopped the transaction. -/
def sendAddr (addr : UInt8) (rw : Bool) : Int × Bus :=
  let b := b.write (.txreg (addr <<< 1 ||| if rw then 1 else 0))
  let b := b.write (.cmd (cmdWrite ||| cmdStart))
  let (rt, b) := b.waitDone hw
  if rt = 0 then
    if b.rxnack then (-2, b.sendStop) else (rt, b)
  else (rt, b.sendStop)

/-- `LS1x_I2C_read_bytes`, with `buf` the bytes stored so far and `len` the number of bytes still to
come: the result, and all bytes stored.  After a timeout it has stopped the transaction, and the
result is positive. -/
def readBytes (buf : List UInt8) : Nat → Bus → Int × List UInt8 × Bus
  | 0, b => (buf.length, buf, b)
  | len + 1, b =>
    let b := b.write (.cmd (cmdRead ||| if len = 0 then cmdNack else cmdAck))
    let (rt, b) := b.waitDone hw
    if rt ≠ 0 then (-rt, buf, b.sendStop) else readBytes (buf ++ [b.rxreg]) len b

/-- `LS1x_I2C_write_bytes`, with `p` the number of bytes written so far.  On an error it has stopped
the transaction, and the result is positive: the byte without an acknowledge is counted too. -/
def writeBytes (p : Nat) : List UInt8 → Bus → Int × Bus
  | [], b => (p, b)
  | c :: cs, b =>
    let b := b.write (.txreg c)
    let b := b.write (.cmd cmdWrite)
    let (rt, b) := b.waitDone hw
    if rt ≠ 0 then (-rt, b.sendStop)
    else if b.rxnack then ((p : Int) + 1, b.sendStop)
    else writeBytes (p + 1) cs b

/-- `LS1x_I2C_ioctl` with `IOCTL_SPI_I2C_SET_TFRMODE`. -/
def ioctlSetTfrmode : Int × Bus :=
  let (rt, b) := b.setBaudrate
  (-rt, b)

end Bus

end SortingLine.I2c
