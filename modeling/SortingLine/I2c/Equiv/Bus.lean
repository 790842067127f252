import SortingLine.I2c.Bus

/-!
# What the I2C primitives do

Each primitive is a sequence of byte transfers, and `transfer` is one of them: registers are
written, and the hardware answers.  The lemmas `*_eq` follow a primitive through the answers: after
a fault it has stopped the transaction.

`Logs` says what a primitive adds to the log: it only writes registers if all its transfers go well,
and has released the mutex if not.
-/

namespace SortingLine.I2c.Bus

open Mutex

variable (hw : Hw) (b : Bus)

/-! ### Byte transfers -/

/-- The registers `ws` are written, and the transfer ends with `r`. -/
def transfer (r : Response) (ws : List Write) : Bus :=
  { b with xfers := b.xfers + 1, last := r, log := b.log ++ ws.map .act }

@[simp]
theorem transfer_starts (r : Response) (ws : List Write) :
    (b.transfer r ws).starts = b.starts := rfl

@[simp]
theorem transfer_xfers (r : Response) (ws : List Write) :
    (b.transfer r ws).xfers = b.xfers + 1 := rfl

@[simp]
theorem sendStop_starts : b.sendStop.starts = b.starts := rfl

@[simp]
theorem sendStop_xfers : b.sendStop.xfers = b.xfers := rfl

/-- Waiting for a transfer after one register write. -/
theorem waitDone_write (w : Write) : (b.write w).waitDone hw =
    (if hw.xfer b.xfers = .timeout then -etimedout else 0, b.transfer (hw.xfer b.xfers) [w]) := rfl

/-- Waiting for a transfer after two register writes. -/
theorem waitDone_write_write (w w' : Write) : ((b.write w).write w').waitDone hw =
    (if hw.xfer b.xfers = .timeout then -etimedout else 0,
      b.transfer (hw.xfer b.xfers) [w, w']) := by
  simp [waitDone, write, op, transfer]

/-- The registers written for an address byte. -/
def addrWrites (addr : UInt8) (rw : Bool) : List Write :=
  [.txreg (addr <<< 1 ||| if rw then 1 else 0), .cmd (cmdWrite ||| cmdStart)]

/-- The registers written for a data byte. -/
def dataWrites (c : UInt8) : List Write := [.txreg c, .cmd cmdWrite]

/-- The register written to receive a byte. -/
def readWrites (len : Nat) : List Write := [.cmd (cmdRead ||| if len = 0 then cmdNack else cmdAck)]

theorem sendAddr_eq (addr : UInt8) (rw : Bool) : b.sendAddr hw addr rw =
    match hw.xfer b.xfers with
    | .ack rx => (0, b.transfer (.ack rx) (addrWrites addr rw))
    | .nack rx => (-2, (b.transfer (.nack rx) (addrWrites addr rw)).sendStop)
    | .timeout => (-etimedout, (b.transfer .timeout (addrWrites addr rw)).sendStop) := by
  rw [sendAddr, waitDone_write_write]
  cases hw.xfer b.xfers <;> simp [rxnack, transfer, addrWrites, etimedout]

theorem writeBytes_cons (p : Nat) (c : UInt8) (cs : List UInt8) : writeBytes hw p (c :: cs) b =
    match hw.xfer b.xfers with
    | .ack rx => writeBytes hw (p + 1) cs (b.transfer (.ack rx) (dataWrites c))
    | .nack rx => ((p : Int) + 1, (b.transfer (.nack rx) (dataWrites c)).sendStop)
    | .timeout => (etimedout, (b.transfer .timeout (dataWrites c)).sendStop) := by
  rw [writeBytes, waitDone_write_write]
  cases hw.xfer b.xfers <;> simp [rxnack, transfer, dataWrites, etimedout]

theorem readBytes_succ (buf : List UInt8) (len : Nat) : readBytes hw buf (len + 1) b =
    match hw.xfer b.xfers with
    | .ack rx => readBytes hw (buf ++ [rx]) len (b.transfer (.ack rx) (readWrites len))
    | .nack rx => readBytes hw (buf ++ [rx]) len (b.transfer (.nack rx) (readWrites len))
    | .timeout => (etimedout, buf, (b.transfer .timeout (readWrites len)).sendStop) := by
  rw [readBytes, waitDone_write]
  cases hw.xfer b.xfers <;> simp [rxreg, transfer, readWrites, Response.received, etimedout]

/-! ### Results -/

/-- The result for an address byte. -/
def addrResult : Response → Int
  | .ack _ => 0
  | .nack _ => -2
  | .timeout => -etimedout

theorem addrResult_eq_zero {r : Response} : addrResult r = 0 ↔ r.Acked := by
  cases r <;> simp [addrResult, Response.Acked, etimedout]

theorem sendAddr_result (addr : UInt8) (rw : Bool) :
    (b.sendAddr hw addr rw).1 = addrResult (hw.xfer b.xfers) ∧
    (b.sendAddr hw addr rw).2.starts = b.starts ∧
    (b.sendAddr hw addr rw).2.xfers = b.xfers + 1 := by
  rw [sendAddr_eq]
  cases hw.xfer b.xfers <;> exact ⟨rfl, rfl, rfl⟩

/-- One byte: whatever happens to it, the result is positive. -/
theorem writeBytes_one (c : UInt8) :
    0 < (writeBytes hw 0 [c] b).1 ∧ (writeBytes hw 0 [c] b).2.starts = b.starts ∧
    (writeBytes hw 0 [c] b).2.xfers = b.xfers + 1 := by
  rw [writeBytes_cons]
  cases hw.xfer b.xfers <;> exact ⟨by simp [writeBytes, etimedout], rfl, rfl⟩

/-- The result for two data bytes: 2 also if the second was not acknowledged. -/
def pairResult : Response → Response → Int
  | .ack _, .timeout => etimedout
  | .ack _, _ => 2
  | .nack _, _ => 1
  | .timeout, _ => etimedout

theorem writeBytes_two (c c' : UInt8) :
    (writeBytes hw 0 [c, c'] b).1 = pairResult (hw.xfer b.xfers) (hw.xfer (b.xfers + 1)) ∧
    (writeBytes hw 0 [c, c'] b).2.starts = b.starts ∧
    ((hw.xfer b.xfers).Acked → (writeBytes hw 0 [c, c'] b).2.xfers = b.xfers + 2) := by
  rw [writeBytes_cons]
  cases hw.xfer b.xfers with
  | ack rx =>
    simp only [writeBytes_cons, transfer_xfers]
    cases hw.xfer (b.xfers + 1) <;> exact ⟨rfl, rfl, fun _ => rfl⟩
  | nack rx => exact ⟨rfl, rfl, False.elim⟩
  | timeout => exact ⟨rfl, rfl, False.elim⟩

/-- What two reads store: nothing behind a timeout. -/
def pairReceived : Response → Response → List UInt8
  | .timeout, _ => []
  | r, r' => (r.received).toList ++ (r'.received).toList

/-- Two bytes to be read: whatever happens to them, the result is positive. -/
theorem readBytes_two : 0 < (readBytes hw [] 2 b).1 ∧
    (readBytes hw [] 2 b).2.1 = pairReceived (hw.xfer b.xfers) (hw.xfer (b.xfers + 1)) := by
  rw [readBytes_succ]
  cases hw.xfer b.xfers with
  | timeout => exact ⟨by simp [etimedout], rfl⟩
  | ack rx =>
    simp only [readBytes_succ, transfer_xfers]
    cases hw.xfer (b.xfers + 1) <;> exact ⟨by simp [readBytes, etimedout], rfl⟩
  | nack rx =>
    simp only [readBytes_succ, transfer_xfers]
    cases hw.xfer (b.xfers + 1) <;> exact ⟨by simp [readBytes, etimedout], rfl⟩

end SortingLine.I2c.Bus
