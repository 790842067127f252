import Mathlib.Data.List.Basic

/-!
# Publishing over the modem

`parse_ok` and `nb_send_v_q` of `nb_conn.c`.  The modem answers each command with a text that ends
in `OK` or `ERROR` and a line end.  The answers arrive in the order of the commands, byte by byte,
at any time; what has arrived waits in the receive buffer of the UART, and `rt_device_read` takes
from it what is there, up to the size it is given, without waiting.

`nb_send_v_q` only sleeps between a command and the read.  How many bytes arrive before each of its
reads is therefore left to the environment (`Exchange`).  Each byte carries a mark: the `OK` at the
end of the answer to the `AT+CMQPUB` of a call carries the number of that call, a history value that
the code does not see.
-/

namespace SortingLine.Nb

/-! ### Answers -/

/-- `"OK\r\n"`. -/
def okText : List UInt8 := [79, 75, 13, 10]

/-- `"ERROR\r\n"`. -/
def errorText : List UInt8 := [69, 82, 82, 79, 82, 13, 10]

/-- The answer of the modem to a command. -/
structure Reply where
  body : List UInt8
  ok : Bool

/-- A byte on the line, with its mark. -/
structure RxByte where
  byte : UInt8
  okOf : Option Nat
deriving DecidableEq

/-- Bytes without a mark. -/
def plain (bs : List UInt8) : List RxByte := bs.map fun b => ⟨b, none⟩

/-- An answer without marks. -/
def Reply.unmarked (r : Reply) : List RxByte :=
  plain (r.body ++ if r.ok then okText else errorText)

/-- The answer to the `AT+CMQPUB` of call `c`: its final `OK` is marked. -/
def Reply.marked (r : Reply) (c : Nat) : List RxByte :=
  plain r.body ++
    if r.ok then [⟨79, some c⟩, ⟨75, some c⟩, ⟨13, none⟩, ⟨10, none⟩] else plain errorText

/-! ### The UART -/

/-- The receive side of the UART, and the static `flag` of `nb_send_v_q`. -/
structure Uart where
  /-- What waits in the receive buffer, oldest first. -/
  rx : List RxByte
  /-- What the modem still has to send, in order. -/
  coming : List RxByte
  flag : Bool

namespace Uart

/-- `rt_device_write` of a command: the modem will answer. -/
def write (u : Uart) (reply : List RxByte) : Uart := { u with coming := u.coming ++ reply }

/-- `rt_thread_delay`: the next `k` bytes arrive. -/
def arrive (u : Uart) (k : Nat) : Uart :=
  { u with rx := u.rx ++ u.coming.take k, coming := u.coming.drop k }

/-- `rt_device_read (s, -1, buf, size)`. -/
def read (u : Uart) (size : Nat) : List RxByte × Uart :=
  (u.rx.take size, { u with rx := u.rx.drop size })

/-- A command, the delay and the read. -/
def command (u : Uart) (reply : Reply) (arrivals size : Nat) : List RxByte × Uart :=
  ((u.write reply.unmarked).arrive arrivals).read size

end Uart

/-- `parse_ok (s, l)`. -/
def parseOk (s : List UInt8) : Bool :=
  let l := s.length
  4 ≤ l && s.getD (l - 1) 0 == 10 && s.getD (l - 2) 0 == 13 && s.getD (l - 3) 0 == 75 &&
    s.getD (l - 4) 0 == 79

/-- The bytes that were read, as the code sees them. -/
def text (r : List RxByte) : List UInt8 := r.map RxByte.byte

/-! ### `nb_send_v_q` -/

/-- What the modem does during one call: its answers to the six commands, and how many bytes arrive
before each of the five reads. -/
structure Exchange where
  discon : Reply
  new : Reply
  cfg : Reply
  con : Reply
  at_ : Reply
  pub : Reply
  newArrivals : Nat
  cfgArrivals : Nat
  conArrivals : Nat
  atArrivals : Nat
  pubArrivals : Nat

/-- The branch `flag == 0`: whether the connection was made. -/
def connect (e : Exchange) (u : Uart) : Bool × Uart :=
  -- the answer to `AT+CMQDISCON` is not read
  let u := u.write e.discon.unmarked
  let (buf, u) := u.command e.new e.newArrivals 40
  if ¬ parseOk (text buf) then (false, u)
  else
    let (buf, u) := u.command e.cfg e.cfgArrivals 40
    if ¬ parseOk (text buf) then (false, u)
    else
      let (buf, u) := u.command e.con e.conArrivals 40
      if ¬ parseOk (text buf) then (false, u) else (true, { u with flag := true })

/-- What a call returns; and, for the proofs, the UART right before the last read, if the call came
that far. -/
structure Outcome where
  ret : Int
  last : Option Uart

/-- From the connection to the last read. -/
def publish (c : Nat) (e : Exchange) (u : Uart) : Uart :=
  -- a failed `AT` is only printed
  let (_, u) := u.command e.at_ e.atArrivals 16
  (u.write (e.pub.marked c)).arrive e.pubArrivals

/-- `nb_send_v_q`, call number `c`. -/
def nbSendVQ (c : Nat) (e : Exchange) (u : Uart) : Outcome × Uart :=
  let (connected, u) := if u.flag then (true, u) else connect e u
  if ¬ connected then (⟨-1, none⟩, u)
  else
    let u := publish c e u
    -- whatever waits at the front, up to 60 bytes, is taken for the answer
    let (buf, u') := u.read 60
    if ¬ parseOk (text buf) then (⟨-1, some u⟩, { u' with flag := false })
    else (⟨0, some u⟩, { u' with flag := true })

/-- The outcomes of a sequence of calls, the first with number `c`. -/
def nbSendAll : Nat → Uart → List Exchange → List Outcome
  | _, _, [] => []
  | c, u, e :: es => (nbSendVQ c e u).1 :: nbSendAll (c + 1) (nbSendVQ c e u).2 es

end SortingLine.Nb
