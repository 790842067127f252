import SortingLine.Controller.MainLoop
import SortingLine.Controller.NbConn

/-!
# Signal quality and date from the modem

`nb_get_csq` and `nb_get_time` of `nb_conn.c`, for whatever bytes wait in the receive buffer of the
UART when they read.  The buffers on the stack are not initialised, and `NS16550_read` sets their
first byte before it stores what has been received.
-/

namespace SortingLine.Nb

/-- The commands written. -/
inductive SetupCmd
  | csq
  | csoc
  | csocon
  | csocl
deriving DecidableEq, Repr

/-- What a call does: its result, the message for `main`, the commands it wrote, in order, and the
bytes that still wait in the receive buffer. -/
structure Setup where
  ret : Int
  sent : Option (MainMsg Unit)
  writes : List SetupCmd
  rest : List UInt8
deriving DecidableEq, Repr

/-- The buffer `junk` after `rt_device_read` stored the bytes `got` in it. -/
def filled (junk got : List UInt8) : List UInt8 := got ++ (junk.set 0 0xFF).drop got.length

/-- `nb_get_csq`, with `rx` waiting at the read. -/
def nbGetCsq (junk : Vector UInt8 40) (rx : List UInt8) : Setup :=
  let got := rx.take 20
  if ¬ parseOk got then ⟨-1, none, [.csq], rx.drop 20⟩
  else
    let buf := filled junk.toList got
    ⟨0, some (.csq (buf.getD 8 0) (buf.getD 9 0)), [.csq], rx.drop 20⟩

/-- `nb_get_time`, with `rx` waiting at the first read; then `arrived` arrives. -/
def nbGetTime (junk : Vector UInt8 60) (rx arrived : List UInt8) : Setup :=
  let got := rx.take 20
  if ¬ parseOk got then ⟨-1, none, [.csoc], rx.drop 20⟩
  else
    let buf := filled junk.toList got
    let rx := rx.drop 20 ++ arrived
    let got := rx.take 50
    if got.length ≠ 48 then ⟨-1, none, [.csoc, .csocon], rx.drop 50⟩
    else
      let buf := filled buf got
      ⟨0, some (.date #v[buf.getD 23 0, buf.getD 25 0, buf.getD 27 0, buf.getD 29 0,
        buf.getD 31 0, buf.getD 33 0, buf.getD 35 0, buf.getD 37 0]), [.csoc, .csocon, .csocl],
        rx.drop 50⟩

end SortingLine.Nb
