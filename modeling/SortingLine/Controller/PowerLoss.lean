import Mathlib.Data.Nat.Init
import SortingLine.Controller.Messages
import SortingLine.Controller.System
import SortingLine.Library.Provenance

/-!
# Power cycles

The controller from its first start with an empty file system, over any number of power losses.
`mkdir` and each `file_write` happen whole or not at all; a power loss keeps the directory and may
take a tail of the log with it.  Everything else is in memory, so the next start is `Sys.start`
with the disk that is left.

As a history value each byte of the log carries the message of the write it comes from.  A byte of
the blank log, and one that fills the gap in front of a write, comes from none.
-/

namespace SortingLine

/-- What a power loss leaves of the disk: the first `n` bytes of the log. -/
def Disk.cut (d : Disk) (n : Nat) : Disk := { d with logfile := d.logfile.map (List.take n) }

/-- The bytes that `file_wr_task` writes for a message. -/
def FileMsg.data : FileMsg → List UInt8
  | .info total qualifiedAmount => words [3, total, qualifiedAmount]
  | .date year mon day => words [year, mon, day]

/-- The offset at which it writes them. -/
def FileMsg.offset : FileMsg → Nat
  | .info .. => 0
  | .date .. => 12

/-- The controller, and where the bytes of its log come from. -/
structure Powered where
  sys : Sys
  origin : Provenance FileMsg

/-- What happens next. -/
inductive Event
  /-- A step of the controller. -/
  | run (a : Label)
  /-- A power loss that leaves `n` bytes of the log, and the restart. -/
  | powerLoss (n : Nat) (tempAdc : UInt16)
deriving DecidableEq

namespace Powered

/-- The first start. -/
def new (tempAdc : UInt16) : Powered :=
  { sys := .start tempAdc { userlog := false, logfile := none }, origin := .empty }

/-- Where the bytes of the log come from after the step `a` of `s`. -/
def nextOrigin (o : Provenance FileMsg) (s : Sys) : Label → Provenance FileMsg
  | .fileBlank => o.write 0 24 none
  | .fileWrite =>
    match s.file with
    | .write m => o.write m.offset m.data.length (some m)
    | _ => o
  | _ => o

/-- A power loss and the restart. -/
def lose (s : Powered) (n : Nat) (tempAdc : UInt16) : Powered :=
  { sys := .start tempAdc (s.sys.disk.cut n), origin := s.origin.cut n }

/-- One event. -/
def step (s : Powered) : Event → Option Powered
  | .run a => (s.sys.step a).map fun sys => { sys, origin := nextOrigin s.origin s.sys a }
  | .powerLoss n tempAdc => some (s.lose n tempAdc)

/-- The state `s` is reached by the events `tr` from the first start. -/
def Reaches (tempAdc : UInt16) (tr : List (Powered × Event)) (s : Powered) : Prop :=
  Run step (new tempAdc) tr s

/-- The totals and the date of the log come from a write each. -/
def Recorded (o : Provenance FileMsg) (total qualifiedAmount year mon day : UInt32) : Prop :=
  (∀ k, 4 ≤ k → k < 12 → o k = some (.info total qualifiedAmount)) ∧
  ∀ k, 12 ≤ k → k < 24 → o k = some (.date year mon day)

instance (o : Provenance FileMsg) (total qualifiedAmount year mon day : UInt32) :
    Decidable (Recorded o total qualifiedAmount year mon day) :=
  inferInstanceAs (Decidable (_ ∧ _))

/-- What the file thread may report: a blank log, or a record all of whose fields were written. -/
def Sound (s : Powered) : Prop :=
  ∀ rbuf, s.sys.file = .report rbuf → Wire.sendFileMsg rbuf = words [2] ∨
    ∃ total qualifiedAmount year mon day,
      Wire.sendFileMsg rbuf = words [3, total, qualifiedAmount, year, mon, day] ∧
      Recorded s.origin total qualifiedAmount year mon day

/-- The event does no harm to the log: a power loss comes before the directory is made, or leaves
the flag of a blank log, or comes when the totals and the date are both written and leaves both. -/
def Harmless (x : Powered × Event) : Prop :=
  match x.2 with
  | .run _ => True
  | .powerLoss n _ =>
    x.1.sys.disk.userlog = false ∨
    (4 ≤ n ∧ 4 ≤ x.1.sys.disk.log.length ∧ wordAt x.1.sys.disk.log 0 = 0) ∨
    (24 ≤ n ∧ ∃ total qualifiedAmount year mon day,
      Recorded x.1.origin total qualifiedAmount year mon day)

end Powered

end SortingLine
