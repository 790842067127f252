import SortingLine.Controller.NbConn
import SortingLine.Library.Run

/-!
# The MQTT session

`nb_send_v_q` again, for any contents of its reads: what it writes on the serial line, in which
order, and what becomes of its static `flag`.  The modem, the UART and the timing are all in
`Answers`; `Controller/Equiv/Session.lean` shows that `nbSendVQ`, which has them, is an instance.
-/

namespace SortingLine.Nb

/-- The commands of `nb_send_v_q`. -/
inductive Cmd
  | cmqdiscon
  | cmqnew
  | cmqalicfg
  | cmqalicon
  | at_
  | cmqpub
deriving DecidableEq, Repr

/-- What happens on the serial line. -/
inductive LineEvent
  /-- `rt_device_write` of a command. -/
  | write (c : Cmd)
  /-- `rt_device_read` after the command `c` gets the bytes `buf`. -/
  | read (c : Cmd) (buf : List UInt8)
deriving DecidableEq, Repr

/-- What the reads of one call get, if they are reached. -/
structure Answers where
  cmqnew : List UInt8
  cmqalicfg : List UInt8
  cmqalicon : List UInt8
  at_ : List UInt8
  cmqpub : List UInt8
deriving DecidableEq, Repr

/-- What a call does: the events, in order, the new `flag` and the result. -/
structure Call where
  events : List LineEvent
  flag : Bool
  ret : Int
deriving DecidableEq, Repr

/-- The branch `flag == 0`: the events, and whether the set-up came to its end. -/
def setUp (r : Answers) : List LineEvent × Bool :=
  -- nothing is read between the first two commands
  let es := [.write .cmqdiscon, .write .cmqnew, .read .cmqnew r.cmqnew]
  if ¬ parseOk r.cmqnew then (es, false)
  else
    let es := es ++ [.write .cmqalicfg, .read .cmqalicfg r.cmqalicfg]
    if ¬ parseOk r.cmqalicfg then (es, false)
    else
      let es := es ++ [.write .cmqalicon, .read .cmqalicon r.cmqalicon]
      if ¬ parseOk r.cmqalicon then (es, false) else (es, true)

/-- From the `AT` that refreshes the modem to the end; a failed `AT` is only printed. -/
def sendVQ (r : Answers) : Call :=
  let es := [.write .at_, .read .at_ r.at_, .write .cmqpub, .read .cmqpub r.cmqpub]
  if ¬ parseOk r.cmqpub then ⟨es, false, -1⟩ else ⟨es, true, 0⟩

/-- `nb_send_v_q`. -/
def call (flag : Bool) (r : Answers) : Call :=
  if flag then sendVQ r
  else
    let (es, connected) := setUp r
    -- `flag` stays 0
    if ¬ connected then ⟨es, false, -1⟩ else { sendVQ r with events := es ++ (sendVQ r).events }

/-- One call, as a step of the static `flag`. -/
def step (flag : Bool) (r : Answers) : Option Bool := some (call flag r).flag

/-- The calls `tr` were made from power-on and left the flag `flag`. -/
def Calls (tr : List (Bool × Answers)) (flag : Bool) : Prop := Run step false tr flag

/-- What happened on the serial line in a sequence of calls. -/
def events (tr : List (Bool × Answers)) : List LineEvent :=
  tr.flatMap fun x => (call x.1 x.2).events

end SortingLine.Nb
