import SortingLine.Controller.FileLog
import SortingLine.Controller.Flush
import SortingLine.Controller.MainLoop
import SortingLine.Library.BoundedQueue
import SortingLine.Library.Run

/-!
# The controller as one system

`main`, the two GPIO interrupt handlers, the button task, the touchscreen task, the flush task, the
file thread and the NB thread, from the moment `main` enters its loop.  They share four message
queues (`main_mq` of 6 messages, `output_datas_mq` of 4, `file_write_mq` and `nbiot_mq` of 2) and
the enable register of interrupt controller 3.  Every send is `rt_mq_send`, which drops the message
when the queue is full, and every sender ignores its result.

`Sys.step s a` takes one step of one party.  The label says who moves and what the outside world
supplies: whether and what the ADC delivered, what the modem answered, the word behind `r_buf`, the
old contents of the file thread's buffer.  Any party may move whenever it can, so the runs of
`Sys.step` contain every interleaving that the priorities allow.

The touchscreen pen uses GPIO 54, which lies in the same enable register as the input pins; its task
masks and unmasks it with the same load and store.
-/

namespace SortingLine

/-- Where the NB thread stands.  A record travels with its number, counted from 1 in the order in
which `main` weighed the items: a history value. -/
inductive NbPc
  /-- Before `rt_device_open` and `nb_init`. -/
  | start
  /-- In `nb_get_csq`. -/
  | csq
  /-- In `nb_get_time`. -/
  | time
  /-- In `rt_mq_recv (nbiot_mq, ..)`. -/
  | idle
  /-- `set_at_cmd` is done; in `nb_send_v_q`. -/
  | publish (x : NbRecord × Nat)
  /-- No serial device: the thread has ended. -/
  | ended
deriving DecidableEq

/-- The state of the system. -/
structure Sys where
  main : Main
  ien : Ien
  /-- The enable register as the touchscreen task loaded it, while it is about to store it. -/
  touch : Option Ien
  pulseOut : UInt32
  mainMq : BQueue (MainMsg (NbRecord × Nat)) 6
  outputDatasMq : BQueue OutMsg 4
  fileWriteMq : BQueue FileMsg 2
  nbiotMq : BQueue (NbRecord × Nat) 2
  /-- The message the flush task is drawing; `none` while it waits in `rt_mq_recv`. -/
  flush : Option OutMsg
  grid : Grid
  file : FilePc
  disk : Disk
  nb : NbPc
  /-- The number of items weighed so far: a history value. -/
  weighed : Nat

/-- Who moves, and what the outside world supplies. -/
inductive Label
  /-- A falling edge on an input pin that is not masked. -/
  | edge (p : Pin)
  /-- A click on the button that raises (`true`) or lowers the threshold. -/
  | onclick (up : Bool)
  | touchLoad
  | touchStore
  /-- `main` receives a message; `after` is the word behind `r_buf`. -/
  | mainRecv (after : UInt32)
  /-- An ADC read returns, with a value unless it failed. -/
  | mainRead (adc : Option UInt16)
  /-- The delay of 800 ticks is over. -/
  | mainWake
  | mainLoad
  | mainStore
  | flushRecv
  | flushDraw
  /-- The file thread looks for its directory, if `yaffs` is running. -/
  | fileStart (running : Bool)
  | fileBlank
  /-- The file thread reads the log into a buffer that holds `rbuf`. -/
  | fileRead (rbuf : Vector UInt8 24)
  | fileReport
  | fileRecv
  | fileWrite
  /-- The NB thread opens the serial device, if there is one, and runs `nb_init`. -/
  | nbStart (found : Bool)
  /-- `nb_get_csq` ends; the two characters of the answer if it was accepted. -/
  | nbCsq (answer : Option (UInt8 × UInt8))
  /-- `nb_get_time` ends; the eight characters of the answer if it was accepted. -/
  | nbTime (answer : Option (Vector UInt8 8))
  | nbRecv
  /-- `nb_send_v_q` returns, 0 for success. -/
  | nbDone (success : Bool)
deriving DecidableEq

namespace Sys

/-- Start of the loop: both pins enabled, the queues empty but for the two display messages sent
before it.  `temp_adc` and the disk are arbitrary. -/
def start (tempAdc : UInt16) (disk : Disk) : Sys :=
  { main := .start tempAdc
    ien := { signal := true, signal2 := true }
    touch := none
    pulseOut := 0
    mainMq := .empty
    outputDatasMq := (BQueue.empty.send (sendVThresholdMsg initRes)).send (sendRtcMsg initInfo)
    fileWriteMq := .empty
    nbiotMq := .empty
    flush := none
    grid := .blank
    file := .start
    disk
    nb := .start
    weighed := 0 }

/-- A send on `main_mq`. -/
def post (s : Sys) (m : MainMsg (NbRecord × Nat)) : Sys := { s with mainMq := s.mainMq.send m }

/-- An interrupt handler: mask the pin, then send the message. -/
def isr (s : Sys) (p : Pin) (m : MainMsg (NbRecord × Nat)) : Sys :=
  { s with ien := s.ien.set p false }.post m

/-- `input_interrupt_isr`. -/
def inputInterruptIsr (s : Sys) : Sys := s.isr .inputSignal .weigh

/-- `input_interrupt_isr2`. -/
def inputInterruptIsr2 (s : Sys) : Sys := s.isr .inputSignal2 .grabbed

/-- `main_onclick_0001` and `main_onclick_0002`, through `send_btn_msg`. -/
def sendBtnMsg (s : Sys) (up : Bool) : Sys :=
  s.post (if up then .thresholdUp else .thresholdDown)

/-- One effect of a step of `main`. -/
def effect (s : Sys) : Effect → Sys
  | .output m => { s with outputDatasMq := s.outputDatasMq.send m }
  | .file m => { s with fileWriteMq := s.fileWriteMq.send m }
  | .nb r => { s with nbiotMq := s.nbiotMq.send (r, s.weighed + 1), weighed := s.weighed + 1 }
  | .pulse v => { s with pulseOut := v }

/-- A step of `main` with its effects, in order. -/
def commit (s : Sys) (r : Main × List Effect) : Sys := r.2.foldl effect { s with main := r.1 }

/-- `main` at its next program point. -/
def goto (s : Sys) (pc : MainPc) : Sys := { s with main := { s.main with pc } }

/-- One step. -/
def step (s : Sys) : Label → Option Sys
  | .edge .inputSignal => if s.ien.signal then some s.inputInterruptIsr else none
  | .edge .inputSignal2 => if s.ien.signal2 then some s.inputInterruptIsr2 else none
  | .onclick up => some (s.sendBtnMsg up)
  | .touchLoad => if s.touch = none then some { s with touch := some s.ien } else none
  -- only the bit of the pen changes, but the whole register is written
  | .touchStore => s.touch.map fun loaded => { s with ien := loaded, touch := none }
  | .mainRecv after =>
    if s.main.pc = .recv then
      s.mainMq.recv.map fun (m, q) => { s with mainMq := q }.commit (s.main.recv m after)
    else none
  | .mainRead adc =>
    match s.main.pc with
    | .readWeigh => some (s.commit (s.main.readWeigh adc))
    | .readGrab => some (s.commit (s.main.readGrab adc, []))
    | _ => none
  | .mainWake => if s.main.pc = .delay then some (s.commit s.main.wake) else none
  | .mainLoad =>
    match s.main.pc with
    | .enable2Load => some (s.goto (.enable2Store s.ien))
    | .enableLoad => some (s.goto (.enableStore s.ien))
    | _ => none
  | .mainStore =>
    match s.main.pc with
    | .enable2Store loaded =>
      -- what was loaded, with one more bit: a change made since is undone
      some ({ s with ien := loaded.set .inputSignal2 true }.goto .enableLoad)
    | .enableStore loaded => some ({ s with ien := loaded.set .inputSignal true }.goto .recv)
    | _ => none
  | .flushRecv =>
    if s.flush = none then
      s.outputDatasMq.recv.map fun (m, q) => { s with outputDatasMq := q, flush := some m }
    else none
  | .flushDraw => s.flush.map fun m => { s with grid := s.grid.draw m, flush := none }
  | .fileStart running =>
    if s.file = .start then
      if ¬ running then some { s with file := .ended }
      else if s.disk.userlog then some { s with file := .read }
      else some { s with disk := s.disk.mkdir, file := .blank }
    else none
  | .fileBlank =>
    if s.file = .blank then
      some { s with disk := s.disk.fileWrite (List.replicate 24 0) 0, file := .read }
    else none
  | .fileRead rbuf =>
    if s.file = .read then some { s with file := .report (s.disk.fileRead rbuf.toList 24) }
    else none
  | .fileReport =>
    match s.file with
    -- one try: if `main_mq` is full the report is gone
    | .report rbuf => some ({ s with file := .idle }.post (sendFileMsg rbuf))
    | _ => none
  | .fileRecv =>
    if s.file = .idle then
      s.fileWriteMq.recv.map fun (m, q) => { s with fileWriteMq := q, file := .write m }
    else none
  | .fileWrite =>
    match s.file with
    | .write m => some { s with disk := s.disk.handle m, file := .idle }
    | _ => none
  | .nbStart found =>
    if s.nb = .start then some { s with nb := if found then .csq else .ended } else none
  | .nbCsq answer =>
    if s.nb = .csq then
      match answer with
      | some (c₄, c₅) => some ({ s with nb := .time }.post (.csq c₄ c₅))
      | none => some { s with nb := .time }
    else none
  | .nbTime answer =>
    if s.nb = .time then
      match answer with
      | some d => some ({ s with nb := .idle }.post (.date d))
      | none => some { s with nb := .idle }
    else none
  | .nbRecv =>
    if s.nb = .idle then
      s.nbiotMq.recv.map fun (x, q) => { s with nbiotMq := q, nb := .publish x }
    else none
  | .nbDone success =>
    match s.nb with
    | .publish x =>
      -- a record that could not be published is not tried again
      some (if success then { s with nb := .idle }.post (.published x) else { s with nb := .idle })
    | _ => none

/-- The state `s` is reached by the steps `tr` from the start of the loop. -/
def Reaches (tempAdc : UInt16) (disk : Disk) (tr : List (Sys × Label)) (s : Sys) : Prop :=
  Run step (start tempAdc disk) tr s

end Sys

end SortingLine
