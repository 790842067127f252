import SortingLine.Controller.MainLoop
import SortingLine.Library.Run

/-!
# Starting up

`main` up to its loop, one operation after the other, while the tasks and the interrupts it has
already started run.  A task is reduced to its uses of the message queues, and may use them at any
time once it is started; an input pin may interrupt once `ls1x_install_gpio_isr` has enabled it
(the masks that the handlers set only take interrupts away, and are left out).  A queue that does
not exist is `RT_NULL`, and `rt_mq_send` and `rt_mq_recv` assert that their queue is not.
-/

namespace SortingLine

/-- Where `main` stands. -/
inductive BootPc
  | createOutputDatasMq
  /-- `start_gui_task`, up to `start_gui_monitor_task`. -/
  | startGuiMonitorTask
  | startFlushTask
  | sendVThresholdMsg
  | sendRtcMsg
  /-- `rt_device_find (ADS1015_DEVICE_NAME)`. -/
  | findAdc
  /-- `ls1x_disable_gpio_interrupt`. -/
  | disable (p : Pin)
  /-- `ls1x_install_gpio_isr`, which enables the interrupt as its last action. -/
  | install (p : Pin)
  /-- `ls1x_enable_gpio_interrupt`. -/
  | enable (p : Pin)
  | createMainMq
  | createFileWriteMq
  | createNbiotMq
  | startFileWrTask
  | startNbTask
  /-- In the loop, using `main_mq` and the queues it feeds. -/
  | loop
  /-- No ADC: `main` has returned. -/
  | returned
deriving DecidableEq

/-- The state of the start-up. -/
structure Boot where
  pc : BootPc
  /-- The queues that are not `RT_NULL`. -/
  created : Mq → Bool
  /-- The pins that may interrupt. -/
  armed : Pin → Bool
  /-- The task that handles the buttons runs. -/
  gui : Bool
  flush : Bool
  file : Bool
  nb : Bool

/-- Who moves. -/
inductive BootLabel
  /-- The next operation of `main`; `ok` says whether it succeeds, if it may fail. -/
  | main (ok : Bool)
  /-- A falling edge interrupts. -/
  | edge (p : Pin)
  | onclick
  | flushRecv
  | fileSend
  | fileRecv
  | nbSend
  | nbRecv
deriving DecidableEq

namespace Boot

/-- At the first `rt_mq_create`. -/
def start : Boot :=
  { pc := .createOutputDatasMq
    created := fun _ => false
    armed := fun _ => false
    gui := false
    flush := false
    file := false
    nb := false }

/-- The queue variable after `rt_mq_create`. -/
def create (s : Boot) (q : Mq) (ok : Bool) (pc : BootPc) : Boot :=
  { s with created := fun r => if r = q then ok else s.created r, pc }

/-- The next operation of `main`. -/
def mainStep (s : Boot) (ok : Bool) : Option Boot :=
  match s.pc with
  | .createOutputDatasMq => some (s.create .outputDatasMq ok .startGuiMonitorTask)
  | .startGuiMonitorTask =>
    -- without a frame buffer or a display `start_gui_task` returns early
    if ok then some { s with gui := true, pc := .startFlushTask }
    else some { s with pc := .sendVThresholdMsg }
  | .startFlushTask => some { s with flush := ok, pc := .sendVThresholdMsg }
  | .sendVThresholdMsg => some { s with pc := .sendRtcMsg }
  | .sendRtcMsg => some { s with pc := .findAdc }
  | .findAdc => some { s with pc := if ok then .disable .inputSignal else .returned }
  | .disable p => some { s with pc := .install p }
  | .install p =>
    some { s with armed := fun r => if r = p then true else s.armed r, pc := .enable p }
  | .enable .inputSignal => some { s with pc := .disable .inputSignal2 }
  | .enable .inputSignal2 => some { s with pc := .createMainMq }
  -- the result is printed, and otherwise ignored
  | .createMainMq => some (s.create .mainMq ok .createFileWriteMq)
  | .createFileWriteMq => some (s.create .fileWriteMq ok .createNbiotMq)
  | .createNbiotMq => some (s.create .nbiotMq ok .startFileWrTask)
  | .startFileWrTask => some { s with file := ok, pc := .startNbTask }
  | .startNbTask => some { s with nb := ok, pc := .loop }
  | .loop => some s
  | .returned => none

/-- One step; the tasks and the interrupt handlers change nothing here but use the queues. -/
def step (s : Boot) : BootLabel → Option Boot
  | .main ok => s.mainStep ok
  | .edge p => if s.armed p then some s else none
  | .onclick => if s.gui then some s else none
  | .flushRecv => if s.flush then some s else none
  | .fileSend | .fileRecv => if s.file then some s else none
  | .nbSend | .nbRecv => if s.nb then some s else none

/-- The queues that a step uses. -/
def uses (s : Boot) : BootLabel → List Mq
  | .main _ =>
    match s.pc with
    | .sendVThresholdMsg | .sendRtcMsg => [.outputDatasMq]
    | .loop => [.mainMq, .outputDatasMq, .fileWriteMq, .nbiotMq]
    | _ => []
  | .edge _ | .onclick | .fileSend | .nbSend => [.mainMq]
  | .flushRecv => [.outputDatasMq]
  | .fileRecv => [.fileWriteMq]
  | .nbRecv => [.nbiotMq]

/-- The assertions of `rt_mq_send` and `rt_mq_recv` hold: every queue that the step uses exists. -/
def Safe (x : Boot × BootLabel) : Prop := ∀ q ∈ uses x.1 x.2, x.1.created q = true

instance : DecidablePred Safe := fun _ => inferInstanceAs (Decidable (∀ q ∈ _, _ = _))

/-- The state `s` is reached by the steps `tr`. -/
def Reaches (tr : List (Boot × BootLabel)) (s : Boot) : Prop := Run step start tr s

end Boot

end SortingLine
