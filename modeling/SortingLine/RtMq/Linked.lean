import Mathlib.Logic.Function.Basic
import SortingLine.Library.Run
import SortingLine.RtMq.Queue
import SortingLine.Rtos.Ipc

/-!
# Message queues with interrupts between their steps

`rt_mq_send_wait`, `rt_mq_urgent`, `rt_mq_recv` and `rt_mq_control` of `RTT4/src/ipc.c`, as they run
when threads and interrupts come between their critical sections.  A message is copied with the
interrupts enabled: a sender first takes a slot from the free list, then copies, and then links the
slot into the queue; a receiver takes the slot out of the queue, copies, and then gives it back.  In
between the slot is in neither list.

A thread that finds no slot, or no message, is put on a list of the queue and calls `rt_schedule`;
when it runs again it looks at `thread->error`, and then at the queue once more.  When it does so,
and which of its neighbours come first, is up to the scheduler, so any thread may take any step that
its program allows.  An interrupt routine is a thread here that does not wait.
-/

namespace SortingLine

/-- `struct rt_messagequeue`, and the slots of its pool: their pointers and what they hold. -/
structure RtMessagequeue where
  msgSize : ℕ
  maxMsgs : UInt16
  flag : IpcFlag
  entry : UInt16
  msgQueueHead : Option ℕ
  msgQueueTail : Option ℕ
  msgQueueFree : Option ℕ
  next : ℕ → Option ℕ
  slot : ℕ → List UInt8
  suspendThread : List ℕ
  suspendSenderThread : List ℕ

namespace RtMessagequeue

/-- `rt_mq_create`: the loop puts one slot after the other in front of the free list; the pool is
memory from the heap. -/
def create (msgSize : UInt32) (maxMsgs : UInt16) (flag : IpcFlag) (pool : ℕ → List UInt8) :
    RtMessagequeue where
  msgSize := slotSize msgSize
  maxMsgs := maxMsgs
  flag := flag
  entry := 0
  msgQueueHead := none
  msgQueueTail := none
  msgQueueFree := if maxMsgs = 0 then none else some (maxMsgs.toNat - 1)
  next := fun temp => if temp = 0 then none else some (temp - 1)
  slot := pool
  suspendThread := []
  suspendSenderThread := []

/-- A slot is taken from the free list. -/
def takeFree (mq : RtMessagequeue) (msg : ℕ) : RtMessagequeue :=
  { mq with msgQueueFree := mq.next msg }

/-- A slot is put in front of the free list. -/
def giveFree (mq : RtMessagequeue) (msg : ℕ) : RtMessagequeue :=
  { mq with
    next := Function.update mq.next msg mq.msgQueueFree
    msgQueueFree := some msg }

/-- A message is linked behind the tail of the queue. -/
def linkTail (mq : RtMessagequeue) (msg : ℕ) : RtMessagequeue :=
  { mq with
    next :=
      match mq.msgQueueTail with
      | some tail => Function.update mq.next tail (some msg)
      | none => mq.next
    msgQueueTail := some msg
    msgQueueHead := if mq.msgQueueHead = none then some msg else mq.msgQueueHead
    entry := mq.entry + 1 }

/-- A message is linked before the head of the queue. -/
def linkHead (mq : RtMessagequeue) (msg : ℕ) : RtMessagequeue :=
  { mq with
    next := Function.update mq.next msg mq.msgQueueHead
    msgQueueHead := some msg
    msgQueueTail := if mq.msgQueueTail = none then some msg else mq.msgQueueTail
    entry := mq.entry + 1 }

/-- The head is taken out of the queue. -/
def takeHead (mq : RtMessagequeue) (msg : ℕ) : RtMessagequeue :=
  { mq with
    msgQueueHead := mq.next msg
    msgQueueTail := if mq.msgQueueTail = some msg then none else mq.msgQueueTail
    entry := mq.entry - 1 }

/-- `rt_memcpy` to or from a slot. -/
def copyIn (mq : RtMessagequeue) (msg : ℕ) (data : List UInt8) : RtMessagequeue :=
  { mq with slot := Function.update mq.slot msg (patch (mq.slot msg) 0 data) }

/-- The loop of `RT_IPC_CMD_RESET`; one step for each slot is enough. -/
def releaseAll (mq : RtMessagequeue) : ℕ → RtMessagequeue
  | 0 => mq
  | fuel + 1 =>
    match mq.msgQueueHead with
    | none => mq
    | some msg =>
      let mq : RtMessagequeue :=
        { mq with
          msgQueueHead := mq.next msg
          msgQueueTail := if mq.msgQueueTail = some msg then none else mq.msgQueueTail }
      (mq.giveFree msg).releaseAll fuel

end RtMessagequeue

/-- Where a thread is: what it does next, with its local variables. -/
inductive MqPc
  | idle
  /-- In `rt_schedule` of `rt_mq_send_wait`. -/
  | sendWait (data : List UInt8) (timeout : Int32)
  | sendCopy (msg : ℕ) (data : List UInt8)
  | sendLink (msg : ℕ) (data : List UInt8)
  | urgentCopy (msg : ℕ) (data : List UInt8)
  | urgentLink (msg : ℕ) (data : List UInt8)
  /-- In `rt_schedule` of `rt_mq_recv`. -/
  | recvWait (buffer : List UInt8) (size : ℕ) (timeout : Int32)
  | recvCopy (msg : ℕ) (buffer : List UInt8) (size : ℕ)
  | recvFree (msg : ℕ) (buffer : List UInt8) (size : ℕ)
deriving DecidableEq, Repr

/-- A thread: where it is, `thread->error`, and what its last call returned and received. -/
structure MqThread where
  pc : MqPc
  error : IpcErr
  ret : Option (IpcErr × List UInt8)
deriving DecidableEq, Repr

/-- The queue and the threads that use it. -/
structure MqSystem where
  mq : RtMessagequeue
  thread : ℕ → MqThread
  priority : ℕ → ℕ

/-- What happens next. -/
inductive MqAct
  | send (t : ℕ) (data : List UInt8) (timeout : Int32)
  | urgent (t : ℕ) (data : List UInt8)
  | recv (t : ℕ) (buffer : List UInt8) (size : ℕ) (timeout : Int32)
  /-- A thread in a call goes on to its next critical section; `delta` ticks have passed if it was
  suspended. -/
  | run (t : ℕ) (delta : UInt32)
  /-- The timer of a suspended thread. -/
  | expire (t : ℕ)
  | reset
  | setPriority (t p : ℕ)
deriving DecidableEq, Repr

namespace MqSystem

/-- A queue from `rt_mq_create`, and no thread in a call. -/
def start (mq : RtMessagequeue) : MqSystem :=
  { mq, thread := fun _ => { pc := .idle, error := .eok, ret := none }, priority := fun _ => 0 }

def setThread (s : MqSystem) (t : ℕ) (thread : MqThread) : MqSystem :=
  { s with thread := Function.update s.thread t thread }

/-- A thread goes on to another place. -/
def goto (s : MqSystem) (t : ℕ) (pc : MqPc) : MqSystem := s.setThread t { s.thread t with pc }

/-- A call returns. -/
def finish (s : MqSystem) (t : ℕ) (err : IpcErr) (buffer : List UInt8) : MqSystem :=
  s.setThread t { s.thread t with pc := .idle, ret := some (err, buffer) }

/-- The thread is neither on the list of receivers nor on that of senders. -/
def Ready (s : MqSystem) (t : ℕ) : Prop :=
  t ∉ s.mq.suspendThread ∧ t ∉ s.mq.suspendSenderThread

instance (s : MqSystem) (t : ℕ) : Decidable (s.Ready t) := inferInstanceAs (Decidable (_ ∧ _))

/-- The first critical section of `rt_mq_send_wait`, and the one after each wait. -/
def sendEnter (s : MqSystem) (t : ℕ) (data : List UInt8) (timeout : Int32) : MqSystem :=
  match s.mq.msgQueueFree with
  | some msg => { s with mq := s.mq.takeFree msg }.goto t (.sendCopy msg data)
  | none =>
    if timeout = 0 then s.finish t .efull []
    else
      { s with
        mq := { s.mq with
          suspendSenderThread :=
            rtIpcListSuspend s.mq.flag s.priority s.mq.suspendSenderThread t } }.setThread t
        { s.thread t with pc := .sendWait data timeout, error := .eok }

/-- The first critical section of `rt_mq_recv`, and the one after each wait. -/
def recvEnter (s : MqSystem) (t : ℕ) (buffer : List UInt8) (size : ℕ) (timeout : Int32) :
    Option MqSystem :=
  if s.mq.entry = 0 then
    if timeout = 0 then some (s.finish t .etimeout buffer)
    else
      some ({ s with
        mq := { s.mq with
          suspendThread := rtIpcListSuspend s.mq.flag s.priority s.mq.suspendThread t } }.setThread t
        { s.thread t with pc := .recvWait buffer size timeout, error := .eok })
  else
    -- without a head the message would be read behind a null pointer
    s.mq.msgQueueHead.map fun msg =>
      { s with mq := s.mq.takeHead msg }.goto t (.recvCopy msg buffer size)

/-- `rt_mq_recv` gives up after a wait. -/
def recvTimeout (s : MqSystem) (t : ℕ) (buffer : List UInt8) : MqSystem :=
  s.setThread t { pc := .idle, error := .etimeout, ret := some (.etimeout, buffer) }

/-- `rt_ipc_list_resume` of a receiver, if there is one. -/
def resumeReceiver (s : MqSystem) : MqSystem :=
  { s with mq := { s.mq with suspendThread := s.mq.suspendThread.tail } }

/-- `rt_ipc_list_resume` of a sender, if there is one. -/
def resumeSender (s : MqSystem) : MqSystem :=
  { s with mq := { s.mq with suspendSenderThread := s.mq.suspendSenderThread.tail } }

/-- What is left of the time after `delta` ticks. -/
def timeLeft (timeout : Int32) (delta : UInt32) : Int32 :=
  if 0 < timeout then
    if timeout - delta.toInt32 < 0 then 0 else timeout - delta.toInt32
  else timeout

/-- A thread goes on in its call. -/
def run (s : MqSystem) (t : ℕ) (delta : UInt32) : Option MqSystem :=
  match (s.thread t).pc with
  | .idle => none
  | .sendWait data timeout =>
    if s.Ready t then
      if (s.thread t).error ≠ .eok then some (s.finish t (s.thread t).error [])
      else some (s.sendEnter t data (timeLeft timeout delta))
    else none
  | .sendCopy msg data =>
    some ({ s with
      mq := { s.mq.copyIn msg data with
        next := Function.update s.mq.next msg none } }.goto t (.sendLink msg data))
  | .sendLink msg _ => some ({ s with mq := s.mq.linkTail msg }.resumeReceiver.finish t .eok [])
  | .urgentCopy msg data =>
    some ({ s with mq := s.mq.copyIn msg data }.goto t (.urgentLink msg data))
  | .urgentLink msg _ => some ({ s with mq := s.mq.linkHead msg }.resumeReceiver.finish t .eok [])
  | .recvWait buffer size timeout =>
    if s.Ready t then
      if (s.thread t).error ≠ .eok then some (s.finish t (s.thread t).error buffer)
      else if s.mq.entry = 0 ∧ timeLeft timeout delta = 0 then some (s.recvTimeout t buffer)
      else s.recvEnter t buffer size (timeLeft timeout delta)
    else none
  | .recvCopy msg buffer size =>
    some (s.goto t (.recvFree msg
      (patch buffer 0 ((s.mq.slot msg).take (min size s.mq.msgSize))) size))
  | .recvFree msg buffer _ =>
    some ({ s with mq := s.mq.giveFree msg }.resumeSender.finish t .eok buffer)

/-- `rt_thread_timeout` of a thread that waits. -/
def expire (s : MqSystem) (t : ℕ) : Option MqSystem :=
  match (s.thread t).pc with
  | .sendWait _ timeout =>
    if 0 < timeout ∧ t ∈ s.mq.suspendSenderThread then
      some ({ s with
        mq := { s.mq with
          suspendSenderThread := s.mq.suspendSenderThread.erase t } }.setThread t
        { s.thread t with error := .etimeout })
    else none
  | .recvWait _ _ timeout =>
    if 0 < timeout ∧ t ∈ s.mq.suspendThread then
      some ({ s with mq := { s.mq with suspendThread := s.mq.suspendThread.erase t } }.setThread t
        { s.thread t with error := .etimeout })
    else none
  | _ => none

/-- `rt_mq_control (mq, RT_IPC_CMD_RESET, RT_NULL)` -/
def reset (s : MqSystem) : MqSystem :=
  { s with
    mq := { s.mq.releaseAll s.mq.maxMsgs.toNat with
      entry := 0
      suspendThread := []
      suspendSenderThread := [] }
    thread := fun t =>
      if t ∈ s.mq.suspendThread ∨ t ∈ s.mq.suspendSenderThread then
        { s.thread t with error := .error }
      else s.thread t }

/-- A step of the system. -/
def step (s : MqSystem) : MqAct → Option MqSystem
  | .send t data timeout =>
    if (s.thread t).pc = .idle then
      if s.mq.msgSize < data.length then some (s.finish t .error [])
      else some (s.sendEnter t data timeout)
    else none
  | .urgent t data =>
    if (s.thread t).pc = .idle then
      if s.mq.msgSize < data.length then some (s.finish t .error [])
      else
        match s.mq.msgQueueFree with
        | none => some (s.finish t .efull [])
        | some msg => some ({ s with mq := s.mq.takeFree msg }.goto t (.urgentCopy msg data))
    else none
  | .recv t buffer size timeout =>
    if (s.thread t).pc = .idle then s.recvEnter t buffer size timeout else none
  | .run t delta => s.run t delta
  | .expire t => s.expire t
  | .reset => some s.reset
  | .setPriority t p => some { s with priority := Function.update s.priority t p }

end MqSystem

end SortingLine
