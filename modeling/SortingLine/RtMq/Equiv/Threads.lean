import SortingLine.Library.Deque
import SortingLine.RtMq.Equiv.Slots

/-!
# What a step of a thread can do

`Move s e s'`: the critical sections of the message queue, each with the message that it puts into
the queue or takes out (`step_cases`).  Every invariant of the system is a case analysis of the
moves, and none of them looks at the program of the calls again.
-/

namespace SortingLine

/-- What happens to the messages of a queue. -/
abbrev MqEvent := DequeEvent ℕ (List UInt8)

/-- The slot that a thread copies to or from. -/
def MqPc.held : MqPc → Option ℕ
  | .sendCopy msg _ => some msg
  | .sendLink msg _ => some msg
  | .urgentCopy msg _ => some msg
  | .urgentLink msg _ => some msg
  | .recvCopy msg _ _ => some msg
  | .recvFree msg _ _ => some msg
  | _ => none

namespace MqSystem

variable {s s' : MqSystem} {t u : ℕ} {th : MqThread} {a : MqAct} {e : Option MqEvent}

/-- What each thread holds. -/
def held (s : MqSystem) (t : ℕ) : Option ℕ := (s.thread t).pc.held

@[simp]
theorem thread_setThread_self : (s.setThread t th).thread t = th := Function.update_self ..

theorem thread_setThread_of_ne (h : u ≠ t) : (s.setThread t th).thread u = s.thread u :=
  Function.update_of_ne h ..

@[simp]
theorem mq_setThread : (s.setThread t th).mq = s.mq := rfl

theorem held_setThread :
    (s.setThread t th).held = Function.update s.held t th.pc.held := by
  funext u
  by_cases h : u = t
  · rw [h, held, thread_setThread_self, Function.update_self]
  · rw [held, thread_setThread_of_ne h, Function.update_of_ne h, held]

/-- The thread waits in `rt_mq_send_wait`. -/
def Sending (s : MqSystem) (t : ℕ) : Prop :=
  ∃ data timeout, (s.thread t).pc = .sendWait data timeout

/-- The thread waits in `rt_mq_recv`. -/
def Receiving (s : MqSystem) (t : ℕ) : Prop :=
  ∃ buffer size timeout, (s.thread t).pc = .recvWait buffer size timeout

/-- A sender that was resumed and has not looked at the queue since. -/
structure WokenSender (s : MqSystem) (t : ℕ) : Prop where
  sending : s.Sending t
  error : (s.thread t).error = .eok
  resumed : t ∉ s.mq.suspendSenderThread

/-- A receiver that was resumed and has not looked at the queue since. -/
structure WokenReceiver (s : MqSystem) (t : ℕ) : Prop where
  receiving : s.Receiving t
  error : (s.thread t).error = .eok
  resumed : t ∉ s.mq.suspendThread

/-- The thread is at the start of a call, or goes on after a wait. -/
structure AtEntry (s : MqSystem) (t : ℕ) : Prop where
  held : s.held t = none
  ready : (s.thread t).pc = .idle ∨ s.Ready t

/-- The message is one that the thread may send. -/
def Sends (s : MqSystem) (t : ℕ) (data : List UInt8) : Prop :=
  data.length ≤ s.mq.msgSize ∨ ∃ timeout, (s.thread t).pc = .sendWait data timeout

/-- The moves of the threads, and what each does to the messages. -/
inductive Move (s : MqSystem) : Option MqEvent → MqSystem → Prop
  | finish {t : ℕ} {th : MqThread} : s.AtEntry t → th.pc = .idle →
      (s.WokenSender t → s.mq.msgQueueFree = none) → (s.WokenReceiver t → s.mq.entry = 0) →
      Move s none (s.setThread t th)
  | waitSend {t : ℕ} {data : List UInt8} {timeout : Int32} : s.AtEntry t → ¬ s.Receiving t →
      s.Sends t data → s.mq.msgQueueFree = none →
      Move s none ({ s with
        mq := { s.mq with
          suspendSenderThread :=
            rtIpcListSuspend s.mq.flag s.priority s.mq.suspendSenderThread t } }.setThread t
        { s.thread t with pc := .sendWait data timeout, error := .eok })
  | waitRecv {t : ℕ} {buffer : List UInt8} {size : ℕ} {timeout : Int32} : s.AtEntry t →
      ¬ s.Sending t → s.mq.entry = 0 →
      Move s none ({ s with
        mq := { s.mq with
          suspendThread := rtIpcListSuspend s.mq.flag s.priority s.mq.suspendThread t } }.setThread t
        { s.thread t with pc := .recvWait buffer size timeout, error := .eok })
  | takeFree {t msg : ℕ} {data : List UInt8} {pc : MqPc} : s.AtEntry t → ¬ s.Receiving t →
      s.Sends t data → s.mq.msgQueueFree = some msg →
      pc = .sendCopy msg data ∨ pc = .urgentCopy msg data →
      Move s none ({ s with mq := s.mq.takeFree msg }.goto t pc)
  | copySend {t msg : ℕ} {data : List UInt8} : (s.thread t).pc = .sendCopy msg data →
      Move s none ({ s with
        mq := { s.mq.copyIn msg data with
          next := Function.update s.mq.next msg none } }.goto t (.sendLink msg data))
  | copyUrgent {t msg : ℕ} {data : List UInt8} : (s.thread t).pc = .urgentCopy msg data →
      Move s none ({ s with mq := s.mq.copyIn msg data }.goto t (.urgentLink msg data))
  | linkSend {t msg : ℕ} {data : List UInt8} : (s.thread t).pc = .sendLink msg data →
      Move s (some (.back data))
        ({ s with mq := s.mq.linkTail msg }.resumeReceiver.finish t .eok [])
  | linkUrgent {t msg : ℕ} {data : List UInt8} : (s.thread t).pc = .urgentLink msg data →
      Move s (some (.front data))
        ({ s with mq := s.mq.linkHead msg }.resumeReceiver.finish t .eok [])
  | takeHead {t msg : ℕ} {buffer : List UInt8} {size : ℕ} : s.AtEntry t → ¬ s.Sending t →
      s.mq.entry ≠ 0 → s.mq.msgQueueHead = some msg →
      Move s (some (.take t))
        ({ s with mq := s.mq.takeHead msg }.goto t (.recvCopy msg buffer size))
  | copyOut {t msg : ℕ} {buffer : List UInt8} {size : ℕ} :
      (s.thread t).pc = .recvCopy msg buffer size →
      Move s none (s.goto t (.recvFree msg
        (patch buffer 0 ((s.mq.slot msg).take (min size s.mq.msgSize))) size))
  | giveFree {t msg : ℕ} {buffer : List UInt8} {size : ℕ} :
      (s.thread t).pc = .recvFree msg buffer size →
      Move s none ({ s with mq := s.mq.giveFree msg }.resumeSender.finish t .eok buffer)
  | expireSend {t : ℕ} : t ∈ s.mq.suspendSenderThread →
      Move s none ({ s with
        mq := { s.mq with
          suspendSenderThread := s.mq.suspendSenderThread.erase t } }.setThread t
        { s.thread t with error := .etimeout })
  | expireRecv {t : ℕ} : t ∈ s.mq.suspendThread →
      Move s none ({ s with
        mq := { s.mq with suspendThread := s.mq.suspendThread.erase t } }.setThread t
        { s.thread t with error := .etimeout })
  | reset : Move s (some .clear) s.reset
  | setPriority {priority : ℕ → ℕ} : Move s none { s with priority }

/-- The critical sections that move a message: where it is linked, and where it is taken. -/
def event (s : MqSystem) : MqAct → Option MqEvent
  | .run t _ =>
    match (s.thread t).pc with
    | .sendLink _ data => some (.back data)
    | .urgentLink _ data => some (.front data)
    | .recvWait _ _ _ =>
      if (s.thread t).error = .eok ∧ s.mq.entry ≠ 0 then some (.take t) else none
    | _ => none
  | .recv t _ _ _ => if s.mq.entry ≠ 0 then some (.take t) else none
  | .reset => some .clear
  | _ => none

/-! ### The steps are moves -/

theorem atEntry_of_idle (h : (s.thread t).pc = .idle) : s.AtEntry t :=
  ⟨by rw [held, h]; rfl, .inl h⟩

theorem not_sending_of_idle (h : (s.thread t).pc = .idle) : ¬ s.Sending t := by
  rintro ⟨data, timeout, hpc⟩
  rw [h] at hpc
  cases hpc

theorem not_receiving_of_idle (h : (s.thread t).pc = .idle) : ¬ s.Receiving t := by
  rintro ⟨buffer, size, timeout, hpc⟩
  rw [h] at hpc
  cases hpc

/-- A call of a thread that does not wait returns. -/
theorem finish_move (h : s.AtEntry t) (hpc : th.pc = .idle) (hs : ¬ s.Sending t)
    (hr : ¬ s.Receiving t) : s.Move none (s.setThread t th) :=
  .finish h hpc (fun hw => absurd hw.sending hs) fun hw => absurd hw.receiving hr

theorem sendEnter_move {data : List UInt8} (timeout : Int32) (h : s.AtEntry t)
    (hdata : s.Sends t data) (hr : ¬ s.Receiving t) :
    s.Move none (s.sendEnter t data timeout) := by
  unfold sendEnter
  cases hfree : s.mq.msgQueueFree with
  | some msg => exact .takeFree h hr hdata hfree (.inl rfl)
  | none =>
    by_cases h0 : timeout = 0
    · simp only [h0, if_true]
      exact .finish h rfl (fun _ => hfree) fun hw => absurd hw.receiving hr
    · simp only [h0, if_false]
      exact .waitSend h hr hdata hfree

theorem recvEnter_move {buffer : List UInt8} {size : ℕ} {timeout : Int32} (h : s.AtEntry t)
    (hs : ¬ s.Sending t) (hstep : s.recvEnter t buffer size timeout = some s') :
    s.Move (if s.mq.entry ≠ 0 then some (.take t) else none) s' := by
  unfold recvEnter at hstep
  by_cases hentry : s.mq.entry = 0
  · rw [if_pos hentry] at hstep
    rw [if_neg (not_not.mpr hentry)]
    by_cases h0 : timeout = 0
    · rw [if_pos h0, Option.some.injEq] at hstep
      subst hstep
      exact .finish h rfl (fun hw => absurd hw.sending hs) fun _ => hentry
    · rw [if_neg h0, Option.some.injEq] at hstep
      subst hstep
      exact .waitRecv h hs hentry
  · rw [if_neg hentry, Option.map_eq_some_iff] at hstep
    obtain ⟨msg, hhead, rfl⟩ := hstep
    rw [if_pos hentry]
    exact .takeHead h hs hentry hhead

/-- A thread goes on in its call. -/
theorem run_move {delta : UInt32} (hstep : s.run t delta = some s') :
    s.Move (s.event (.run t delta)) s' := by
  unfold run at hstep
  simp only [event]
  cases hpc : (s.thread t).pc with
  | idle => simp only [hpc] at hstep; cases hstep
  | sendWait data timeout =>
    simp only [hpc] at hstep ⊢
    have hr : ¬ s.Receiving t := by
      rintro ⟨buffer, size, timeout', hpc'⟩
      rw [hpc] at hpc'
      cases hpc'
    have hheld : s.held t = none := by rw [held, hpc]; rfl
    split_ifs at hstep with hready herr
    · obtain rfl := Option.some.inj hstep
      exact .finish ⟨hheld, .inr hready⟩ rfl (fun hw => absurd hw.error herr)
        fun hw => absurd hw.receiving hr
    · obtain rfl := Option.some.inj hstep
      exact sendEnter_move _ ⟨hheld, .inr hready⟩ (.inr ⟨timeout, hpc⟩) hr
  | sendCopy msg data =>
    simp only [hpc, Option.some.injEq] at hstep
    subst hstep
    exact .copySend hpc
  | sendLink msg data =>
    simp only [hpc, Option.some.injEq] at hstep
    subst hstep
    exact .linkSend hpc
  | urgentCopy msg data =>
    simp only [hpc, Option.some.injEq] at hstep
    subst hstep
    exact .copyUrgent hpc
  | urgentLink msg data =>
    simp only [hpc, Option.some.injEq] at hstep
    subst hstep
    exact .linkUrgent hpc
  | recvWait buffer size timeout =>
    simp only [hpc] at hstep ⊢
    have hs : ¬ s.Sending t := by
      rintro ⟨data, timeout', hpc'⟩
      rw [hpc] at hpc'
      cases hpc'
    have hheld : s.held t = none := by rw [held, hpc]; rfl
    split_ifs at hstep with hready herr hlate
    · obtain rfl := Option.some.inj hstep
      rw [if_neg fun h => herr h.1]
      exact .finish ⟨hheld, .inr hready⟩ rfl (fun hw => absurd hw.sending hs)
        fun hw => absurd hw.error herr
    · obtain rfl := Option.some.inj hstep
      rw [if_neg fun h => h.2 hlate.1]
      exact .finish ⟨hheld, .inr hready⟩ rfl (fun hw => absurd hw.sending hs) fun _ => hlate.1
    · have hmove := recvEnter_move ⟨hheld, .inr hready⟩ hs hstep
      simpa only [not_not.mp herr, true_and] using hmove
  | recvCopy msg buffer size =>
    simp only [hpc, Option.some.injEq] at hstep
    subst hstep
    exact .copyOut hpc
  | recvFree msg buffer size =>
    simp only [hpc, Option.some.injEq] at hstep
    subst hstep
    exact .giveFree hpc

theorem expire_move (hstep : s.expire t = some s') : s.Move none s' := by
  unfold expire at hstep
  split at hstep
  · split_ifs at hstep with h
    obtain rfl := Option.some.inj hstep
    exact .expireSend h.2
  · split_ifs at hstep with h
    obtain rfl := Option.some.inj hstep
    exact .expireRecv h.2
  · cases hstep

/-- **Every step is a move.** -/
theorem step_cases (hstep : s.step a = some s') : s.Move (s.event a) s' := by
  cases a with
  | send t data timeout =>
    simp only [step] at hstep
    split_ifs at hstep with hpc hlong
    · obtain rfl := Option.some.inj hstep
      exact finish_move (atEntry_of_idle hpc) rfl (not_sending_of_idle hpc)
        (not_receiving_of_idle hpc)
    · obtain rfl := Option.some.inj hstep
      exact sendEnter_move timeout (atEntry_of_idle hpc) (.inl (Nat.le_of_not_lt hlong))
        (not_receiving_of_idle hpc)
  | urgent t data =>
    simp only [step] at hstep
    split_ifs at hstep with hpc hlong
    · obtain rfl := Option.some.inj hstep
      exact finish_move (atEntry_of_idle hpc) rfl (not_sending_of_idle hpc)
        (not_receiving_of_idle hpc)
    · cases hfree : s.mq.msgQueueFree with
      | none =>
        simp only [hfree, Option.some.injEq] at hstep
        subst hstep
        exact finish_move (atEntry_of_idle hpc) rfl (not_sending_of_idle hpc)
          (not_receiving_of_idle hpc)
      | some msg =>
        simp only [hfree, Option.some.injEq] at hstep
        subst hstep
        exact .takeFree (atEntry_of_idle hpc) (not_receiving_of_idle hpc)
          (.inl (Nat.le_of_not_lt hlong)) hfree (.inr rfl)
  | recv t buffer size timeout =>
    simp only [step] at hstep
    split_ifs at hstep with hpc
    exact recvEnter_move (atEntry_of_idle hpc) (not_sending_of_idle hpc) hstep
  | run t delta => exact run_move hstep
  | expire t => exact expire_move hstep
  | reset =>
    obtain rfl := Option.some.inj hstep
    exact .reset
  | setPriority t p =>
    obtain rfl := Option.some.inj hstep
    exact .setPriority

end MqSystem

end SortingLine
