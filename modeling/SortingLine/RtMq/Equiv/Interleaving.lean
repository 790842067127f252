import SortingLine.RtMq.Equiv.Queue
import SortingLine.RtMq.Equiv.Threads

/-!
# Message queues under every interleaving

The state of a queue and its threads, against the queue of messages that `Deque` says (`Holds`): the
slots in the queue start with the messages, in order, each thread that copies has its slot for
itself, and what a receiver copies is the message that it took.
-/

namespace SortingLine.MqSystem

open RtMessagequeue

variable {s s' : MqSystem} {t u msg size : ℕ} {th : MqThread} {timeout : Int32} {a : MqAct} {e : Option MqEvent}
  {mq mq' : RtMessagequeue} {pc : MqPc} {hand : Option (List UInt8)} {data buffer : List UInt8}
  {d : Deque ℕ (List UInt8)} {queue free : List ℕ} {tr : List (MqSystem × MqAct)}

/-! ### Threads -/

/-- What a thread relies on, with the message that it took last. -/
def Local (mq : RtMessagequeue) (hand : Option (List UInt8)) : MqPc → Prop
  | .idle => True
  | .sendWait data _ => data.length ≤ mq.msgSize
  | .sendCopy _ data => data.length ≤ mq.msgSize
  | .sendLink msg data => mq.next msg = none ∧ data <+: mq.slot msg
  | .urgentCopy _ data => data.length ≤ mq.msgSize
  | .urgentLink msg data => data <+: mq.slot msg
  | .recvWait _ _ _ => True
  | .recvCopy msg _ _ => ∃ m, hand = some m ∧ m <+: mq.slot msg
  | .recvFree _ buffer size => ∃ m, hand = some m ∧ m.take size <+: buffer

/-- What a thread relies on, it relies on for its own slot. -/
theorem Local.congr (h : Local mq hand pc) (hsize : mq'.msgSize = mq.msgSize)
    (hown : ∀ i, pc.held = some i → mq'.next i = mq.next i ∧ mq'.slot i = mq.slot i) :
    Local mq' hand pc := by
  have hfits : ∀ data : List UInt8, data.length ≤ mq.msgSize → data.length ≤ mq'.msgSize :=
    fun data hle => hsize ▸ hle
  cases pc with
  | idle => trivial
  | sendWait data timeout => exact hfits data h
  | sendCopy msg data => exact hfits data h
  | sendLink msg data =>
    obtain ⟨hnext, hslot⟩ := hown msg rfl
    exact ⟨hnext.trans h.1, hslot ▸ h.2⟩
  | urgentCopy msg data => exact hfits data h
  | urgentLink msg data =>
    show data <+: mq'.slot msg
    rw [(hown msg rfl).2]
    exact h
  | recvWait buffer size timeout => trivial
  | recvCopy msg buffer size =>
    obtain ⟨m, hm, hpre⟩ := h
    exact ⟨m, hm, (hown msg rfl).2 ▸ hpre⟩
  | recvFree msg buffer size => exact h

/-- The slots of the queue start with the messages of `d`, and every thread relies on what holds. -/
structure Holds (s : MqSystem) (d : Deque ℕ (List UInt8)) (queue free : List ℕ) : Prop where
  slots : s.mq.Slots s.held queue free
  items : List.Forall₂ (· <+: ·) d.items (queue.map s.mq.slot)
  threads : ∀ t, Local s.mq (d.hand t) (s.thread t).pc

namespace Holds

theorem sends_le (h : s.Holds d queue free) (hs : s.Sends t data) :
    data.length ≤ s.mq.msgSize := by
  rcases hs with hle | ⟨timeout, hpc⟩
  · exact hle
  · have ht := h.threads t
    rwa [hpc] at ht

/-- A thread that holds no slot goes to another place where it holds none. -/
theorem move (h : s.Holds d queue free) (hnext : s'.mq.next = s.mq.next)
    (hhead : s'.mq.msgQueueHead = s.mq.msgQueueHead)
    (htail : s'.mq.msgQueueTail = s.mq.msgQueueTail)
    (hfree : s'.mq.msgQueueFree = s.mq.msgQueueFree) (hentry : s'.mq.entry = s.mq.entry)
    (hslot : s'.mq.slot = s.mq.slot) (hmax : s'.mq.maxMsgs = s.mq.maxMsgs)
    (hsize : s'.mq.msgSize = s.mq.msgSize)
    (hth : ∀ u, (s'.thread u).pc.held = s.held u ∧ Local s.mq (d.hand u) (s'.thread u).pc) :
    s'.Holds d queue free := by
  have hheld : s'.held = s.held := funext fun u => (hth u).1
  refine ⟨?_, ?_, fun u => (hth u).2.congr hsize fun i _ => ?_⟩
  · rw [hheld]
    exact h.slots.congr hnext hhead htail hfree hentry hslot hmax hsize
  · rw [hslot]
    exact h.items
  · rw [hnext, hslot]
    exact ⟨rfl, rfl⟩

/-- The other threads rely on slots that are not touched. -/
theorem others (h : s.Holds d queue free) (th : MqThread) {hand : ℕ → Option (List UInt8)}
    (hhand : ∀ u, u ≠ t → hand u = d.hand u) (hsize : mq'.msgSize = s.mq.msgSize)
    (hown : ∀ u i, u ≠ t → s.held u = some i →
      mq'.next i = s.mq.next i ∧ mq'.slot i = s.mq.slot i)
    (hself : Local mq' (hand t) th.pc) (hth : ∀ u, s'.thread u = (s.setThread t th).thread u) :
    ∀ u, Local mq' (hand u) (s'.thread u).pc := by
  intro u
  rw [hth]
  by_cases hu : u = t
  · rw [hu, thread_setThread_self]
    exact hself
  · rw [thread_setThread_of_ne hu, hhand u hu]
    exact (h.threads u).congr hsize fun i hi => hown u i hu hi

/-- The same where one thread changes. -/
theorem move_one (h : s.Holds d queue free) (th : MqThread) (hth : th.pc.held = s.held t)
    (hlocal : Local s.mq (d.hand t) th.pc) (s' : MqSystem)
    (hthread : s'.thread = (s.setThread t th).thread) (hnext : s'.mq.next = s.mq.next)
    (hhead : s'.mq.msgQueueHead = s.mq.msgQueueHead)
    (htail : s'.mq.msgQueueTail = s.mq.msgQueueTail)
    (hfree : s'.mq.msgQueueFree = s.mq.msgQueueFree) (hentry : s'.mq.entry = s.mq.entry)
    (hslot : s'.mq.slot = s.mq.slot) (hmax : s'.mq.maxMsgs = s.mq.maxMsgs)
    (hsize : s'.mq.msgSize = s.mq.msgSize) : s'.Holds d queue free := by
  refine h.move hnext hhead htail hfree hentry hslot hmax hsize fun u => ?_
  rw [hthread]
  by_cases hu : u = t
  · rw [hu, thread_setThread_self]
    exact ⟨hth, hlocal⟩
  · rw [thread_setThread_of_ne hu]
    exact ⟨rfl, h.threads u⟩

theorem finish (h : s.Holds d queue free) (hat : s.AtEntry t) (hpc : th.pc = .idle) :
    (s.setThread t th).Holds d queue free := by
  refine h.move_one th ?_ ?_ _ rfl rfl rfl rfl rfl rfl rfl rfl rfl
  · rw [hpc, hat.held]
    rfl
  · rw [hpc]
    trivial

/-- A sender waits for a slot. -/
theorem waitSend (h : s.Holds d queue free) (hat : s.AtEntry t) (hdata : s.Sends t data) :
    ({ s with
      mq := { s.mq with
        suspendSenderThread :=
          rtIpcListSuspend s.mq.flag s.priority s.mq.suspendSenderThread t } }.setThread t
      { s.thread t with pc := .sendWait data timeout, error := .eok }).Holds d queue free :=
  h.move_one { s.thread t with pc := .sendWait data timeout, error := .eok } hat.held.symm
    (h.sends_le hdata) _ rfl rfl rfl rfl rfl rfl rfl rfl rfl

/-- A receiver waits for a message. -/
theorem waitRecv (h : s.Holds d queue free) (hat : s.AtEntry t) :
    ({ s with
      mq := { s.mq with
        suspendThread := rtIpcListSuspend s.mq.flag s.priority s.mq.suspendThread t } }.setThread t
      { s.thread t with pc := .recvWait buffer size timeout, error := .eok }).Holds d queue free :=
  h.move_one { s.thread t with pc := .recvWait buffer size timeout, error := .eok } hat.held.symm
    trivial _ rfl rfl rfl rfl rfl rfl rfl rfl rfl

/-- The timer of a thread that waits. -/
theorem expire (h : s.Holds d queue free) (mq : RtMessagequeue) (hnext : mq.next = s.mq.next)
    (hhead : mq.msgQueueHead = s.mq.msgQueueHead) (htail : mq.msgQueueTail = s.mq.msgQueueTail)
    (hfree : mq.msgQueueFree = s.mq.msgQueueFree) (hentry : mq.entry = s.mq.entry)
    (hslot : mq.slot = s.mq.slot) (hmax : mq.maxMsgs = s.mq.maxMsgs)
    (hsize : mq.msgSize = s.mq.msgSize) :
    ({ s with mq }.setThread t { s.thread t with error := .etimeout }).Holds d queue free :=
  h.move_one { s.thread t with error := .etimeout } rfl (h.threads t) _ rfl hnext hhead htail hfree
    hentry hslot hmax hsize

/-- A sender takes a slot. -/
theorem takeFree (h : s.Holds d queue (msg :: free)) (hat : s.AtEntry t) (hdata : s.Sends t data)
    (hpc : pc = .sendCopy msg data ∨ pc = .urgentCopy msg data) :
    ({ s with mq := s.mq.takeFree msg }.goto t pc).Holds d queue free := by
  have hheld : pc.held = some msg := by
    rcases hpc with rfl | rfl
    · rfl
    · rfl
  have hlocal : Local (s.mq.takeFree msg) (d.hand t) pc := by
    rcases hpc with rfl | rfl
    · exact h.sends_le hdata
    · exact h.sends_le hdata
  refine ⟨?_, h.items, h.others { s.thread t with pc } (fun _ _ => rfl) rfl
    (fun _ _ _ _ => ⟨rfl, rfl⟩) hlocal fun _ => rfl⟩
  rw [goto, held_setThread]
  show Slots _ (Function.update s.held t pc.held) _ _
  rw [hheld]
  exact h.slots.takeFree hat.held

/-- A thread writes to its slot and goes on. -/
theorem write (h : s.Holds d queue free) (hheld : s.held t = some msg)
    (hslots : mq'.Slots s.held queue free) (hsize : mq'.msgSize = s.mq.msgSize)
    (hnext : ∀ i, i ≠ msg → mq'.next i = s.mq.next i)
    (hslot : ∀ i, i ≠ msg → mq'.slot i = s.mq.slot i) (hpc : pc.held = some msg)
    (hlocal : Local mq' (d.hand t) pc) : ({ s with mq := mq' }.goto t pc).Holds d queue free := by
  refine ⟨?_, ?_, ?_⟩
  · rw [goto, held_setThread]
    show Slots _ (Function.update s.held t pc.held) _ _
    rw [hpc, ← hheld, Function.update_eq_self]
    exact hslots
  · have hsame : queue.map mq'.slot = queue.map s.mq.slot := by
      refine List.map_congr_left fun i hi => hslot i ?_
      rintro rfl
      exact (h.slots.apart t i hheld).queue hi
    exact hsame ▸ h.items
  · refine h.others { s.thread t with pc } (fun _ _ => rfl) hsize (fun u i hu hi => ?_)
      hlocal fun _ => rfl
    have hne := h.slots.ne_of_held hheld hu hi
    exact ⟨hnext i hne, hslot i hne⟩

theorem copySend (h : s.Holds d queue free) (hpc : (s.thread t).pc = .sendCopy msg data) :
    ({ s with
      mq := { s.mq.copyIn msg data with
        next := Function.update s.mq.next msg none } }.goto t (.sendLink msg data)).Holds
        d queue free := by
  have hheld : s.held t = some msg := by rw [held, hpc]; rfl
  have hdata : data.length ≤ s.mq.msgSize := by
    have ht := h.threads t
    rwa [hpc] at ht
  refine h.write hheld ((h.slots.copyIn hheld hdata).update hheld none) rfl
    (fun i hi => Function.update_of_ne hi _ _) (fun i hi => Function.update_of_ne hi _ _) rfl
    ⟨Function.update_self .., ?_⟩
  show data <+: Function.update s.mq.slot msg (patch (s.mq.slot msg) 0 data) msg
  rw [Function.update_self]
  exact RtMq.prefix_patch_zero _ _

theorem copyUrgent (h : s.Holds d queue free) (hpc : (s.thread t).pc = .urgentCopy msg data) :
    ({ s with mq := s.mq.copyIn msg data }.goto t (.urgentLink msg data)).Holds d queue free := by
  have hheld : s.held t = some msg := by rw [held, hpc]; rfl
  have hdata : data.length ≤ s.mq.msgSize := by
    have ht := h.threads t
    rwa [hpc] at ht
  refine h.write hheld (h.slots.copyIn hheld hdata) rfl (fun i _ => rfl)
    (fun i hi => Function.update_of_ne hi _ _) rfl ?_
  show data <+: Function.update s.mq.slot msg (patch (s.mq.slot msg) 0 data) msg
  rw [Function.update_self]
  exact RtMq.prefix_patch_zero _ _

/-- A receiver has copied the message that it took, as far as it asked for it. -/
theorem copyOut (h : s.Holds d queue free)
    (hpc : (s.thread t).pc = .recvCopy msg buffer size) :
    (s.goto t (.recvFree msg
      (patch buffer 0 ((s.mq.slot msg).take (min size s.mq.msgSize))) size)).Holds d queue free := by
  have hheld : s.held t = some msg := by rw [held, hpc]; rfl
  have ht := h.threads t
  rw [hpc] at ht
  obtain ⟨m, hm, hpre⟩ := ht
  refine h.write hheld h.slots rfl (fun i _ => rfl) (fun i _ => rfl) rfl ⟨m, hm, ?_⟩
  have hlen : m.length ≤ s.mq.msgSize := by
    rw [← h.slots.size msg (h.slots.held_lt hheld)]
    exact hpre.length_le
  have htake : m.take size = m.take (min size s.mq.msgSize) := by
    rw [← List.take_take, List.take_of_length_le hlen]
  rw [htake]
  exact (hpre.take _).trans (RtMq.prefix_patch_zero _ _)

/-- The message of a sender becomes the last one. -/
theorem linkSend (h : s.Holds d queue free) (hpc : (s.thread t).pc = .sendLink msg data) :
    ({ s with mq := s.mq.linkTail msg }.resumeReceiver.finish t .eok []).Holds
      (d.apply (.back data)) (queue ++ [msg]) free := by
  have hheld : s.held t = some msg := by rw [held, hpc]; rfl
  have ht := h.threads t
  rw [hpc] at ht
  obtain ⟨hnext, hpre⟩ := ht
  have hslots := h.slots.linkTail hheld hnext
  refine ⟨?_, ?_, ?_⟩
  · rw [MqSystem.finish, held_setThread]
    exact hslots.congr rfl rfl rfl rfl rfl rfl rfl rfl
  · rw [List.map_append]
    exact List.rel_append h.items (.cons hpre .nil)
  · refine h.others { s.thread t with pc := .idle, ret := some (.eok, []) }
      (fun _ _ => rfl) rfl (fun u i hu hi => ⟨?_, rfl⟩) trivial fun _ => rfl
    show (s.mq.linkTail msg).next i = s.mq.next i
    unfold linkTail
    rw [h.slots.lists.tail]
    cases htail : queue.getLast? with
    | none => rfl
    | some tail =>
      refine Function.update_of_ne ?_ _ _
      rintro rfl
      exact (h.slots.apart u i hi).queue (List.mem_of_getLast? htail)

/-- An urgent message becomes the first one. -/
theorem linkUrgent (h : s.Holds d queue free) (hpc : (s.thread t).pc = .urgentLink msg data) :
    ({ s with mq := s.mq.linkHead msg }.resumeReceiver.finish t .eok []).Holds
      (d.apply (.front data)) (msg :: queue) free := by
  have hheld : s.held t = some msg := by rw [held, hpc]; rfl
  have hpre := h.threads t
  rw [hpc] at hpre
  refine ⟨?_, .cons hpre h.items, ?_⟩
  · rw [MqSystem.finish, held_setThread]
    exact (h.slots.linkHead hheld).congr rfl rfl rfl rfl rfl rfl rfl rfl
  · exact h.others { s.thread t with pc := .idle, ret := some (.eok, []) }
      (fun _ _ => rfl) rfl
      (fun u i hu hi => ⟨Function.update_of_ne (h.slots.ne_of_held hheld hu hi) _ _, rfl⟩)
      trivial fun _ => rfl

/-- A receiver takes the first message. -/
theorem takeHead (h : s.Holds d (msg :: queue) free) (hat : s.AtEntry t) :
    ({ s with mq := s.mq.takeHead msg }.goto t (.recvCopy msg buffer size)).Holds
      (d.apply (.take t)) queue free := by
  obtain ⟨m, items, hpre, hrest, hitems⟩ := List.forall₂_cons_right_iff.mp h.items
  refine ⟨?_, ?_, ?_⟩
  · rw [goto, held_setThread]
    exact (h.slots.takeHead hat.held).congr rfl rfl rfl rfl rfl rfl rfl rfl
  · rw [Deque.apply_take hitems]
    exact hrest
  · exact h.others { s.thread t with pc := .recvCopy msg buffer size }
      (fun u hu => Deque.hand_take_of_ne hitems hu) rfl (fun u i hu hi => ⟨rfl, rfl⟩)
      ⟨m, Deque.hand_take hitems, hpre⟩ fun _ => rfl

/-- A receiver gives its slot back. -/
theorem giveFree (h : s.Holds d queue free) (hpc : (s.thread t).pc = .recvFree msg buffer size) :
    ({ s with mq := s.mq.giveFree msg }.resumeSender.finish t .eok buffer).Holds
      d queue (msg :: free) := by
  have hheld : s.held t = some msg := by rw [held, hpc]; rfl
  refine ⟨?_, h.items, ?_⟩
  · rw [MqSystem.finish, held_setThread]
    exact (h.slots.giveFree hheld).congr rfl rfl rfl rfl rfl rfl rfl rfl
  · exact h.others { s.thread t with pc := .idle, ret := some (.eok, buffer) }
      (fun _ _ => rfl) rfl
      (fun u i hu hi => ⟨Function.update_of_ne (h.slots.ne_of_held hheld hu hi) _ _, rfl⟩)
      trivial fun _ => rfl

/-- A reset drops the messages that are in the queue, and no other. -/
theorem reset (h : s.Holds d queue free) :
    s.reset.Holds (d.apply .clear) [] (queue.reverse ++ free) := by
  have hpc : ∀ u, (s.reset.thread u).pc = (s.thread u).pc := by
    intro u
    show (if _ then _ else _ : MqThread).pc = _
    split_ifs
    · rfl
    · rfl
  have hheld : s.reset.held = s.held := funext fun u => congrArg MqPc.held (hpc u)
  obtain ⟨hslot, -, hsize⟩ := releaseAll_frame s.mq s.mq.maxMsgs.toNat
  refine ⟨?_, .nil, fun u => ?_⟩
  · rw [hheld]
    exact h.slots.releaseAll.congr rfl rfl rfl rfl rfl rfl rfl rfl
  · rw [hpc]
    refine (h.threads u).congr hsize fun i hi => ⟨?_, congrFun hslot i⟩
    exact h.slots.lists.releaseAll_next (h.slots.apart u i hi).queue

end Holds

/-! ### Runs -/

/-- **Every move does to the messages what it says.** -/
theorem Move.holds (hm : s.Move e s') (h : s.Holds d queue free) :
    ∃ queue' free', s'.Holds (e.elim d d.apply) queue' free' := by
  cases hm with
  | finish hat hpc _ _ => exact ⟨_, _, h.finish hat hpc⟩
  | waitSend hat _ hdata _ => exact ⟨_, _, h.waitSend hat hdata⟩
  | waitRecv hat _ _ => exact ⟨_, _, h.waitRecv hat⟩
  | takeFree hat _ hdata hfree hpc =>
    have hunused := h.slots.lists.unused
    rw [hfree] at hunused
    obtain ⟨free, rfl, -⟩ := hunused.of_some
    exact ⟨_, _, h.takeFree hat hdata hpc⟩
  | copySend hpc => exact ⟨_, _, h.copySend hpc⟩
  | copyUrgent hpc => exact ⟨_, _, h.copyUrgent hpc⟩
  | linkSend hpc => exact ⟨_, _, h.linkSend hpc⟩
  | linkUrgent hpc => exact ⟨_, _, h.linkUrgent hpc⟩
  | takeHead hat _ _ hhead =>
    have hlinked := h.slots.lists.head
    rw [hhead] at hlinked
    obtain ⟨queue, rfl, -⟩ := hlinked.of_some
    exact ⟨_, _, h.takeHead hat⟩
  | copyOut hpc => exact ⟨_, _, h.copyOut hpc⟩
  | giveFree hpc => exact ⟨_, _, h.giveFree hpc⟩
  | expireSend _ => exact ⟨_, _, h.expire _ rfl rfl rfl rfl rfl rfl rfl rfl⟩
  | expireRecv _ => exact ⟨_, _, h.expire _ rfl rfl rfl rfl rfl rfl rfl rfl⟩
  | reset => exact ⟨_, _, h.reset⟩
  | setPriority =>
    exact ⟨_, _, h.move rfl rfl rfl rfl rfl rfl rfl rfl fun u => ⟨rfl, h.threads u⟩⟩

/-- The messages of a run: when each was linked, and when and by whom it was taken. -/
def history (tr : List (MqSystem × MqAct)) : List MqEvent := tr.filterMap fun x => x.1.event x.2

/-! ### A small queue -/

/-- A queue of two messages of at most eight bytes. -/
def smallStart : MqSystem := start (create 5 2 .fifo fun _ => List.replicate 8 0)

theorem length_smallPool : ∀ i < (2 : UInt16).toNat,
    ((fun _ : ℕ => List.replicate 8 (0 : UInt8)) i).length = slotSize 5 := by decide

/-- A receiver waits, a sender resumes it, and the receiver copies the message. -/
def smallActs : List MqAct :=
  [.recv 1 [] 8 5, .send 0 [1, 2, 3] 0, .run 0 0, .run 0 0, .run 1 1, .run 1 0]

theorem exists_run_smallStart (as : List MqAct) (p : List (MqSystem × MqAct) × MqSystem → Prop)
    [DecidablePred p] (h : (exec step smallStart as).any (fun r => p r) = true) :
    ∃ tr s, Run step smallStart tr s ∧ tr.map Prod.snd = as ∧ p (tr, s) :=
  exists_run_of_exec as p h

section Runs

variable {msgSize : UInt32} {maxMsgs : UInt16} {flag : IpcFlag} {pool : ℕ → List UInt8}

theorem start_holds (hpool : ∀ i < maxMsgs.toNat, (pool i).length = slotSize msgSize) :
    (start (create msgSize maxMsgs flag pool)).Holds Deque.empty []
      (List.range maxMsgs.toNat).reverse := by
  refine ⟨⟨lists_create .., rfl, fun i => ?_, ?_, ?_, hpool⟩, .nil, fun t => trivial⟩
  · rw [List.mem_reverse, List.mem_range]
    constructor
    · exact fun hi => .inr (.inl hi)
    · rintro (hnil | hi | ⟨t, ht⟩)
      · cases hnil
      · exact hi
      · cases ht
  · rintro t i ⟨⟩
  · rintro t u i ⟨⟩

theorem holds_of_run (hpool : ∀ i < maxMsgs.toNat, (pool i).length = slotSize msgSize)
    (hr : Run step (start (create msgSize maxMsgs flag pool)) tr s) :
    ∃ queue free, s.Holds (Deque.replay (history tr)) queue free := by
  induction hr with
  | start => exact ⟨_, _, start_holds hpool⟩
  | @next tr s s' a hr hstep ih =>
    obtain ⟨queue, free, h⟩ := ih
    have hhistory : Deque.replay (history (tr ++ [(s, a)])) =
        (s.event a).elim (Deque.replay (history tr)) (Deque.replay (history tr)).apply := by
      rw [history, List.filterMap_append]
      cases he : s.event a with
      | none => simp [he, history]
      | some e => simp [he, history]
    rw [hhistory]
    exact (step_cases hstep).holds h

/-- **Each slot is in one place**, in whatever order the threads and interrupts come: linked in the
queue, or free, or in the hands of one thread that copies; `entry` counts the linked ones. -/
theorem slots_of_run (hpool : ∀ i < maxMsgs.toNat, (pool i).length = slotSize msgSize)
    (hr : Run step (start (create msgSize maxMsgs flag pool)) tr s) :
    ∃ queue free, s.mq.Slots s.held queue free := by
  obtain ⟨queue, free, h⟩ := holds_of_run hpool hr
  exact ⟨queue, free, h.slots⟩

theorem slots_of_run_small : ∃ tr s, Run step smallStart tr s ∧ tr.map Prod.snd = smallActs ∧
    ∃ queue free, s.mq.Slots s.held queue free := by
  obtain ⟨tr, s, hr, hl, -⟩ := exists_run_smallStart smallActs (fun _ => True) (by decide +kernel)
  exact ⟨tr, s, hr, hl, slots_of_run length_smallPool hr⟩

/-- **A message queue is a queue of messages**: the slots from the head to the tail start with the
messages that the history of the calls leaves in it, and a receiver that has copied has the start of
the message that it took, as far as it asked for it. -/
theorem linearizable (hpool : ∀ i < maxMsgs.toNat, (pool i).length = slotSize msgSize)
    (hr : Run step (start (create msgSize maxMsgs flag pool)) tr s) :
    (∃ queue, Linked s.mq.next s.mq.msgQueueHead queue ∧
      List.Forall₂ (· <+: ·) (Deque.replay (history tr)).items (queue.map s.mq.slot)) ∧
    ∀ t msg buffer size, (s.thread t).pc = .recvFree msg buffer size →
      ∃ m, (Deque.replay (history tr)).hand t = some m ∧ m.take size <+: buffer := by
  obtain ⟨queue, free, h⟩ := holds_of_run hpool hr
  refine ⟨⟨queue, h.slots.lists.head, h.items⟩, fun t msg buffer size hpc => ?_⟩
  have ht := h.threads t
  rwa [hpc] at ht

theorem linearizable_small : ∃ tr s, Run step smallStart tr s ∧ tr.map Prod.snd = smallActs ∧
    (s.thread 1).pc = .recvFree 1 [1, 2, 3, 0, 0, 0, 0, 0] 8 ∧
    ∃ m, (Deque.replay (history tr)).hand 1 = some m ∧
      m.take 8 <+: [1, 2, 3, 0, 0, 0, 0, 0] := by
  obtain ⟨tr, s, hr, hl, hpc⟩ := exists_run_smallStart smallActs
    (fun r => (r.2.thread 1).pc = .recvFree 1 [1, 2, 3, 0, 0, 0, 0, 0] 8) (by decide +kernel)
  exact ⟨tr, s, hr, hl, hpc, (linearizable length_smallPool hr).2 1 _ _ _ hpc⟩

/-- **No message is lost or delivered twice**: as long as there is no reset, each message that was
linked was taken by one receiver or waits in the queue; without urgent messages they are taken in
the order in which they were linked. -/
theorem nothing_lost (hpool : ∀ i < maxMsgs.toNat, (pool i).length = slotSize msgSize)
    (hr : Run step (start (create msgSize maxMsgs flag pool)) tr s)
    (hclear : .clear ∉ history tr) :
    ∃ queue messages, Linked s.mq.next s.mq.msgQueueHead queue ∧
      List.Forall₂ (· <+: ·) messages (queue.map s.mq.slot) ∧
      ((Deque.replay (history tr)).taken.map Prod.snd ++ messages).Perm
        (Deque.sent (history tr)) ∧
      ((∀ m, .front m ∉ history tr) →
        (Deque.replay (history tr)).taken.map Prod.snd ++ messages =
          Deque.sent (history tr)) := by
  obtain ⟨queue, free, h⟩ := holds_of_run hpool hr
  exact ⟨queue, _, h.slots.lists.head, h.items, Deque.taken_append_items_perm hclear,
    Deque.taken_append_items_eq hclear⟩

theorem nothing_lost_small : ∃ tr s, Run step smallStart tr s ∧ tr.map Prod.snd = smallActs ∧
    ∃ messages, (Deque.replay (history tr)).taken.map Prod.snd ++ messages =
      Deque.sent (history tr) := by
  obtain ⟨tr, s, hr, hl, hhistory⟩ := exists_run_smallStart smallActs
    (fun r => history r.1 = [.back [1, 2, 3], .take 1]) (by decide +kernel)
  change history tr = _ at hhistory
  obtain ⟨queue, messages, -, -, -, heq⟩ := nothing_lost length_smallPool hr (by simp [hhistory])
  exact ⟨tr, s, hr, hl, messages, heq (by simp [hhistory])⟩

/-- The sizes of a queue never change. -/
theorem Move.sizes (hm : s.Move e s') :
    s'.mq.msgSize = s.mq.msgSize ∧ s'.mq.maxMsgs = s.mq.maxMsgs := by
  cases hm with
  | reset =>
    obtain ⟨-, hmax, hsize⟩ := releaseAll_frame s.mq s.mq.maxMsgs.toNat
    exact ⟨hsize, hmax⟩
  | _ => exact ⟨rfl, rfl⟩

theorem sizes_of_run (hr : Run step (start (create msgSize maxMsgs flag pool)) tr s) :
    s.mq.msgSize = slotSize msgSize ∧ s.mq.maxMsgs = maxMsgs := by
  refine hr.invariant (I := fun s => s.mq.msgSize = slotSize msgSize ∧ s.mq.maxMsgs = maxMsgs)
    ⟨rfl, rfl⟩ fun s a s' h hstep => ?_
  obtain ⟨hsize, hmax⟩ := (step_cases hstep).sizes
  exact ⟨hsize.trans h.1, hmax.trans h.2⟩

/-- What the first critical section of a call that does not wait does to a message that fits. -/
theorem refused_iff_free (hidle : (s.thread t).pc = .idle) (hdata : data.length ≤ s.mq.msgSize)
    (ha : a = .send t data 0 ∨ a = .urgent t data) :
    (∃ s', s.step a = some s' ∧ (s'.thread t).pc = .idle ∧
      (s'.thread t).ret = some (.efull, [])) ↔ s.mq.msgQueueFree = none := by
  have hlong : ¬ s.mq.msgSize < data.length := Nat.not_lt.mpr hdata
  cases hfree : s.mq.msgQueueFree with
  | none =>
    refine iff_of_true ⟨s.finish t .efull [], ?_, ?_, ?_⟩ rfl
    · rcases ha with rfl | rfl
      · simp [step, hidle, hlong, sendEnter, hfree]
      · simp [step, hidle, hlong, hfree]
    · rw [MqSystem.finish, thread_setThread_self]
    · rw [MqSystem.finish, thread_setThread_self]
  | some msg =>
    refine iff_of_false ?_ (by simp)
    rintro ⟨s', hstep, hpc, -⟩
    rcases ha with rfl | rfl
    · simp only [step, hidle, if_true, hlong, if_false, sendEnter, hfree] at hstep
      obtain rfl := Option.some.inj hstep
      rw [goto, thread_setThread_self] at hpc
      cases hpc
    · simp only [step, hidle, if_true, hlong, if_false, hfree] at hstep
      obtain rfl := Option.some.inj hstep
      rw [goto, thread_setThread_self] at hpc
      cases hpc

/-- **When `rt_mq_send` says that the queue is full**: exactly when every slot is linked or in the
hands of a thread that has not finished copying, be it a sender or a receiver. -/
theorem refused_iff (hpool : ∀ i < maxMsgs.toNat, (pool i).length = slotSize msgSize)
    (hr : Run step (start (create msgSize maxMsgs flag pool)) tr s)
    (hidle : (s.thread t).pc = .idle) (hdata : data.length ≤ slotSize msgSize)
    (ha : a = .send t data 0 ∨ a = .urgent t data) :
    ∃ queue, Linked s.mq.next s.mq.msgQueueHead queue ∧
      ((∃ s', s.step a = some s' ∧ (s'.thread t).pc = .idle ∧
          (s'.thread t).ret = some (.efull, [])) ↔
        ∀ i < maxMsgs.toNat, i ∈ queue ∨ ∃ u, s.held u = some i) := by
  obtain ⟨queue, free, h⟩ := slots_of_run hpool hr
  obtain ⟨hsize, hmax⟩ := sizes_of_run hr
  refine ⟨queue, h.lists.head, ?_⟩
  rw [refused_iff_free hidle (hsize ▸ hdata) ha, h.lists.unused.eq_none_iff]
  constructor
  · rintro rfl i hi
    rcases (h.place i).mp (hmax ▸ hi) with hq | hf | hu
    · exact .inl hq
    · cases hf
    · exact .inr hu
  · intro hall
    rw [List.eq_nil_iff_forall_not_mem]
    intro i hi
    rcases hall i (hmax ▸ (h.place i).mpr (.inr (.inl hi))) with hq | ⟨u, hu⟩
    · exact h.lists.notMem_free hq hi
    · exact (h.apart u i hu).free hi

/-- Two senders that copy make the queue full before it has a message. -/
theorem refused_iff_small : ∃ tr s, Run step smallStart tr s ∧
    tr.map Prod.snd = [.send 0 [1] 0, .send 1 [2] 0] ∧
    ∃ queue, Linked s.mq.next s.mq.msgQueueHead queue ∧
      ((∃ s', s.step (.send 2 [3] 0) = some s' ∧ (s'.thread 2).pc = .idle ∧
          (s'.thread 2).ret = some (.efull, [])) ↔
        ∀ i < (2 : UInt16).toNat, i ∈ queue ∨ ∃ u, s.held u = some i) := by
  obtain ⟨tr, s, hr, hl, hidle⟩ := exists_run_smallStart [.send 0 [1] 0, .send 1 [2] 0]
    (fun r => (r.2.thread 2).pc = .idle) (by decide +kernel)
  exact ⟨tr, s, hr, hl, refused_iff length_smallPool hr hidle (by decide) (.inl rfl)⟩

end Runs

end SortingLine.MqSystem
