import SortingLine.RtMq.Equiv.Interleaving

/-!
# No thread sleeps in vain

A thread that links a message resumes one receiver, and a thread that gives a slot back resumes one
sender.  The resumed thread may find that another one was faster, and waits again.  So while a thread
waits on a list, every message (for a receiver) or free slot (for a sender) has a resumed thread of
its own that has yet to look at the queue (`Enough`, `no_lost_wakeup`); once all threads are at rest,
receivers wait for an empty queue only and senders for a full one (`rest_of_run`).
-/

namespace SortingLine.MqSystem

open RtMessagequeue

variable {s s' : MqSystem} {t u msg size n n' : ℕ} {th : MqThread} {e : Option MqEvent}
  {d : Deque ℕ (List UInt8)} {queue free list list' : List ℕ} {W W' : ℕ → Prop}
  {tr : List (MqSystem × MqAct)}

/-! ### Resumed threads for what there is -/

/-- If a thread is on the list, at least `n` threads are resumed. -/
def Enough (list : List ℕ) (W : ℕ → Prop) (n : ℕ) : Prop :=
  ∃ woken : List ℕ, woken.Nodup ∧ (∀ t ∈ woken, W t) ∧ (list ≠ [] → n ≤ woken.length)

namespace Enough

theorem of_nil (W : ℕ → Prop) (n : ℕ) : Enough [] W n :=
  ⟨[], List.nodup_nil, fun _ h => absurd h List.not_mem_nil, fun h => absurd rfl h⟩

theorem of_zero (list : List ℕ) (W : ℕ → Prop) : Enough list W 0 :=
  ⟨[], List.nodup_nil, fun _ h => absurd h List.not_mem_nil, fun _ => Nat.zero_le _⟩

theorem mono (h : Enough list W n) (hW : ∀ t, W t → W' t) (hlist : list' ≠ [] → list ≠ []) :
    Enough list' W' n := by
  obtain ⟨woken, hnodup, hall, hlen⟩ := h
  exact ⟨woken, hnodup, fun t ht => hW t (hall t ht), fun hne => hlen (hlist hne)⟩

/-- One of the resumed threads takes what there is, or another thread does. -/
theorem take (h : Enough list W (n + 1)) (hW : ∀ u, u ≠ t → W u → W' u) : Enough list W' n := by
  obtain ⟨woken, hnodup, hall, hlen⟩ := h
  refine ⟨woken.erase t, hnodup.erase t, fun u hu => ?_, fun hne => ?_⟩
  · obtain ⟨hne, hu⟩ := hnodup.mem_erase_iff.mp hu
    exact hW u hne (hall u hu)
  · have hle := hlen hne
    have herase : woken.length - 1 ≤ (woken.erase t).length := List.le_length_erase
    omega

/-- There is one more, and the first thread of the list is resumed. -/
theorem wake (h : Enough list W n) (hW : ∀ t, W t → W' t)
    (hfirst : ∀ t ∈ list.head?, ¬ W t ∧ W' t) : Enough list.tail W' (n + 1) := by
  cases list with
  | nil => exact of_nil _ _
  | cons t list =>
    obtain ⟨woken, hnodup, hall, hlen⟩ := h
    obtain ⟨hnot, hwoken⟩ := hfirst t rfl
    refine ⟨t :: woken, List.nodup_cons.mpr ⟨fun ht => hnot (hall t ht), hnodup⟩, ?_, fun _ => ?_⟩
    · intro u hu
      rcases List.mem_cons.mp hu with rfl | hu
      · exact hwoken
      · exact hW u (hall u hu)
    · exact Nat.succ_le_succ (hlen (List.cons_ne_nil _ _))

end Enough

/-! ### The lists of threads that wait -/

/-- Who is on a list waits in the call that put it there, and was not told anything yet. -/
structure Waits (s : MqSystem) : Prop where
  nodup_senders : s.mq.suspendSenderThread.Nodup
  nodup_receivers : s.mq.suspendThread.Nodup
  senders : ∀ t ∈ s.mq.suspendSenderThread, s.Sending t ∧ (s.thread t).error = .eok
  receivers : ∀ t ∈ s.mq.suspendThread, s.Receiving t ∧ (s.thread t).error = .eok

theorem not_receiving_of_sending (h : s.Sending t) : ¬ s.Receiving t := by
  obtain ⟨data, timeout, hpc⟩ := h
  rintro ⟨buffer, size, timeout', hpc'⟩
  rw [hpc] at hpc'
  cases hpc'

theorem not_sending_of_held (h : s.held t = some msg) : ¬ s.Sending t := by
  rintro ⟨data, timeout, hpc⟩
  rw [held, hpc] at h
  cases h

theorem not_receiving_of_held (h : s.held t = some msg) : ¬ s.Receiving t := by
  rintro ⟨buffer, size, timeout, hpc⟩
  rw [held, hpc] at h
  cases h

namespace Waits

theorem ready (h : s.Waits) (hs : ¬ s.Sending t) (hr : ¬ s.Receiving t) : s.Ready t :=
  ⟨fun ht => hr (h.receivers t ht).1, fun ht => hs (h.senders t ht).1⟩

theorem ready_of_atEntry (h : s.Waits) (hat : s.AtEntry t) : s.Ready t := by
  rcases hat.ready with hidle | hready
  · exact h.ready (not_sending_of_idle hidle) (not_receiving_of_idle hidle)
  · exact hready

theorem ready_of_held (h : s.Waits) (ht : s.held t = some msg) : s.Ready t :=
  h.ready (not_sending_of_held ht) (not_receiving_of_held ht)

/-- Threads leave the lists, and those that stay do not change. -/
theorem of_sublist (h : s.Waits)
    (hs : s'.mq.suspendSenderThread.Sublist s.mq.suspendSenderThread)
    (hr : s'.mq.suspendThread.Sublist s.mq.suspendThread)
    (hsame : ∀ u, u ∈ s'.mq.suspendSenderThread ∨ u ∈ s'.mq.suspendThread →
      (s'.thread u).pc = (s.thread u).pc ∧ (s'.thread u).error = (s.thread u).error) :
    s'.Waits := by
  refine ⟨h.nodup_senders.sublist hs, h.nodup_receivers.sublist hr, fun t ht => ?_, fun t ht => ?_⟩
  · obtain ⟨hpc, herr⟩ := hsame t (.inl ht)
    obtain ⟨hsend, hok⟩ := h.senders t (hs.subset ht)
    unfold Sending
    rw [hpc, herr]
    exact ⟨hsend, hok⟩
  · obtain ⟨hpc, herr⟩ := hsame t (.inr ht)
    obtain ⟨hrecv, hok⟩ := h.receivers t (hr.subset ht)
    unfold Receiving
    rw [hpc, herr]
    exact ⟨hrecv, hok⟩

/-- A thread that is on no list changes. -/
theorem of_ready (h : s.Waits) (ht : s.Ready t)
    (hs : s'.mq.suspendSenderThread.Sublist s.mq.suspendSenderThread)
    (hr : s'.mq.suspendThread.Sublist s.mq.suspendThread)
    (hsame : ∀ u, u ≠ t → s'.thread u = s.thread u) : s'.Waits := by
  refine h.of_sublist hs hr fun u hu => ?_
  have hne : u ≠ t := by
    rintro rfl
    rcases hu with hu | hu
    · exact ht.2 (hs.subset hu)
    · exact ht.1 (hr.subset hu)
  rw [hsame u hne]
  exact ⟨rfl, rfl⟩

end Waits

/-! ### What the moves keep -/

theorem WokenSender.of_same (h : s.WokenSender u) (hsame : s'.thread u = s.thread u)
    (hsub : s'.mq.suspendSenderThread.Sublist s.mq.suspendSenderThread) : s'.WokenSender u := by
  refine ⟨?_, hsame ▸ h.error, fun hu => h.resumed (hsub.subset hu)⟩
  unfold Sending
  rw [hsame]
  exact h.sending

theorem WokenReceiver.of_same (h : s.WokenReceiver u) (hsame : s'.thread u = s.thread u)
    (hsub : s'.mq.suspendThread.Sublist s.mq.suspendThread) : s'.WokenReceiver u := by
  refine ⟨?_, hsame ▸ h.error, fun hu => h.resumed (hsub.subset hu)⟩
  unfold Receiving
  rw [hsame]
  exact h.receiving

/-- A thread changes that is not a resumed sender. -/
theorem senders_mono (h : Enough s.mq.suspendSenderThread s.WokenSender n)
    (ht : ¬ s.WokenSender t) (hsame : ∀ u, u ≠ t → s'.thread u = s.thread u)
    (hsub : s'.mq.suspendSenderThread.Sublist s.mq.suspendSenderThread) :
    Enough s'.mq.suspendSenderThread s'.WokenSender n := by
  refine h.mono (fun u hu => hu.of_same (hsame u ?_) hsub) fun hne hnil => hne ?_
  · rintro rfl
    exact ht hu
  · rw [hnil] at hsub
    exact List.sublist_nil.mp hsub

/-- A thread changes that is not a resumed receiver. -/
theorem receivers_mono (h : Enough s.mq.suspendThread s.WokenReceiver n)
    (ht : ¬ s.WokenReceiver t) (hsame : ∀ u, u ≠ t → s'.thread u = s.thread u)
    (hsub : s'.mq.suspendThread.Sublist s.mq.suspendThread) :
    Enough s'.mq.suspendThread s'.WokenReceiver n := by
  refine h.mono (fun u hu => hu.of_same (hsame u ?_) hsub) fun hne hnil => hne ?_
  · rintro rfl
    exact ht hu
  · rw [hnil] at hsub
    exact List.sublist_nil.mp hsub

/-- There are resumed receivers for the messages and resumed senders for the free slots. -/
structure Awake (s : MqSystem) (queue free : List ℕ) : Prop where
  receivers : Enough s.mq.suspendThread s.WokenReceiver queue.length
  senders : Enough s.mq.suspendSenderThread s.WokenSender free.length

/-- A thread that waits for nothing changes. -/
theorem Awake.of_ready (h : s.Awake queue free) (hs : ¬ s.WokenSender t)
    (hr : ¬ s.WokenReceiver t) (hsame : ∀ u, u ≠ t → s'.thread u = s.thread u)
    (hsubs : s'.mq.suspendSenderThread.Sublist s.mq.suspendSenderThread)
    (hsubr : s'.mq.suspendThread.Sublist s.mq.suspendThread) : s'.Awake queue free :=
  ⟨receivers_mono h.receivers hr hsame hsubr, senders_mono h.senders hs hsame hsubs⟩

theorem of_setThread_ne (s : MqSystem) (th : MqThread) :
    ∀ u, u ≠ t → (s.setThread t th).thread u = s.thread u :=
  fun _ hu => thread_setThread_of_ne hu

/-- All that is kept. -/
structure Kept (s : MqSystem) (d : Deque ℕ (List UInt8)) (queue free : List ℕ) : Prop where
  holds : s.Holds d queue free
  waits : s.Waits
  awake : s.Awake queue free

namespace Kept

theorem finish (h : s.Kept d queue free) (hat : s.AtEntry t) (hpc : th.pc = .idle)
    (hs : s.WokenSender t → s.mq.msgQueueFree = none) (hr : s.WokenReceiver t → s.mq.entry = 0) :
    (s.setThread t th).Kept d queue free := by
  refine ⟨h.holds.finish hat hpc, h.waits.of_ready (h.waits.ready_of_atEntry hat) (.refl _)
    (.refl _) (of_setThread_ne s th), ?_, ?_⟩
  · by_cases hw : s.WokenReceiver t
    · rw [(h.holds.slots.entry_eq_zero_iff).mp (hr hw)]
      exact .of_zero _ _
    · exact receivers_mono h.awake.receivers hw (of_setThread_ne s th) (.refl _)
  · by_cases hw : s.WokenSender t
    · rw [(h.holds.slots.lists.unused.eq_none_iff).mp (hs hw)]
      exact .of_zero _ _
    · exact senders_mono h.awake.senders hw (of_setThread_ne s th) (.refl _)

theorem waitSend {data : List UInt8} {timeout : Int32} (h : s.Kept d queue free)
    (hat : s.AtEntry t) (hrecv : ¬ s.Receiving t) (hdata : s.Sends t data)
    (hfree : s.mq.msgQueueFree = none) :
    ({ s with
      mq := { s.mq with
        suspendSenderThread :=
          rtIpcListSuspend s.mq.flag s.priority s.mq.suspendSenderThread t } }.setThread t
      { s.thread t with pc := .sendWait data timeout, error := .eok }).Kept d queue free := by
  have hready := h.waits.ready_of_atEntry hat
  refine ⟨h.holds.waitSend hat hdata, ⟨?_, h.waits.nodup_receivers, fun u hu => ?_, fun u hu => ?_⟩,
    ?_, ?_⟩
  · refine (rtIpcListSuspend_perm ..).nodup_iff.mpr (List.nodup_cons.mpr ⟨hready.2, ?_⟩)
    exact h.waits.nodup_senders
  · rcases mem_rtIpcListSuspend.mp hu with rfl | hmem
    · unfold Sending
      rw [thread_setThread_self]
      exact ⟨⟨data, timeout, rfl⟩, rfl⟩
    · have hne : u ≠ t := by
        rintro rfl
        exact hready.2 hmem
      unfold Sending
      rw [thread_setThread_of_ne hne]
      exact h.waits.senders u hmem
  · have hne : u ≠ t := by
      rintro rfl
      exact hready.1 hu
    unfold Receiving
    rw [thread_setThread_of_ne hne]
    exact h.waits.receivers u hu
  · exact receivers_mono h.awake.receivers (fun hw => hrecv hw.receiving)
      (fun u hu => thread_setThread_of_ne hu) (.refl _)
  · rw [(h.holds.slots.lists.unused.eq_none_iff).mp hfree]
    exact .of_zero _ _

theorem waitRecv {buffer : List UInt8} {timeout : Int32} (h : s.Kept d queue free)
    (hat : s.AtEntry t) (hsend : ¬ s.Sending t) (hentry : s.mq.entry = 0) :
    ({ s with
      mq := { s.mq with
        suspendThread := rtIpcListSuspend s.mq.flag s.priority s.mq.suspendThread t } }.setThread t
      { s.thread t with pc := .recvWait buffer size timeout, error := .eok }).Kept
        d queue free := by
  have hready := h.waits.ready_of_atEntry hat
  refine ⟨h.holds.waitRecv hat, ⟨h.waits.nodup_senders, ?_, fun u hu => ?_, fun u hu => ?_⟩,
    ?_, ?_⟩
  · refine (rtIpcListSuspend_perm ..).nodup_iff.mpr (List.nodup_cons.mpr ⟨hready.1, ?_⟩)
    exact h.waits.nodup_receivers
  · have hne : u ≠ t := by
      rintro rfl
      exact hready.2 hu
    unfold Sending
    rw [thread_setThread_of_ne hne]
    exact h.waits.senders u hu
  · rcases mem_rtIpcListSuspend.mp hu with rfl | hmem
    · unfold Receiving
      rw [thread_setThread_self]
      exact ⟨⟨buffer, size, timeout, rfl⟩, rfl⟩
    · have hne : u ≠ t := by
        rintro rfl
        exact hready.1 hmem
      unfold Receiving
      rw [thread_setThread_of_ne hne]
      exact h.waits.receivers u hmem
  · rw [(h.holds.slots.entry_eq_zero_iff).mp hentry]
    exact .of_zero _ _
  · exact senders_mono h.awake.senders (fun hw => hsend hw.sending)
      (fun u hu => thread_setThread_of_ne hu) (.refl _)

/-- A sender takes a slot: one free slot less, and one resumed sender less if it was one. -/
theorem takeFree {data : List UInt8} {pc : MqPc} (h : s.Kept d queue free) (hat : s.AtEntry t)
    (hrecv : ¬ s.Receiving t) (hdata : s.Sends t data) (hfree : s.mq.msgQueueFree = some msg)
    (hpc : pc = .sendCopy msg data ∨ pc = .urgentCopy msg data) :
    ∃ free', ({ s with mq := s.mq.takeFree msg }.goto t pc).Kept d queue free' := by
  have hunused := h.holds.slots.lists.unused
  rw [hfree] at hunused
  obtain ⟨free, rfl, -⟩ := hunused.of_some
  refine ⟨free, h.holds.takeFree hat hdata hpc, ?_, ?_, ?_⟩
  · exact h.waits.of_ready (h.waits.ready_of_atEntry hat) (.refl _) (.refl _)
      fun u hu => thread_setThread_of_ne hu
  · exact receivers_mono h.awake.receivers (fun hw => hrecv hw.receiving)
      (fun u hu => thread_setThread_of_ne hu) (.refl _)
  · exact h.awake.senders.take fun u hu hw => hw.of_same (thread_setThread_of_ne hu) (.refl _)

/-- A receiver takes the first message. -/
theorem takeHead {buffer : List UInt8} (h : s.Kept d queue free) (hat : s.AtEntry t)
    (hsend : ¬ s.Sending t) (hhead : s.mq.msgQueueHead = some msg) :
    ∃ queue', ({ s with mq := s.mq.takeHead msg }.goto t (.recvCopy msg buffer size)).Kept
      (d.apply (.take t)) queue' free := by
  have hlinked := h.holds.slots.lists.head
  rw [hhead] at hlinked
  obtain ⟨queue, rfl, -⟩ := hlinked.of_some
  refine ⟨queue, h.holds.takeHead hat, ?_, ?_, ?_⟩
  · exact h.waits.of_ready (h.waits.ready_of_atEntry hat) (.refl _) (.refl _)
      fun u hu => thread_setThread_of_ne hu
  · exact h.awake.receivers.take fun u hu hw => hw.of_same (thread_setThread_of_ne hu) (.refl _)
  · exact senders_mono h.awake.senders (fun hw => hsend hw.sending)
      (fun u hu => thread_setThread_of_ne hu) (.refl _)

/-- A thread goes on with its copy. -/
theorem write {mq : RtMessagequeue} {pc : MqPc} (h : s.Kept d queue free)
    (hheld : s.held t = some msg) (hholds : ({ s with mq }.goto t pc).Holds d queue free)
    (hs : mq.suspendSenderThread = s.mq.suspendSenderThread)
    (hr : mq.suspendThread = s.mq.suspendThread) :
    ({ s with mq }.goto t pc).Kept d queue free := by
  have hsubs : mq.suspendSenderThread.Sublist s.mq.suspendSenderThread := hs ▸ .refl _
  have hsubr : mq.suspendThread.Sublist s.mq.suspendThread := hr ▸ .refl _
  exact ⟨hholds, h.waits.of_ready (h.waits.ready_of_held hheld) hsubs hsubr
    (fun u hu => thread_setThread_of_ne hu),
    h.awake.of_ready (fun hw => not_sending_of_held hheld hw.sending)
      (fun hw => not_receiving_of_held hheld hw.receiving)
      (fun u hu => thread_setThread_of_ne hu) hsubs hsubr⟩

/-- A message is linked, and the first receiver that waits is resumed. -/
theorem link {mq : RtMessagequeue} {d' : Deque ℕ (List UInt8)} {queue' : List ℕ}
    (h : s.Kept d queue free) (hheld : s.held t = some msg)
    (hholds : ({ s with mq }.resumeReceiver.finish t .eok []).Holds d' queue' free)
    (hs : mq.suspendSenderThread = s.mq.suspendSenderThread)
    (hr : mq.suspendThread = s.mq.suspendThread) (hlen : queue'.length = queue.length + 1) :
    ({ s with mq }.resumeReceiver.finish t .eok []).Kept d' queue' free := by
  have hsubs : mq.suspendSenderThread.Sublist s.mq.suspendSenderThread := hs ▸ .refl _
  have hsubr : mq.suspendThread.tail.Sublist s.mq.suspendThread := hr ▸ List.tail_sublist _
  have hsame : ∀ u, u ≠ t → ({ s with mq }.resumeReceiver.finish t .eok []).thread u =
      s.thread u := fun u hu => thread_setThread_of_ne hu
  refine ⟨hholds, h.waits.of_ready (h.waits.ready_of_held hheld) hsubs hsubr hsame, ?_,
    senders_mono h.awake.senders (fun hw => not_sending_of_held hheld hw.sending) hsame hsubs⟩
  rw [hlen]
  show Enough mq.suspendThread.tail _ _
  rw [hr]
  refine h.awake.receivers.wake (fun u hu => ?_) fun u hu => ?_
  · refine hu.of_same (hsame u ?_) hsubr
    rintro rfl
    exact not_receiving_of_held hheld hu.receiving
  · have hmem : u ∈ s.mq.suspendThread := List.mem_of_mem_head? hu
    obtain ⟨hrecv, hok⟩ := h.waits.receivers u hmem
    have hne : u ≠ t := by
      rintro rfl
      exact not_receiving_of_held hheld hrecv
    refine ⟨fun hw => hw.resumed hmem, ?_, ?_, ?_⟩
    · unfold Receiving
      rw [hsame u hne]
      exact hrecv
    · rw [hsame u hne]
      exact hok
    · show u ∉ mq.suspendThread.tail
      have hnodup := h.waits.nodup_receivers
      rw [hr]
      obtain ⟨list, hlist⟩ := List.head?_eq_some_iff.mp hu
      rw [hlist] at hnodup ⊢
      exact (List.nodup_cons.mp hnodup).1

/-- A slot is given back, and the first sender that waits is resumed. -/
theorem giveFree {buffer : List UInt8} (h : s.Kept d queue free)
    (hpc : (s.thread t).pc = .recvFree msg buffer size) :
    ({ s with mq := s.mq.giveFree msg }.resumeSender.finish t .eok buffer).Kept
      d queue (msg :: free) := by
  have hheld : s.held t = some msg := by rw [held, hpc]; rfl
  have hsame : ∀ u, u ≠ t →
      ({ s with mq := s.mq.giveFree msg }.resumeSender.finish t .eok buffer).thread u =
        s.thread u := fun u hu => thread_setThread_of_ne hu
  have hsubs : s.mq.suspendSenderThread.tail.Sublist s.mq.suspendSenderThread :=
    List.tail_sublist _
  refine ⟨h.holds.giveFree hpc, h.waits.of_ready (h.waits.ready_of_held hheld) hsubs (.refl _) hsame,
    receivers_mono h.awake.receivers (fun hw => not_receiving_of_held hheld hw.receiving) hsame
      (.refl _), ?_⟩
  refine h.awake.senders.wake (fun u hu => ?_) fun u hu => ?_
  · refine hu.of_same (hsame u ?_) hsubs
    rintro rfl
    exact not_sending_of_held hheld hu.sending
  · have hmem : u ∈ s.mq.suspendSenderThread := List.mem_of_mem_head? hu
    obtain ⟨hsend, hok⟩ := h.waits.senders u hmem
    have hne : u ≠ t := by
      rintro rfl
      exact not_sending_of_held hheld hsend
    refine ⟨fun hw => hw.resumed hmem, ?_, ?_, ?_⟩
    · unfold Sending
      rw [hsame u hne]
      exact hsend
    · rw [hsame u hne]
      exact hok
    · show u ∉ s.mq.suspendSenderThread.tail
      have hnodup := h.waits.nodup_senders
      obtain ⟨list, hlist⟩ := List.head?_eq_some_iff.mp hu
      rw [hlist] at hnodup ⊢
      exact (List.nodup_cons.mp hnodup).1

end Kept

end SortingLine.MqSystem
