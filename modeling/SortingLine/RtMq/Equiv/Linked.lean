import Mathlib.Data.List.Infix
import SortingLine.Library.Links
import SortingLine.RtMq.Linked

/-!
# The two lists of a message queue

`mq.Lists queue free`: the pointers of the slots lead through `queue` from the head to the tail, and
through `free`; no slot is in both.  Each critical section moves one slot, and the slots that threads
are copying are in neither list.
-/

namespace SortingLine.RtMessagequeue

variable {mq : RtMessagequeue} {queue free : List ℕ} {msg n : ℕ} {data : List UInt8}

/-- The slots in the queue and in the free list. -/
structure Lists (mq : RtMessagequeue) (queue free : List ℕ) : Prop where
  head : Linked mq.next mq.msgQueueHead queue
  tail : mq.msgQueueTail = queue.getLast?
  unused : Linked mq.next mq.msgQueueFree free
  nodup : (queue ++ free).Nodup

/-- The slot is in neither list. -/
structure Apart (msg : ℕ) (queue free : List ℕ) : Prop where
  queue : msg ∉ queue
  free : msg ∉ free

namespace Lists

theorem notMem_free (h : mq.Lists queue free) (hm : msg ∈ queue) : msg ∉ free :=
  fun hm' => (List.nodup_append.mp h.nodup).2.2 msg hm msg hm' rfl

theorem nodup_queue (h : mq.Lists queue free) : queue.Nodup := h.nodup.of_append_left

theorem nodup_free (h : mq.Lists queue free) : free.Nodup := h.nodup.of_append_right

/-- A store to the pointer of a slot that is in neither list. -/
theorem update (h : mq.Lists queue free) (hm : Apart msg queue free) (p : Option ℕ) :
    ({ mq with next := Function.update mq.next msg p } : RtMessagequeue).Lists queue free :=
  ⟨h.head.update hm.queue, h.tail, h.unused.update hm.free, h.nodup⟩

theorem copyIn (h : mq.Lists queue free) : (mq.copyIn msg data).Lists queue free :=
  ⟨h.head, h.tail, h.unused, h.nodup⟩

theorem takeFree (h : mq.Lists queue (msg :: free)) : (mq.takeFree msg).Lists queue free :=
  ⟨h.head, h.tail, h.unused.2, h.nodup.sublist ((List.sublist_cons_self ..).append_left queue)⟩

theorem apart_of_free (h : mq.Lists queue (msg :: free)) : Apart msg queue free :=
  ⟨fun hm => h.notMem_free hm (List.mem_cons_self ..),
    (List.nodup_cons.mp h.nodup_free).1⟩

theorem giveFree (h : mq.Lists queue free) (hm : Apart msg queue free) :
    (mq.giveFree msg).Lists queue (msg :: free) where
  head := h.head.update hm.queue
  tail := h.tail
  unused := h.unused.push hm.free
  nodup := by
    rw [List.nodup_middle, List.nodup_cons, List.mem_append]
    exact ⟨not_or.mpr ⟨hm.queue, hm.free⟩, h.nodup⟩

theorem linkHead (h : mq.Lists queue free) (hm : Apart msg queue free) :
    (mq.linkHead msg).Lists (msg :: queue) free where
  head := h.head.push hm.queue
  tail := by
    change (if mq.msgQueueTail = none then some msg else mq.msgQueueTail) = _
    rw [h.tail, List.getLast?_cons]
    cases queue.getLast? with
    | none => rfl
    | some tail => rfl
  unused := h.unused.update hm.free
  nodup := by
    rw [List.cons_append, List.nodup_cons, List.mem_append]
    exact ⟨not_or.mpr ⟨hm.queue, hm.free⟩, h.nodup⟩

/-- A slot that leads nowhere becomes the last one. -/
theorem linkTail (h : mq.Lists queue free) (hm : Apart msg queue free)
    (hnext : mq.next msg = none) : (mq.linkTail msg).Lists (queue ++ [msg]) free := by
  have hnodup : (queue ++ [msg] ++ free).Nodup := by
    rw [List.append_assoc, List.singleton_append, List.nodup_middle, List.nodup_cons,
      List.mem_append]
    exact ⟨not_or.mpr ⟨hm.queue, hm.free⟩, h.nodup⟩
  have htail : (mq.linkTail msg).msgQueueTail = (queue ++ [msg]).getLast? := by
    rw [List.getLast?_append]
    rfl
  rcases List.eq_nil_or_concat' queue with rfl | ⟨init, last, rfl⟩
  · have hnone : mq.msgQueueTail = none := h.tail
    have hhead : mq.msgQueueHead = none := h.head
    have hlinks : (mq.linkTail msg).next = mq.next := by
      unfold RtMessagequeue.linkTail
      rw [hnone]
    refine ⟨?_, htail, hlinks ▸ h.unused, hnodup⟩
    rw [hlinks]
    change Linked mq.next (if mq.msgQueueHead = none then some msg else mq.msgQueueHead) [msg]
    rw [if_pos hhead]
    exact ⟨rfl, hnext⟩
  · have hsome : mq.msgQueueTail = some last := by
      rw [h.tail, List.getLast?_append]
      rfl
    have hlinks : (mq.linkTail msg).next = Function.update mq.next last (some msg) := by
      unfold RtMessagequeue.linkTail
      rw [hsome]
    have hhead : mq.msgQueueHead ≠ none := by
      rw [Ne, h.head.eq_none_iff]
      simp
    refine ⟨?_, htail, ?_, hnodup⟩
    · rw [hlinks]
      change Linked _ (if mq.msgQueueHead = none then some msg else mq.msgQueueHead) _
      rw [if_neg hhead]
      exact h.head.append h.nodup_queue hm.queue hnext
    · rw [hlinks]
      exact h.unused.update (h.notMem_free (by simp))

theorem takeHead (h : mq.Lists (msg :: queue) free) : (mq.takeHead msg).Lists queue free where
  head := h.head.2
  tail := by
    change (if mq.msgQueueTail = some msg then none else mq.msgQueueTail) = _
    rw [h.tail]
    rcases List.eq_nil_or_concat' queue with rfl | ⟨init, last, rfl⟩
    · exact if_pos rfl
    · have hne : last ≠ msg := by
        rintro rfl
        exact (List.nodup_cons.mp h.nodup_queue).1 (by simp)
      rw [← List.cons_append, List.getLast?_append, List.getLast?_append]
      exact if_neg fun heq => hne (Option.some.inj heq)
  unused := h.unused
  nodup := (List.nodup_cons.mp h.nodup).2

/-- What the loop of a reset does to the head: `entry` stays as it is. -/
theorem dropHead (h : mq.Lists (msg :: queue) free) :
    ({ mq with
      msgQueueHead := mq.next msg
      msgQueueTail := if mq.msgQueueTail = some msg then none else mq.msgQueueTail } :
        RtMessagequeue).Lists queue free :=
  ⟨h.takeHead.head, h.takeHead.tail, h.takeHead.unused, h.takeHead.nodup⟩

theorem apart_of_queue (h : mq.Lists (msg :: queue) free) : Apart msg queue free :=
  ⟨(List.nodup_cons.mp h.nodup_queue).1, h.notMem_free (List.mem_cons_self ..)⟩

/-- A reset puts the messages in front of the free list, one after the other. -/
theorem releaseAll (h : mq.Lists queue free) (hn : queue.length ≤ n) :
    (mq.releaseAll n).Lists [] (queue.reverse ++ free) := by
  induction queue generalizing mq free n with
  | nil =>
    have hhead : mq.msgQueueHead = none := h.head
    cases n with
    | zero => exact h
    | succ n =>
      rw [RtMessagequeue.releaseAll, hhead]
      exact h
  | cons msg queue ih =>
    obtain ⟨n, rfl⟩ : ∃ k, n = k + 1 :=
      Nat.exists_eq_add_of_le' ((Nat.succ_le_succ (Nat.zero_le _)).trans hn)
    rw [RtMessagequeue.releaseAll, h.head.1]
    have hrest := ih (h.dropHead.giveFree h.apart_of_queue) (Nat.le_of_succ_le_succ hn)
    rwa [List.reverse_cons, List.append_assoc]

theorem releaseAll_next (h : mq.Lists queue free) (hm : msg ∉ queue) :
    (mq.releaseAll n).next msg = mq.next msg := by
  induction queue generalizing mq free n with
  | nil =>
    have hhead : mq.msgQueueHead = none := h.head
    cases n with
    | zero => rfl
    | succ n => rw [RtMessagequeue.releaseAll, hhead]
  | cons first queue ih =>
    cases n with
    | zero => rfl
    | succ n =>
      rw [RtMessagequeue.releaseAll, h.head.1]
      obtain ⟨hne, hm⟩ := not_or.mp (List.mem_cons.not.mp hm)
      exact (ih (h.dropHead.giveFree h.apart_of_queue) hm).trans (Function.update_of_ne hne _ _)

end Lists

/-! ### What a reset leaves as it is -/

theorem releaseAll_frame (mq : RtMessagequeue) (n : ℕ) :
    (mq.releaseAll n).slot = mq.slot ∧ (mq.releaseAll n).maxMsgs = mq.maxMsgs ∧
      (mq.releaseAll n).msgSize = mq.msgSize := by
  induction n generalizing mq with
  | zero => exact ⟨rfl, rfl, rfl⟩
  | succ n ih =>
    rw [releaseAll]
    cases mq.msgQueueHead with
    | none => exact ⟨rfl, rfl, rfl⟩
    | some msg => exact ih _

/-! ### A new queue -/

/-- All slots of a new queue are free, the last one of the pool first. -/
theorem lists_create (msgSize : UInt32) (maxMsgs : UInt16) (flag : IpcFlag)
    (pool : ℕ → List UInt8) :
    (create msgSize maxMsgs flag pool).Lists [] (List.range maxMsgs.toNat).reverse where
  head := rfl
  tail := rfl
  unused := by
    have hlinked : ∀ k : ℕ, Linked (fun temp => if temp = 0 then none else some (temp - 1))
        (if k = 0 then none else some (k - 1)) (List.range k).reverse := by
      intro k
      induction k with
      | zero => rfl
      | succ k ih =>
        rw [List.range_succ, List.reverse_append, List.reverse_singleton, List.singleton_append]
        exact ⟨rfl, ih⟩
    have hfree : (create msgSize maxMsgs flag pool).msgQueueFree =
        if maxMsgs.toNat = 0 then none else some (maxMsgs.toNat - 1) := by
      change (if maxMsgs = 0 then none else some (maxMsgs.toNat - 1)) = _
      by_cases h0 : maxMsgs = 0
      · rw [if_pos h0, h0]
        rfl
      · have hpos : maxMsgs.toNat ≠ 0 := fun h => h0 (UInt16.toNat_inj.mp h)
        rw [if_neg h0, if_neg hpos]
    rw [hfree]
    exact hlinked maxMsgs.toNat
  nodup := by
    rw [List.nil_append, List.nodup_reverse]
    exact List.nodup_range

end SortingLine.RtMessagequeue
