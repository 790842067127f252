import Mathlib.Data.List.Forall2
import SortingLine.Library.BoundedQueue
import SortingLine.RtMq.Queue

/-!
# A kernel message queue is a bounded queue

`mq.Refines q`: the slots linked in `mq` start with the messages of the bounded queue `q`, in the
same order.  What else a slot holds, and which slot of the pool is used, does not show.

* `exists_recv_iterate_pop`: a message that finds a free slot is received after those before it.
* `refines_send`: a message that fits in a slot is appended or dropped exactly as `BQueue.send`
  does (`send_eq_efull_iff` says when the sender would be told).
* `recv_refines`: a receive takes the oldest message, and the buffer then starts with as much of
  it as was asked for.
-/

namespace SortingLine.RtMq

variable {msgSize maxMsgs : Nat} {mq mq' : RtMq msgSize maxMsgs}
  {q : BQueue (List UInt8) maxMsgs} {data buffer : List UInt8}

/-! ### What one call does -/

theorem prefix_patch_zero (slot data : List UInt8) : data <+: patch slot 0 data := by
  refine ⟨slot.drop data.length, ?_⟩
  simp [patch]

theorem send_of_free_nil (hd : data.length ≤ msgSize) (hf : mq.free = []) :
    mq.send data = (.efull, mq) := by
  unfold send
  rw [dif_neg (by omega)]
  split
  · rfl
  · simp_all

theorem send_of_free_cons {slot : List UInt8} {free : List (List UInt8)}
    (hd : data.length ≤ msgSize) (hf : mq.free = slot :: free) :
    (mq.send data).1 = .eok ∧ (mq.send data).2.queue = mq.queue ++ [patch slot 0 data] := by
  unfold send
  rw [dif_neg (by omega)]
  split
  · simp_all
  · rename_i slot' free' hf'
    rw [hf] at hf'
    simp_all

theorem recv_of_queue_cons {slot : List UInt8} {queue : List (List UInt8)}
    (buffer : List UInt8) (size : Nat) (hq : mq.queue = slot :: queue) :
    ∃ mq', mq.recv buffer size = some (patch buffer 0 (slot.take (min size msgSize)), mq') ∧
      mq'.queue = queue := by
  unfold recv
  split
  · simp_all
  · rename_i slot' queue' hq'
    rw [hq] at hq'
    simp_all

theorem recv_of_queue_nil (size : Nat) (hq : mq.queue = []) : mq.recv buffer size = none := by
  unfold recv
  split
  · rfl
  · simp_all

/-- The buffer of the reader plays no part in what a receive does to the queue. -/
theorem eq_pop_of_recv {buffer' : List UInt8} {size : Nat}
    (hr : mq.recv buffer size = some (buffer', mq')) : mq' = mq.pop := by
  obtain ⟨queue, free, hs, hp⟩ := mq
  cases queue with
  | nil => cases hr
  | cons slot queue =>
    simp only [recv, Option.some.injEq, Prod.mk.injEq] at hr
    rw [← hr.2]
    rfl

theorem queue_pop (mq : RtMq msgSize maxMsgs) : mq.pop.queue = mq.queue.tail := by
  cases hq : mq.queue with
  | nil => simp [pop, recv_of_queue_nil 0 hq, hq]
  | cons slot queue =>
    obtain ⟨mq', hr, hq'⟩ := recv_of_queue_cons [] 0 hq
    rw [← eq_pop_of_recv hr, hq', List.tail_cons]

theorem queue_iterate_pop (mq : RtMq msgSize maxMsgs) (n : Nat) :
    (pop^[n] mq).queue = mq.queue.drop n := by
  induction n generalizing mq with
  | zero => rfl
  | succ n ih => rw [Function.iterate_succ_apply, ih, queue_pop, List.drop_tail]

/-- A message that finds a free slot is received after those that were sent before it. -/
theorem exists_recv_iterate_pop {size : Nat} (buffer : List UInt8)
    (hfree : mq.queue.length < maxMsgs) (hd : data.length ≤ msgSize) :
    ∃ buffer' mq', (pop^[mq.queue.length] (mq.send data).2).recv buffer size
      = some (buffer', mq') ∧ data.take (min size msgSize) <+: buffer' := by
  cases hf : mq.free with
  | nil =>
    have hp := mq.length_pool
    rw [hf, List.length_nil] at hp
    omega
  | cons slot free =>
    have hq : (pop^[mq.queue.length] (mq.send data).2).queue = [patch slot 0 data] := by
      rw [queue_iterate_pop, (send_of_free_cons hd hf).2, List.drop_left]
    obtain ⟨mq', hr, -⟩ := recv_of_queue_cons buffer size hq
    refine ⟨_, mq', hr, ?_⟩
    obtain ⟨stale, hs⟩ := prefix_patch_zero slot data
    rw [← hs, List.take_append]
    exact (List.prefix_append _ _).trans (prefix_patch_zero _ _)

/-! ### Refinement -/

/-- The slots in the queue start with the messages of `q`. -/
def Refines (mq : RtMq msgSize maxMsgs) (q : BQueue (List UInt8) maxMsgs) : Prop :=
  List.Forall₂ (fun m slot => m <+: slot) q.items mq.queue

/-- There is a free slot exactly when the bounded queue is not full. -/
theorem free_eq_nil_iff (h : mq.Refines q) : mq.free = [] ↔ q.Full := by
  have hlen := h.length_eq
  have hp := mq.length_pool
  unfold BQueue.Full
  rw [← List.length_eq_zero_iff]
  omega

theorem send_eq_efull_iff (h : mq.Refines q) (hd : data.length ≤ msgSize) :
    (mq.send data).1 = .efull ↔ q.Full := by
  rw [← free_eq_nil_iff h]
  cases hf : mq.free with
  | nil => simp [send_of_free_nil hd hf]
  | cons slot free => simp [(send_of_free_cons hd hf).1]

/-- **A send refines the bounded queue's send.** -/
theorem refines_send (h : mq.Refines q) (hd : data.length ≤ msgSize) :
    (mq.send data).2.Refines (q.send data) := by
  cases hf : mq.free with
  | nil =>
    rw [send_of_free_nil hd hf, BQueue.send_of_full ((free_eq_nil_iff h).mp hf)]
    exact h
  | cons slot free =>
    have hfull : ¬ q.Full := by
      rw [← free_eq_nil_iff h, hf]
      simp
    unfold Refines
    rw [(send_of_free_cons hd hf).2, BQueue.items_send_of_not_full hfull]
    exact List.rel_append h (.cons (prefix_patch_zero slot data) .nil)

/-- **A receive refines the bounded queue's receive**: it takes the oldest message, and the
buffer then starts with the first `size` bytes of it. -/
theorem recv_refines {size : Nat} {buffer' : List UInt8} (h : mq.Refines q)
    (hr : mq.recv buffer size = some (buffer', mq')) :
    ∃ m q', q.recv = some (m, q') ∧ mq'.Refines q' ∧ m.take (min size msgSize) <+: buffer' := by
  cases hq : mq.queue with
  | nil => rw [recv_of_queue_nil size hq] at hr; cases hr
  | cons slot queue =>
    obtain ⟨mq₁, hr₁, hq₁⟩ := recv_of_queue_cons buffer size hq
    rw [hr₁, Option.some.injEq, Prod.mk.injEq] at hr
    obtain ⟨rfl, rfl⟩ := hr
    unfold Refines at h
    rw [hq] at h
    cases hi : q.items with
    | nil => rw [hi] at h; cases h
    | cons m ms =>
      rw [hi] at h
      obtain ⟨hm, hms⟩ := List.forall₂_cons.mp h
      have hle : ms.length ≤ maxMsgs := by
        have := q.length_le
        rw [hi, List.length_cons] at this
        omega
      refine ⟨m, ⟨ms, hle⟩, BQueue.recv_eq_some.mpr hi, ?_, ?_⟩
      · unfold Refines; rw [hq₁]; exact hms
      · obtain ⟨stale, rfl⟩ := hm
        rw [List.take_append]
        exact (List.prefix_append _ _).trans (prefix_patch_zero _ _)

end SortingLine.RtMq
