import SortingLine.RtMq.Equiv.Queue

/-!
# A kernel message queue with a reader

The reader of a queue asks for `size` bytes and decodes what it finds in its buffer.  The bytes `b`
carry the message `m` for it if it decodes `m` whatever the rest of its buffer holds, and
`mq.Conveys decode size q` says that the messages of `mq` carry those of `q`.  Senders and the
reader then only see `q`: `conveys_send`, `recv_conveys` and, for a step of a system,
`conveys_moves`.
-/

namespace SortingLine.RtMq

variable {msgSize maxMsgs : Nat} {mq mq' : RtMq msgSize maxMsgs} {μ : Type*}
  {decode : List UInt8 → Option μ} {size : Nat} {q : BQueue μ maxMsgs}

/-- Whoever receives the bytes `b` decodes the message `m`. -/
def Carries (msgSize : Nat) (decode : List UInt8 → Option μ) (size : Nat) (m : μ)
    (b : List UInt8) : Prop :=
  ∀ buffer, b.take (min size msgSize) <+: buffer → decode buffer = some m

/-- The messages of `mq` carry those of `q`, in order. -/
def Conveys (mq : RtMq msgSize maxMsgs) (decode : List UInt8 → Option μ) (size : Nat)
    (q : BQueue μ maxMsgs) : Prop :=
  ∃ qb : BQueue (List UInt8) maxMsgs, mq.Refines qb ∧
    List.Forall₂ (Carries msgSize decode size) q.items qb.items

theorem conveys_of_queue_nil (h : mq.queue = []) : mq.Conveys decode size .empty := by
  refine ⟨.empty, ?_, .nil⟩
  unfold Refines
  rw [h]
  exact .nil

/-- **Sending**: bytes that carry `m` are appended or dropped as `m` is. -/
theorem conveys_send {m : μ} {data : List UInt8} (h : mq.Conveys decode size q)
    (hd : data.length ≤ msgSize) (hm : Carries msgSize decode size m data) :
    (mq.send data).2.Conveys decode size (q.send m) := by
  obtain ⟨qb, hr, hc⟩ := h
  refine ⟨qb.send data, refines_send hr hd, ?_⟩
  have hlen := hc.length_eq
  by_cases hf : q.Full
  · have hfb : qb.Full := by unfold BQueue.Full at hf ⊢; omega
    rw [BQueue.send_of_full hf, BQueue.send_of_full hfb]
    exact hc
  · have hfb : ¬ qb.Full := by unfold BQueue.Full at hf ⊢; omega
    rw [BQueue.items_send_of_not_full hf, BQueue.items_send_of_not_full hfb]
    exact List.rel_append hc (.cons hm .nil)

/-- Several sends in a row. -/
def sendAll (mq : RtMq msgSize maxMsgs) (bs : List (List UInt8)) : RtMq msgSize maxMsgs :=
  bs.foldl (fun mq b => (mq.send b).2) mq

theorem conveys_sendAll {ms : List μ} {bs : List (List UInt8)} (h : mq.Conveys decode size q)
    (hb : List.Forall₂ (fun m b => Carries msgSize decode size m b ∧ b.length ≤ msgSize) ms bs) :
    (mq.sendAll bs).Conveys decode size (ms.foldl BQueue.send q) := by
  induction hb generalizing mq q with
  | nil => exact h
  | cons hm _ ih => exact ih (conveys_send h hm.2 hm.1)

/-- **Receiving**: the reader decodes the oldest message. -/
theorem recv_conveys {buffer buffer' : List UInt8} (h : mq.Conveys decode size q)
    (hr : mq.recv buffer size = some (buffer', mq')) :
    ∃ m q', q.recv = some (m, q') ∧ mq'.Conveys decode size q' ∧ decode buffer' = some m := by
  obtain ⟨qb, href, hc⟩ := h
  obtain ⟨b, qb', hqb, href', hpre⟩ := recv_refines href hr
  rw [BQueue.recv_eq_some] at hqb
  rw [hqb] at hc
  cases hi : q.items with
  | nil => rw [hi] at hc; cases hc
  | cons m ms =>
    rw [hi] at hc
    obtain ⟨hm, hms⟩ := List.forall₂_cons.mp hc
    have hle : ms.length ≤ maxMsgs := by
      have := q.length_le
      rw [hi, List.length_cons] at this
      omega
    exact ⟨m, ⟨ms, hle⟩, BQueue.recv_eq_some.mpr hi, ⟨qb', href', hms⟩, hm _ hpre⟩

/-- While there is a message, the reader gets it. -/
theorem exists_recv_of_conveys (buffer : List UInt8) {m : μ} {ms : List μ}
    (h : mq.Conveys decode size q) (hq : q.items = m :: ms) :
    ∃ buffer' mq' q', mq.recv buffer size = some (buffer', mq') ∧
      mq'.Conveys decode size q' ∧ q'.items = ms ∧ decode buffer' = some m := by
  cases hr : mq.recv buffer size with
  | some r =>
    obtain ⟨buffer', mq'⟩ := r
    obtain ⟨m', q', hrecv, hc, hdec⟩ := recv_conveys h hr
    rw [BQueue.recv_eq_some, hq, List.cons.injEq] at hrecv
    obtain ⟨rfl, rfl⟩ := hrecv
    exact ⟨buffer', mq', q', rfl, hc, rfl, hdec⟩
  | none =>
    -- the reader waits only while the queue is empty
    obtain ⟨qb, href, hc⟩ := h
    have hlen : q.items.length = mq.queue.length := hc.length_eq.trans href.length_eq
    cases hs : mq.queue with
    | nil =>
      rw [hs, hq] at hlen
      cases hlen
    | cons slot queue =>
      obtain ⟨mq', hr', -⟩ := recv_of_queue_cons buffer size hs
      rw [hr] at hr'
      cases hr'

/-- Whatever its buffer holds, the reader now gets the message `m`. -/
def Reads (mq : RtMq msgSize maxMsgs) (decode : List UInt8 → Option μ) (size : Nat) (m : μ) :
    Prop :=
  ∀ buffer, ∃ buffer', mq.recv buffer size = some (buffer', mq.pop) ∧ decode buffer' = some m

theorem reads_of_conveys {m : μ} (h : mq.Conveys decode size q) (hm : q.items.head? = some m) :
    mq.Reads decode size m := by
  intro buffer
  obtain ⟨ms, hq⟩ := List.head?_eq_some_iff.mp hm
  obtain ⟨buffer', mq', -, hr, -, -, hd⟩ := exists_recv_of_conveys buffer h hq
  obtain rfl := eq_pop_of_recv hr
  exact ⟨buffer', hr, hd⟩

theorem conveys_pop {m : μ} {q' : BQueue μ maxMsgs} (h : mq.Conveys decode size q)
    (hq : q.items = m :: q'.items) : mq.pop.Conveys decode size q' := by
  obtain ⟨buffer', mq', q₁, hr, hc, hq₁, -⟩ := exists_recv_of_conveys [] h hq
  obtain rfl := eq_pop_of_recv hr
  obtain rfl : q₁ = q' := BQueue.ext hq₁
  exact hc

/-- **A step of the typed queue is a step of the kernel's**, if the bytes `bs` carry the messages
`ms`. -/
theorem conveys_moves {takes : Prop} [Decidable takes] {ms : List μ} {bs : List (List UInt8)}
    {q' : BQueue μ maxMsgs} (h : mq.Conveys decode size q) (hm : BQueue.Moves takes ms q q')
    (hb : List.Forall₂ (fun m b => Carries msgSize decode size m b ∧ b.length ≤ msgSize) ms bs) :
    ((if takes then mq.pop else mq).sendAll bs).Conveys decode size q' := by
  cases hm with
  | take m ht hms hq =>
    rw [if_pos ht]
    rw [hms] at hb
    cases hb
    exact conveys_pop h hq
  | send ht hq =>
    rw [if_neg ht, hq]
    exact conveys_sendAll h hb

end SortingLine.RtMq
