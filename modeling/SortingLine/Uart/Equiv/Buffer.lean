import SortingLine.Uart.Buffer

/-!
# The buffers of the serial port keep the newest bytes

The fields of `NS16550_buf_t` are those of the ring that the model of the port uses (`Holds`), call
by call, and what is known about rings carries over: in every state that calls lead to, the buffer
holds the last 512 bytes of what was put in and not taken out (`refines_of_reaches`).
-/

namespace SortingLine.Uart

open Ns16550 RingData

/-! ### Buffer and ring -/

/-- The buffer has the fields of a ring. -/
structure Holds (data : BufT) (d : RingData UInt8 uartBufSize) : Prop where
  buf : ∀ i : Fin uartBufSize, data.buf i = d.buf i
  count : data.count = d.count
  pHead : data.pHead = d.head
  pTail : data.pTail = d.tail

variable {data : BufT} {d : RingData UInt8 uartBufSize} {r : Ns16550Buf}

theorem advance_eq (i : Fin uartBufSize) : BufT.advance i = next i := by
  unfold BufT.advance next
  by_cases h : i.val + 1 < uartBufSize
  · rw [if_neg (Nat.not_le.mpr h), dif_pos h]
  · rw [if_pos (Nat.not_lt.mp h), dif_neg h]

theorem Holds.enqueueByte (h : Holds data d) (b : UInt8) :
    Holds (data.enqueueByte b) (d.put b) where
  buf i := by
    show Function.update data.buf data.pTail b i = Function.update d.buf d.tail b i
    rw [h.pTail]
    by_cases hi : i = d.tail
    · rw [hi, Function.update_self, Function.update_self]
    · rw [Function.update_of_ne hi, Function.update_of_ne (Fin.val_ne_of_ne hi), h.buf]
  count := by
    show data.count + 1 = ((d.count + 1 : ℕ) : ℤ)
    rw [h.count, Nat.cast_succ]
  pHead := h.pHead
  pTail := by
    show BufT.advance data.pTail = next d.tail
    rw [h.pTail, advance_eq]

theorem Holds.foldl_enqueueByte (h : Holds data d) (buf : List UInt8) :
    Holds (buf.foldl BufT.enqueueByte data) (buf.foldl RingData.put d) := by
  induction buf generalizing data d with
  | nil => exact h
  | cons b buf ih => exact ih (h.enqueueByte b)

/-- `enqueue_to_buffer` is the ring's. -/
theorem Holds.enqueue (h : Holds data r.toRingData) (buf : List UInt8) :
    Holds (data.enqueueToBuffer buf).2 (r.enqueue buf).toRingData := by
  have hloop := h.foldl_enqueueByte buf
  show Holds _ (buf.foldl RingData.put r.toRingData).trim
  unfold BufT.enqueueToBuffer RingData.trim
  dsimp only
  by_cases hover : uartBufSize < (buf.foldl RingData.put r.toRingData).count
  · rw [if_pos (by rw [hloop.count]; exact_mod_cast hover), if_pos hover]
    exact ⟨hloop.buf, rfl, hloop.pTail, hloop.pTail⟩
  · rw [if_neg (by rw [hloop.count]; exact_mod_cast hover), if_neg hover]
    exact hloop

theorem Holds.dequeueByte (h : Holds data d) (hpos : 0 < d.count) :
    Holds data.dequeueByte { d with count := d.count - 1, head := next d.head } where
  buf := h.buf
  count := by
    show data.count - 1 = ((d.count - 1 : ℕ) : ℤ)
    have := h.count
    omega
  pHead := by
    show BufT.advance data.pHead = next d.head
    rw [h.pHead, advance_eq]
  pTail := h.pTail

theorem Holds.dequeueLoop (h : Holds data d) {k : ℕ} (hk : k ≤ d.count) :
    (data.dequeueLoop k).1 = (d.take k).1 ∧ Holds (data.dequeueLoop k).2 (d.take k).2 := by
  induction k generalizing data d with
  | zero => exact ⟨rfl, h⟩
  | succ k ih =>
    obtain ⟨hfst, hsnd⟩ := ih (h.dequeueByte (by omega)) (by show k ≤ d.count - 1; omega)
    refine ⟨?_, hsnd⟩
    show data.buf data.pHead :: _ = d.buf d.head :: _
    rw [h.pHead, h.buf, hfst]

/-- `dequeue_from_buffer` is the ring's. -/
theorem Holds.dequeue (h : Holds data r.toRingData) (len : ℕ) :
    (data.dequeueFromBuffer len).1 = min (len : ℤ) r.count ∧
    (data.dequeueFromBuffer len).2.1 = (r.dequeue len).1 ∧
    Holds (data.dequeueFromBuffer len).2.2 (r.dequeue len).2.toRingData := by
  have hcount : (if (len : ℤ) < data.count then (len : ℤ) else data.count) =
      min (len : ℤ) r.count := by
    rw [h.count, min_def]
    split_ifs <;> omega
  unfold BufT.dequeueFromBuffer
  dsimp only
  rw [hcount]
  refine ⟨rfl, ?_⟩
  have hnat : (min (len : ℤ) r.count).toNat = min len r.count := by omega
  rw [hnat]
  exact h.dequeueLoop (Nat.min_le_right _ _)

theorem holds_initializeBuffer (data : BufT) :
    Holds data.initializeBuffer
      (Ring.clear (n := uartBufSize) ⟨fun i => data.buf i, 0, 0, 0⟩).toRingData :=
  ⟨fun _ => rfl, rfl, rfl, rfl⟩

/-! ### Buffer and queue -/

/-- One call on the buffer, on the ring and on the queue. -/
theorem Holds.call (h : Holds data r.toRingData) (c : BufCall) :
    (data.call c).1 = (keepNewest r.toList c).1 ∧
    (data.call c).2.1 = (keepNewest r.toList c).2.1 ∧
    ∃ r' : Ns16550Buf, Holds (data.call c).2.2 r'.toRingData ∧
      r'.toList = (keepNewest r.toList c).2.2 := by
  cases c with
  | enqueue buf =>
    refine ⟨rfl, rfl, r.enqueue buf, h.enqueue buf, ?_⟩
    rw [r.toList_enqueue buf, keepNewest, List.rtake]
  | dequeue len =>
    obtain ⟨hcount, hbytes, hholds⟩ := h.dequeue len
    refine ⟨?_, hbytes.trans (r.fst_dequeue len), (r.dequeue len).2, hholds,
      r.toList_dequeue len⟩
    rw [show (keepNewest r.toList (.dequeue len)).1 = min (len : ℤ) r.toList.length from rfl,
      r.length_toList]
    exact hcount

/-- A buffer that is a ring holds what the ring does. -/
theorem Holds.refines (h : Holds data r.toRingData) :
    PairedBuf.Refines { data, queue := r.toList } where
  count := by rw [r.length_toList, h.count]
  length := r.length_toList_le
  pHead := by
    rw [h.pHead]
    exact r.head.isLt
  pTail := by
    rw [h.pTail]
    exact r.tail.isLt
  wrapped := by
    rw [h.pTail, h.pHead, r.tail_eq, r.length_toList]
    rfl
  content i hi := by
    have hslot := h.buf (slot r.head i)
    rw [h.pHead]
    refine hslot.trans ?_
    simp [Ring.toList]

namespace PairedBuf

variable {tr : List (PairedBuf × BufCall)} {s : PairedBuf}

/-- The buffer is a ring that holds the queue. -/
def IsRing (s : PairedBuf) : Prop :=
  ∃ r : Ns16550Buf, Holds s.data r.toRingData ∧ r.toList = s.queue

theorem IsRing.step (hs : IsRing s) {c : BufCall} {s' : PairedBuf} (h : step s c = some s') :
    IsRing s' := by
  obtain ⟨r, hholds, hqueue⟩ := hs
  obtain rfl := Option.some.inj h
  obtain ⟨-, -, r', hholds', hqueue'⟩ := hholds.call c
  refine ⟨r', hholds', hqueue'.trans ?_⟩
  show _ = (keepNewest s.queue c).2.2
  rw [hqueue]

theorem Reaches.isRing (h : Reaches tr s) : IsRing s := by
  obtain ⟨data, hrun⟩ := h
  exact hrun.invariant ⟨_, holds_initializeBuffer data, Ring.toList_clear _⟩
    fun _ _ _ hs hstep => hs.step hstep

/-- Any calls can be made one after the other. -/
theorem exists_reaches (data : BufT) (calls : List BufCall) :
    ∃ tr s, Reaches tr s ∧ tr.map Prod.snd = calls := by
  suffices ∃ tr s, Run step { data := data.initializeBuffer, queue := [] } tr s ∧
      tr.map Prod.snd = calls by
    obtain ⟨tr, s, hrun, hcalls⟩ := this
    exact ⟨tr, s, ⟨data, hrun⟩, hcalls⟩
  induction calls using List.reverseRecOn with
  | nil => exact ⟨[], _, .start, rfl⟩
  | append_singleton calls c ih =>
    obtain ⟨tr, s, hrun, hcalls⟩ := ih
    refine ⟨tr ++ [(s, c)], _, hrun.next rfl, ?_⟩
    rw [List.map_append, hcalls, List.map_singleton]

/-- **The buffers keep the newest bytes**: each call returns what the queue does, and in every
state reached the buffer holds the queue. -/
theorem refines_of_reaches (h : Reaches tr s) :
    Refines s ∧ ∀ x ∈ tr, (x.1.data.call x.2).1 = (keepNewest x.1.queue x.2).1 ∧
      (x.1.data.call x.2).2.1 = (keepNewest x.1.queue x.2).2.1 := by
  constructor
  · obtain ⟨r, hholds, hqueue⟩ := h.isRing
    have hrefines := hholds.refines
    rwa [hqueue] at hrefines
  · intro x hx
    obtain ⟨data, hrun⟩ := h
    obtain ⟨tr₁, tr₂, s', rfl, hrun₁, -⟩ := hrun.of_mem hx
    have hreaches : Reaches tr₁ x.1 := ⟨data, hrun₁⟩
    obtain ⟨r, hholds, hqueue⟩ := hreaches.isRing
    obtain ⟨hcount, hbytes, -⟩ := hholds.call x.2
    exact ⟨hqueue ▸ hcount, hqueue ▸ hbytes⟩

/-- A call with more bytes than fit, and two that take out what is left. -/
def overflowing : List BufCall :=
  [.enqueue (65 :: 66 :: List.replicate 511 67), .dequeue 2, .dequeue 600]

theorem refines_of_reaches_overflowing :
    ∃ tr s, Reaches tr s ∧ tr.map Prod.snd = overflowing ∧ Refines s ∧
      ∀ x ∈ tr, (x.1.data.call x.2).1 = (keepNewest x.1.queue x.2).1 ∧
        (x.1.data.call x.2).2.1 = (keepNewest x.1.queue x.2).2.1 := by
  obtain ⟨tr, s, hreaches, hcalls⟩ := exists_reaches ⟨fun _ => 0, 0, 0, 0⟩ overflowing
  exact ⟨tr, s, hreaches, hcalls, refines_of_reaches hreaches⟩

end PairedBuf

end SortingLine.Uart
