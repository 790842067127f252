import SortingLine.Uart.Ns16550

/-!
# Order and progress of what is transmitted

`NS16550_write_string_int` sends directly whenever the transmit FIFO is empty, also while bytes of
an earlier call wait in `TxData`, and these are then overtaken.  As long as no call finds the FIFO
empty and `TxData` not, what is transmitted is a front part of what has been written
(`inOrder_of_reaches`).

The handler disables the transmit interrupt when it has found nothing to send or no room to send
it, and the writer adds to `TxData` without looking at the enable register.  `live_iff` says exactly
which steps leave bytes in `TxData` with nobody to send them.
-/

namespace SortingLine.Uart

open Ns16550

variable {s s' : Uart} {a : UartLabel} {tr : List (Uart × UartLabel)}

/-! ### Registers -/

theorem txEnabled_setInterrupt {count : ℕ} : (s.setInterrupt count).TxEnabled ↔ 0 < count := by
  show (if 0 < count then enableAllIntr else enableAllIntrExceptTx) &&& intTxEnable ≠ 0 ↔ _
  split_ifs with h <;> simp [h] <;> decide

/-! ### Steps -/

/-- The environment moves, or a task reads. -/
def isQuiet : UartLabel → Bool
  | .read _ | .drain | .arrive _ => true
  | _ => false

/-- What a step can do. -/
theorem step_cases (hs : s.step a = some s') :
    (∃ buf, a = .write buf ∧ s.handler = none ∧ s.writer = .idle ∧
      s' = { s with writer := .start buf, written := s.written ++ buf }) ∨
    (a = .writer ∧ s.handler = none ∧ s.writerStep = some s') ∨
    (a = .interrupt ∧ s.handler = none ∧ s' = { s with handler := some (.interruptId 0) }) ∨
    (∃ thre, a = .handler thre ∧ s.handlerStep thre = some s') ∨
    (isQuiet a = true ∧ ∃ fifo rxFifo rxData, s' = { s with fifo, rxFifo, rxData }) := by
  cases a with
  | write buf =>
    simp only [step] at hs
    split at hs
    · exact .inl ⟨buf, rfl, ‹_›, ‹_›, (Option.some.inj hs).symm⟩
    · cases hs
  | writer =>
    simp only [step] at hs
    split_ifs at hs with hh
    exact .inr (.inl ⟨rfl, Option.isNone_iff_eq_none.mp hh, hs⟩)
  | interrupt =>
    simp only [step] at hs
    split_ifs at hs with hh
    have hnone := Option.isNone_iff_eq_none.mp hh.1
    exact .inr (.inr (.inl ⟨rfl, hnone, (Option.some.inj hs).symm⟩))
  | handler thre => exact .inr (.inr (.inr (.inl ⟨thre, rfl, hs⟩)))
  | read size =>
    simp only [step] at hs
    split_ifs at hs
    exact .inr (.inr (.inr (.inr ⟨rfl, _, _, _, (Option.some.inj hs).symm⟩)))
  | drain =>
    simp only [step] at hs
    split_ifs at hs
    exact .inr (.inr (.inr (.inr ⟨rfl, _, _, _, (Option.some.inj hs).symm⟩)))
  | arrive b => exact .inr (.inr (.inr (.inr ⟨rfl, _, _, _, (Option.some.inj hs).symm⟩)))

/-! ### Three runs -/

/-- A port just opened, with nothing in its buffers and FIFOs. -/
def idlePort : Uart :=
  let buf : RingData UInt8 uartBufSize := { buf := fun _ => 0, count := 0, head := 0, tail := 0 }
  opened buf buf 0 []

/-- One call with twenty bytes: sixteen are sent directly, and four are added to `TxData`. -/
def writeTwenty : List UartLabel :=
  .write ((List.range 20).map UInt8.ofNat) :: List.replicate 19 .writer

/-- The transmit FIFO drains, and the handler sends what is in `TxData`. -/
def sendRest : List UartLabel :=
  List.replicate 16 .drain ++ .interrupt :: List.replicate 8 (.handler true) ++
    List.replicate 3 (.handler false)

/-- A byte is received, and the handler fetches it, before the transmit FIFO has drained. -/
def receiveOne : List UartLabel := [.arrive 7, .interrupt] ++ List.replicate 8 (.handler false)

/-- The transmit FIFO drains, and a call writes one byte. -/
def writeOne : List UartLabel :=
  List.replicate 16 .drain ++ .write [20] :: List.replicate 3 .writer

theorem reaches_of_exec (as : List UartLabel) (p : List (Uart × UartLabel) × Uart → Prop)
    [DecidablePred p] (h : (exec step idlePort as).any (fun r => p r) = true) :
    ∃ tr s, Reaches tr s ∧ p (tr, s) := by
  obtain ⟨tr, s, hrun, -, hp⟩ := exists_run_of_exec as p h
  exact ⟨tr, s, ⟨_, _, _, _, hrun⟩, hp⟩

/-! ### Order -/

/-- What the handler has taken out of `TxData` and not yet transmitted. -/
def handlerBytes (s : Uart) : List UInt8 :=
  match s.handler with
  | some (.transmit _ _ todo) => todo
  | _ => []

/-- What the call in progress has neither transmitted nor added to `TxData`. -/
def writerBytes (s : Uart) : List UInt8 :=
  match s.writer with
  | .idle => []
  | .start buf => buf
  | .send _ todo rest => todo ++ rest
  | .enqueue rest => rest

/-- What has been transmitted is a front part of what has been written. -/
def InOrder (s : Uart) : Prop := s.transmitted <+: s.written

instance (s : Uart) : Decidable s.InOrder := inferInstanceAs (Decidable (_ <+: _))

/-- What the step adds to `TxData`. -/
def enqueued (x : Uart × UartLabel) : List UInt8 :=
  match x.2, x.1.writer with
  | .writer, .enqueue rest => rest
  | _, _ => []

/-- The step does not take `TxData` beyond its size. -/
def Fits (x : Uart × UartLabel) : Prop :=
  x.1.txData.count + (enqueued x).length ≤ uartBufSize

instance : DecidablePred Fits := fun _ => inferInstanceAs (Decidable (_ ≤ _))

/-- The buffer of a call that finds the transmit FIFO empty. -/
def direct (x : Uart × UartLabel) : List UInt8 :=
  match x.2, x.1.writer with
  | .writer, .start buf => if x.1.Thold then buf else []
  | _, _ => []

/-- A call with something to send finds the transmit FIFO empty, while `TxData` holds bytes of
earlier calls. -/
def Overtakes (x : Uart × UartLabel) : Prop := direct x ≠ [] ∧ x.1.txData.count ≠ 0

instance : DecidablePred Overtakes := fun _ => inferInstanceAs (Decidable (_ ∧ _))

/-- Every written byte is in one place, and the places are in order.  While the writer sends
directly, nothing is before its bytes. -/
structure Ordered (s : Uart) : Prop where
  written_eq :
    s.written = s.transmitted ++ (s.handlerBytes ++ (s.txData.toList ++ s.writerBytes))
  alone : ∀ sent b todo rest, s.writer = .send sent (b :: todo) rest →
    s.handlerBytes = [] ∧ s.txData.toList = []

theorem Ordered.inOrder (h : s.Ordered) : s.InOrder := ⟨_, h.written_eq.symm⟩

theorem ordered_opened (rxData txData : RingData UInt8 uartBufSize) (fifo : ℕ)
    (rxFifo : List UInt8) : (opened rxData txData fifo rxFifo).Ordered :=
  ⟨rfl, fun _ _ _ _ h => by cases h⟩

/-- What is neither transmitted nor written, nor moves any of the bytes, keeps the order. -/
theorem Ordered.congr (h : s.Ordered) (hw : s'.written = s.written)
    (ht : s'.transmitted = s.transmitted) (hh : s'.handlerBytes = s.handlerBytes)
    (hd : s'.txData = s.txData) (hp : s'.writer = s.writer) : s'.Ordered := by
  have hb : s'.writerBytes = s.writerBytes := by
    unfold writerBytes
    rw [hp]
  constructor
  · rw [hw, ht, hh, hd, hb]
    exact h.written_eq
  · intro sent b todo rest hs
    rw [hh, hd]
    exact h.alone sent b todo rest (hp ▸ hs)

theorem toList_eq_nil_of_count {r : Ns16550Buf} (h : r.count = 0) : r.toList = [] := by
  rw [← List.length_eq_zero_iff, Ring.length_toList, h]

theorem writerBytes_afterSend {rest : List UInt8} (h : s.writer = afterSend rest) :
    s.writerBytes = rest := by
  unfold writerBytes
  rw [h, afterSend]
  split_ifs with hr
  · exact hr.symm
  · rfl

theorem afterSend_ne_send {rest todo rest' : List UInt8} {sent : ℕ} :
    afterSend rest ≠ .send sent todo rest' := by
  unfold afterSend
  split_ifs <;> simp

/-- After the direct part of a call only `rest` is left of its buffer. -/
theorem ordered_afterSend {rest : List UInt8}
    (h : s.written = s.transmitted ++ (s.handlerBytes ++ (s.txData.toList ++ rest))) :
    ({ s with writer := afterSend rest } : Uart).Ordered := by
  constructor
  · rw [writerBytes_afterSend rfl]
    exact h
  · intro sent b todo rest' hsend
    exact absurd hsend afterSend_ne_send

/-- The writer takes its bytes from the front of the buffer, or puts them behind those queued. -/
theorem Ordered.writerStep (h : s.Ordered) (hh : s.handler = none) (hf : Fits (s, .writer))
    (ho : ¬ Overtakes (s, .writer)) (hs : s.writerStep = some s') : s'.Ordered := by
  have hnone : s.handlerBytes = [] := by
    unfold handlerBytes
    rw [hh]
  have hwr := h.written_eq
  unfold Uart.writerStep at hs
  unfold writerBytes at hwr
  split at hs
  case h_1 => cases hs
  case h_2 buf hpc =>
    rw [hpc] at hwr
    by_cases ht : s.Thold
    · rw [if_pos ht] at hs
      obtain rfl := Option.some.inj hs
      constructor
      · show s.written = s.transmitted ++ (s.handlerBytes ++ (s.txData.toList ++ (_ ++ _)))
        rw [List.take_append_drop]
        exact hwr
      · intro sent b todo rest hsend
        -- The buffer is not empty, so `TxData` is.
        have hne : buf ≠ [] := by
          rintro rfl
          simp at hsend
        have hd : direct (s, .writer) = buf := by
          simp only [direct, hpc]
          exact if_pos ht
        have hc : s.txData.count = 0 := by
          by_contra hc
          exact ho ⟨hd ▸ hne, hc⟩
        exact ⟨hnone, toList_eq_nil_of_count hc⟩
    · rw [if_neg ht] at hs
      obtain rfl := Option.some.inj hs
      exact ordered_afterSend hwr
  case h_3 sent b todo rest hpc =>
    obtain ⟨-, htx⟩ := h.alone _ _ _ _ hpc
    rw [hpc, hnone, htx] at hwr
    obtain rfl := Option.some.inj hs
    constructor
    · show s.written = (s.transmitted ++ [b]) ++ (s.handlerBytes ++ (s.txData.toList ++ _))
      rw [hnone, htx, hwr]
      simp [writerBytes]
    · intro _ _ _ _ _
      exact ⟨hnone, htx⟩
  case h_4 sent rest hpc =>
    rw [hpc] at hwr
    obtain rfl := Option.some.inj hs
    have hsent : (s.setInterrupt sent).written = s.transmitted ++ (_ ++ (_ ++ rest)) := hwr
    exact ordered_afterSend hsent
  case h_5 rest hpc =>
    have hroom : s.txData.count + rest.length ≤ uartBufSize := by
      have henq : enqueued (s, .writer) = rest := by simp only [enqueued, hpc]
      rw [← henq]
      exact hf
    rw [hpc] at hwr
    obtain rfl := Option.some.inj hs
    constructor
    · show s.written = s.transmitted ++ (s.handlerBytes ++ ((s.txData.enqueue rest).toList ++ []))
      rw [Ring.toList_enqueue_of_le hroom, List.append_nil]
      exact hwr
    · intro _ _ _ _ hsend
      cases hsend

/-- The handler takes its bytes from the head of `TxData`, and transmits them in order. -/
theorem Ordered.handlerStep (h : s.Ordered) {thre : Bool} (hs : s.handlerStep thre = some s') :
    s'.Ordered := by
  have hwr := h.written_eq
  unfold Uart.handlerStep at hs
  split at hs
  case h_1 => cases hs
  case h_2 count hpc =>
    have hb : s.handlerBytes = [] := by rw [handlerBytes, hpc]
    dsimp only at hs
    split_ifs at hs <;> obtain rfl := Option.some.inj hs <;>
      exact h.congr rfl rfl hb.symm rfl rfl
  case h_3 status buf count hpc =>
    have hb : s.handlerBytes = [] := by rw [handlerBytes, hpc]
    split at hs
    · split_ifs at hs <;> obtain rfl := Option.some.inj hs <;>
        exact h.congr rfl rfl hb.symm rfl rfl
    · obtain rfl := Option.some.inj hs
      exact h.congr rfl rfl hb.symm rfl rfl
  case h_4 status count hpc =>
    have hb : s.handlerBytes = [] := by rw [handlerBytes, hpc]
    split_ifs at hs with hc
    · obtain rfl := Option.some.inj hs
      constructor
      · show s.written = s.transmitted ++ ((s.txData.dequeue fifoSize).1 ++
          ((s.txData.dequeue fifoSize).2.toList ++ s.writerBytes))
        rw [Ring.fst_dequeue, Ring.toList_dequeue, ← List.append_assoc (List.take _ _),
          List.take_append_drop, hwr, hb, List.nil_append]
      · intro sent b todo rest hsend
        -- The writer sends directly, so there is nothing in `TxData`.
        have hnil := (h.alone sent b todo rest hsend).2
        have := s.txData.length_toList
        rw [hnil] at this
        simp [← this] at hc
    · obtain rfl := Option.some.inj hs
      exact h.congr rfl rfl hb.symm rfl rfl
  case h_5 status count b todo hpc =>
    have hb : s.handlerBytes = b :: todo := by rw [handlerBytes, hpc]
    obtain rfl := Option.some.inj hs
    constructor
    · show s.written = (s.transmitted ++ [b]) ++ (todo ++ (s.txData.toList ++ s.writerBytes))
      rw [hwr, hb]
      simp
    · intro sent b' todo' rest hsend
      have := (h.alone sent b' todo' rest hsend).1
      rw [hb] at this
      cases this
  case h_6 status count hpc =>
    have hb : s.handlerBytes = [] := by rw [handlerBytes, hpc]
    obtain rfl := Option.some.inj hs
    exact h.congr rfl rfl hb.symm rfl rfl
  case h_7 status count hpc =>
    have hb : s.handlerBytes = [] := by rw [handlerBytes, hpc]
    obtain rfl := Option.some.inj hs
    refine h.congr rfl rfl ?_ rfl rfl
    rw [hb]
    unfold handlerBytes
    dsimp only
    split_ifs <;> rfl

theorem Ordered.step (h : s.Ordered) (hf : Fits (s, a)) (ho : ¬ Overtakes (s, a))
    (hs : s.step a = some s') : s'.Ordered := by
  obtain ⟨buf, -, -, hw, rfl⟩ | ⟨rfl, hh, hs⟩ | ⟨-, hh, rfl⟩ | ⟨thre, -, hs⟩ |
    ⟨-, fifo, rxFifo, rxData, rfl⟩ := step_cases hs
  · -- the buffer is written behind everything else
    have hwr := h.written_eq
    rw [writerBytes, hw] at hwr
    constructor
    · show s.written ++ buf = _ ++ (s.handlerBytes ++ (s.txData.toList ++ buf))
      rw [hwr]
      simp
    · intro _ _ _ _ hsend
      cases hsend
  · exact h.writerStep hh hf ho hs
  · have hb : s.handlerBytes = [] := by rw [handlerBytes, hh]
    exact h.congr rfl rfl hb.symm rfl rfl
  · exact h.handlerStep hs
  · exact h.congr rfl rfl rfl rfl rfl

/-- **Transmit order**: if no call overtakes bytes that wait in `TxData`, and `TxData` never
overflows, then the bytes transmitted are a front part of the buffers written. -/
theorem inOrder_of_reaches (h : Reaches tr s) (hf : ∀ x ∈ tr, Fits x)
    (ho : ∀ x ∈ tr, ¬ Overtakes x) : s.InOrder := by
  obtain ⟨rxData, txData, fifo, rxFifo, hrun⟩ := h
  have hI := hrun.invariant_of_forall (C := fun x => Fits x ∧ ¬ Overtakes x) (I := Ordered)
    (ordered_opened rxData txData fifo rxFifo)
    (fun s a s' hC hI hs => hI.step hC.1 hC.2 hs) fun x hx => ⟨hf x hx, ho x hx⟩
  exact hI.inOrder

theorem inOrder_twenty_bytes :
    ∃ tr s, Reaches tr s ∧ s.transmitted.length = 20 ∧ s.written.length = 20 ∧ s.InOrder := by
  obtain ⟨tr, s, h, hf, ho, ht, hw⟩ := reaches_of_exec (writeTwenty ++ sendRest)
    (fun r => (∀ x ∈ r.1, Fits x) ∧ (∀ x ∈ r.1, ¬ Overtakes x) ∧
      r.2.transmitted.length = 20 ∧ r.2.written.length = 20) (by decide +kernel)
  exact ⟨tr, s, h, ht, hw, inOrder_of_reaches h hf ho⟩

/-- After the four bytes have been left in `TxData`, the next call sends its byte directly. -/
theorem not_inOrder_of_overtaking :
    ¬ ∀ tr s, Reaches tr s → (∀ x ∈ tr, Fits x) → s.InOrder := by
  intro h
  obtain ⟨tr, s, hr, hf, ho⟩ := reaches_of_exec (writeTwenty ++ receiveOne ++ writeOne)
    (fun r => (∀ x ∈ r.1, Fits x) ∧ ¬ r.2.InOrder) (by decide +kernel)
  exact ho (h tr s hr hf)

/-! ### Progress -/

/-- No `NS16550_write` call is in progress, and the handler is not running. -/
def AtRest (s : Uart) : Prop := s.handler = none ∧ s.writer = .idle

instance (s : Uart) : Decidable s.AtRest := inferInstanceAs (Decidable (_ ∧ _))

/-- At rest, the transmit interrupt is enabled if anything waits in `TxData`. -/
def Live (s : Uart) : Prop := s.AtRest → 0 < s.txData.count → s.TxEnabled

instance (s : Uart) : Decidable s.Live := inferInstanceAs (Decidable (_ → _))

/-- The last action of a call, with bytes left in `TxData` and the transmit interrupt disabled. -/
def writerStalls (s : Uart) : Bool :=
  match s.writer with
  -- nothing to send, and the FIFO is not empty: nothing is changed
  | .start [] => ¬ s.Thold ∧ 0 < s.txData.count ∧ ¬ s.TxEnabled
  -- nothing sent: the interrupt is disabled
  | .send sent [] [] => sent = 0 ∧ 0 < s.txData.count
  -- the rest is added after the handler, or nobody, has disabled the interrupt
  | .enqueue rest => 0 < s.txData.count + rest.length ∧ ¬ s.TxEnabled
  | _ => false

/-- The last action of the handler while no call is in progress, with bytes in `TxData` of which it
has sent none, since the FIFO was not empty. -/
def handlerStalls (s : Uart) : Bool :=
  match s.handler with
  | some (.setInterrupt status count) =>
    s.writer = .idle ∧ status &&& intidNopend ≠ 0 ∧ count = 0 ∧ 0 < s.txData.count
  | _ => false

/-- The step leaves bytes in `TxData` with nobody to send them. -/
def Stalls (x : Uart × UartLabel) : Bool :=
  match x.2 with
  | .writer => x.1.writerStalls
  | .handler _ => x.1.handlerStalls
  | _ => false

/-- A state that is not at rest is live. -/
theorem live_of_not_atRest (h : ¬ s.AtRest) : s.Live := fun hr => absurd hr h

theorem live_iff_of_atRest (h : s.AtRest) : s.Live ↔ (0 < s.txData.count → s.TxEnabled) :=
  ⟨fun hl => hl h, fun hl _ => hl⟩

theorem live_writerStep (hh : s.handler = none) (hs : s.writerStep = some s') :
    s'.Live ↔ ¬ s.writerStalls := by
  unfold writerStep at hs
  unfold writerStalls
  split at hs
  case h_1 => cases hs
  case h_2 buf hpc =>
    by_cases ht : s.Thold
    · rw [if_pos ht] at hs
      obtain rfl := Option.some.inj hs
      refine iff_of_true (live_of_not_atRest fun hr => by cases hr.2) ?_
      cases buf <;> simp [hpc, ht]
    · rw [if_neg ht] at hs
      obtain rfl := Option.some.inj hs
      cases buf with
      | nil =>
        refine (live_iff_of_atRest (by exact ⟨hh, rfl⟩)).trans ?_
        simp [hpc, ht, TxEnabled]
      | cons b buf =>
        refine iff_of_true (live_of_not_atRest fun hr => by cases hr.2) ?_
        simp [hpc]
  case h_3 sent b todo rest hpc =>
    obtain rfl := Option.some.inj hs
    refine iff_of_true (live_of_not_atRest fun hr => by cases hr.2) ?_
    simp [hpc]
  case h_4 sent rest hpc =>
    obtain rfl := Option.some.inj hs
    cases rest with
    | nil =>
      refine (live_iff_of_atRest (by exact ⟨hh, rfl⟩)).trans ?_
      show (0 < s.txData.count → (s.setInterrupt sent).TxEnabled) ↔ _
      rw [txEnabled_setInterrupt]
      simp only [hpc, decide_eq_true_eq]
      omega
    | cons b rest =>
      refine iff_of_true (live_of_not_atRest fun hr => by cases hr.2) ?_
      simp [hpc]
  case h_5 rest hpc =>
    obtain rfl := Option.some.inj hs
    refine (live_iff_of_atRest (by exact ⟨hh, rfl⟩)).trans ?_
    show (0 < (s.txData.enqueue rest).count → s.TxEnabled) ↔ _
    have hpos : 0 < (s.txData.enqueue rest).count ↔ 0 < s.txData.count + rest.length := by
      rw [Ring.count_enqueue, lt_min_iff, and_iff_left (by decide)]
    rw [hpos]
    simp [hpc]

/-- The handler leaves only after the write of `INTERRUPT_ENABLE`. -/
theorem handler_ne_none_of_handlerStep {thre : Bool} (hs : s.handlerStep thre = some s')
    (h : ∀ status count, s.handler ≠ some (.setInterrupt status count)) : s'.handler ≠ none := by
  unfold handlerStep at hs
  split at hs
  case h_1 => cases hs
  case h_7 status count hpc => exact absurd hpc (h status count)
  case h_2 =>
    dsimp only at hs
    split_ifs at hs <;> obtain rfl := Option.some.inj hs <;> simp
  case h_3 =>
    split at hs
    · split_ifs at hs <;> obtain rfl := Option.some.inj hs <;> simp
    · obtain rfl := Option.some.inj hs
      simp
  case h_4 =>
    split_ifs at hs <;> obtain rfl := Option.some.inj hs <;> simp
  case h_5 =>
    obtain rfl := Option.some.inj hs
    simp
  case h_6 =>
    obtain rfl := Option.some.inj hs
    simp

theorem live_handlerStep {thre : Bool} (hs : s.handlerStep thre = some s') :
    s'.Live ↔ ¬ s.handlerStalls := by
  by_cases h : ∃ status count, s.handler = some (.setInterrupt status count)
  · obtain ⟨status, count, hpc⟩ := h
    rw [handlerStep, hpc] at hs
    obtain rfl := Option.some.inj hs
    unfold handlerStalls
    by_cases hn : status &&& intidNopend = 0
    · refine iff_of_true (live_of_not_atRest fun hr => ?_) (by simp [hpc, hn])
      have := hr.1
      simp [hn] at this
    by_cases hw : s.writer = .idle
    · refine (live_iff_of_atRest (by exact ⟨if_neg hn, hw⟩)).trans ?_
      show (0 < s.txData.count → (s.setInterrupt count).TxEnabled) ↔ _
      rw [txEnabled_setInterrupt]
      simp only [hpc, hw, ne_eq, hn, not_false_eq_true, true_and, decide_eq_true_eq]
      omega
    · exact iff_of_true (live_of_not_atRest fun hr => hw hr.2) (by simp [hpc, hw])
  · simp only [not_exists] at h
    refine iff_of_true (live_of_not_atRest fun hr =>
      handler_ne_none_of_handlerStep hs h hr.1) ?_
    unfold handlerStalls
    split
    · exact absurd ‹_› (h _ _)
    · simp

/-- A step from a live state leads to a live state, unless it stalls. -/
theorem live_step (h : s.Live) (hs : s.step a = some s') : s'.Live ↔ ¬ Stalls (s, a) := by
  obtain ⟨buf, rfl, -, -, rfl⟩ | ⟨rfl, hh, hs⟩ | ⟨rfl, -, rfl⟩ | ⟨thre, rfl, hs⟩ |
    ⟨hq, fifo, rxFifo, rxData, rfl⟩ := step_cases hs
  · exact iff_of_true (live_of_not_atRest fun hr => by cases hr.2) Bool.false_ne_true
  · exact live_writerStep hh hs
  · exact iff_of_true (live_of_not_atRest fun hr => by cases hr.1) Bool.false_ne_true
  · exact live_handlerStep hs
  · have hstalls : Stalls (s, a) = false := by
      cases a <;> first | rfl | cases hq
    exact iff_of_true h (by rw [hstalls]; exact Bool.false_ne_true)

/-- **Progress**: in all states of a run that are at rest, bytes in `TxData` have the transmit
interrupt enabled, if and only if no step of the run stalls. -/
theorem live_iff (h : Reaches tr s) :
    ((∀ x ∈ tr, x.1.Live) ∧ s.Live) ↔ ∀ x ∈ tr, ¬ Stalls x := by
  obtain ⟨rxData, txData, fifo, rxFifo, hrun⟩ := h
  exact hrun.forall_iff (C := fun x => ¬ Stalls x) (I := Live)
    (fun _ hc => absurd hc (Nat.lt_irrefl 0)) fun _ _ _ _ _ => live_step

theorem live_twenty_bytes :
    ∃ tr s, Reaches tr s ∧ s.transmitted.length = 20 ∧ (∀ x ∈ tr, x.1.Live) ∧ s.Live := by
  obtain ⟨tr, s, h, hs, ht⟩ := reaches_of_exec (writeTwenty ++ sendRest)
    (fun r => (∀ x ∈ r.1, ¬ Stalls x) ∧ r.2.transmitted.length = 20) (by decide +kernel)
  exact ⟨tr, s, h, ht, (live_iff h).mpr hs⟩

/-- The handler runs for a received byte, and leaves four bytes in `TxData`. -/
theorem not_live_of_received_byte : ¬ ∀ tr s, Reaches tr s → s.Live := by
  intro h
  obtain ⟨tr, s, hr, hl⟩ := reaches_of_exec (writeTwenty ++ receiveOne)
    (fun r => ¬ r.2.Live) (by decide +kernel)
  exact hl (h tr s hr)

end SortingLine.Uart
