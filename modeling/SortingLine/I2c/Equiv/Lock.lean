import SortingLine.I2c.Equiv.Ads1015

/-!
# The lock of the I2C bus

A transaction takes the mutex in `send_start` and releases it in `send_stop`.  A primitive that
meets a fault in a transfer stops the transaction itself, and then `ADS1015_reg_access` stops it
once more; in between it may go on writing registers.  So the mutex is released once, after all
writes, exactly if the bus was busy from the start or all transfers went well (`disciplined_iff`),
and threads whose transactions are all like this do not get into each other's way
(`lock_discipline`).
-/

namespace SortingLine.I2c

open Mutex Ads1015

/-! ### The log of the primitives -/

/-- Operations that only write registers, and do not stop the transaction. -/
def Plain (es : List (Op Write)) : Prop := ∃ ws : List Write, es = ws.map .act ∧ .cmd cmdStop ∉ ws

/-- What a primitive adds to the log: if `ok` it only writes registers, else it has released the
mutex. -/
def Logs (b b' : Bus) (ok : Prop) : Prop :=
  ∃ es, b'.log = b.log ++ es ∧ (ok → Plain es) ∧ (¬ ok → 0 < es.count .release)

theorem Logs.congr {b b' : Bus} {p q : Prop} (h : Logs b b' p) (hpq : q ↔ p) : Logs b b' q := by
  rwa [Logs, hpq]

theorem Logs.refl (b : Bus) : Logs b b True :=
  ⟨[], (List.append_nil _).symm, fun _ => ⟨[], rfl, List.not_mem_nil⟩, fun h => absurd trivial h⟩

/-- One primitive after another. -/
theorem Logs.trans {b b' b'' : Bus} {p q : Prop} (h : Logs b b' p) (h' : Logs b' b'' q) :
    Logs b b'' (p ∧ q) := by
  obtain ⟨es, hlog, hok, hrel⟩ := h
  obtain ⟨es', hlog', hok', hrel'⟩ := h'
  refine ⟨es ++ es', by rw [hlog', hlog, List.append_assoc], fun h => ?_, fun h => ?_⟩
  · obtain ⟨ws, rfl, hws⟩ := hok h.1
    obtain ⟨ws', rfl, hws'⟩ := hok' h.2
    exact ⟨ws ++ ws', by rw [List.map_append], by simp [hws, hws']⟩
  · rw [List.count_append]
    rcases not_and_or.mp h with h | h
    · exact Nat.add_pos_left (hrel h) _
    · exact Nat.add_pos_right _ (hrel' h)

/-- A byte transfer that goes well. -/
theorem logs_transfer (b : Bus) (r : Response) {ws : List Write} (h : .cmd cmdStop ∉ ws) :
    Logs b (b.transfer r ws) True :=
  ⟨ws.map .act, rfl, fun _ => ⟨ws, rfl, h⟩, fun h => absurd trivial h⟩

/-- A fault in a byte transfer. -/
theorem logs_stop (b : Bus) (r : Response) (ws : List Write) :
    Logs b (b.transfer r ws).sendStop False := by
  refine ⟨ws.map .act ++ [.act (.cmd cmdStop), .release], ?_, False.elim, fun _ => ?_⟩
  · simp [Bus.sendStop, Bus.write, Bus.op, Bus.transfer]
  · rw [List.count_append]
    exact Nat.add_pos_right _ (by decide)

variable (hw : Hw) (b : Bus)

theorem sendAddr_logs (addr : UInt8) (rw : Bool) :
    Logs b (b.sendAddr hw addr rw).2 (hw.xfer b.xfers).Acked := by
  have hws : .cmd cmdStop ∉ Bus.addrWrites addr rw := by
    simp only [Bus.addrWrites, List.mem_cons, reduceCtorEq, Write.cmd.injEq, List.not_mem_nil,
      or_false, false_or]
    decide
  rw [Bus.sendAddr_eq]
  cases hw.xfer b.xfers with
  | ack rx => exact logs_transfer b _ hws
  | nack rx => exact logs_stop b _ _
  | timeout => exact logs_stop b _ _

theorem forall_lt_two {p : Nat → Prop} : (∀ i < 2, p i) ↔ p 0 ∧ p 1 := by
  rw [Nat.forall_lt_succ_left, Nat.forall_lt_succ_left]
  exact and_congr_right fun _ => and_iff_left fun i hi => absurd hi (Nat.not_lt_zero i)

theorem forall_lt_three {p : Nat → Prop} : (∀ i < 3, p i) ↔ p 0 ∧ p 1 ∧ p 2 := by
  rw [Nat.forall_lt_succ_left, forall_lt_two]

theorem forall_lt_four {p : Nat → Prop} : (∀ i < 4, p i) ↔ p 0 ∧ p 1 ∧ p 2 ∧ p 3 := by
  rw [Nat.forall_lt_succ_left, forall_lt_three]

theorem writeBytes_logs (p : Nat) (cs : List UInt8) : Logs b (Bus.writeBytes hw p cs b).2
    (∀ i < cs.length, (hw.xfer (b.xfers + i)).Acked) := by
  induction cs generalizing p b with
  | nil => exact (Logs.refl b).congr (by simp)
  | cons c cs ih =>
    have hws : .cmd cmdStop ∉ Bus.dataWrites c := by simp [Bus.dataWrites, cmdStop, cmdWrite]
    rw [Bus.writeBytes_cons, List.length_cons, Nat.forall_lt_succ_left, Nat.add_zero]
    cases h : hw.xfer b.xfers with
    | ack rx =>
      refine ((logs_transfer b (.ack rx) hws).trans (ih _ (p + 1))).congr ?_
      simp [Response.Acked, Nat.add_assoc, Nat.add_comm 1]
    | nack rx => exact (logs_stop b _ _).congr (by simp [Response.Acked])
    | timeout => exact (logs_stop b _ _).congr (by simp [Response.Acked])

theorem readBytes_logs (buf : List UInt8) (len : Nat) :
    Logs b (Bus.readBytes hw buf len b).2.2
      (∀ i < len, (hw.xfer (b.xfers + i)).received ≠ none) := by
  induction len generalizing buf b with
  | zero => exact (Logs.refl b).congr (by simp)
  | succ len ih =>
    have hws : .cmd cmdStop ∉ Bus.readWrites len := by
      unfold Bus.readWrites
      split_ifs <;> decide
    rw [Bus.readBytes_succ, Nat.forall_lt_succ_left, Nat.add_zero]
    cases h : hw.xfer b.xfers with
    | timeout => exact (logs_stop b _ _).congr (by simp [Response.received])
    | ack rx =>
      refine ((logs_transfer b (.ack rx) hws).trans (ih _ (buf ++ [rx]))).congr ?_
      simp [Response.received, Nat.add_assoc, Nat.add_comm 1]
    | nack rx =>
      refine ((logs_transfer b (.nack rx) hws).trans (ih _ (buf ++ [rx]))).congr ?_
      simp [Response.received, Nat.add_assoc, Nat.add_comm 1]

/-! ### The log of a call -/

/-- A call of `ADS1015_reg_access` with a valid register number, and the answers it meets. -/
structure Call where
  hw : Hw
  regNum : UInt8
  regVal : UInt16
  rw : Bool
  valid : regNum < registerCount

/-- What a call does to the mutex and to the registers. -/
def Call.ops (c : Call) : List (Op Write) :=
  (regAccess c.hw c.regNum c.regVal c.rw .unused).2.2.log

/-- The mutex is taken once, then registers are written, with at most one `STOP` among the writes,
and then the mutex is released once. -/
def Disciplined (es : List (Op Write)) : Prop :=
  ∃ ws : List Write, es = .take :: (ws.map .act ++ [.release]) ∧ ws.count (.cmd cmdStop) ≤ 1

/-- The transfers of a call all go well: the address, the register, and two bytes of data. -/
def Call.Flawless (c : Call) : Prop :=
  if c.rw then
    (∀ i < 3, (c.hw.xfer i).Acked) ∧ ∀ i < 2, (c.hw.xfer (3 + i)).received ≠ none
  else ∀ i < 4, (c.hw.xfer i).Acked

instance : DecidablePred Call.Flawless := fun c =>
  inferInstanceAs (Decidable (if c.rw = true then _ ∧ _ else ∀ i < 4, (c.hw.xfer i).Acked))

theorem Disciplined.bracketed {es : List (Op Write)} (h : Disciplined es) : Bracketed es := by
  obtain ⟨ws, hes, -⟩ := h
  exact ⟨ws, hes⟩

theorem Disciplined.count_release {es : List (Op Write)} (h : Disciplined es) :
    es.count .release = 1 := by
  obtain ⟨ws, rfl, -⟩ := h
  have hzero : (ws.map Op.act).count .release = 0 := List.count_eq_zero.mpr (by simp)
  simp [List.count_append, hzero]

theorem selected_logs (regNum : UInt8) : Logs (started b) (selected hw b regNum)
    ((hw.xfer b.xfers).Acked ∧ (hw.xfer (b.xfers + 1)).Acked) := by
  have haddr := sendAddr_logs hw (started b) address false
  have hx := (Bus.sendAddr_result hw (started b) address false).2.2
  refine (haddr.trans (writeBytes_logs hw _ 0 [regNum])).congr ?_
  rw [hx]
  simp [started, Bus.setBaudrate, Bus.write, Bus.op]

/-- What a transaction adds to the log before `lbl_done`, once the bus is free: plain writes exactly
if all transfers go well. -/
theorem regTransfer_logs (regNum : UInt8) (regVal : UInt16) (rw : Bool)
    (h : hw.busy b.starts = false) :
    Logs (started b) (regTransfer hw regNum regVal rw b).2.2
      (if rw then (∀ i < 3, (hw.xfer (b.xfers + i)).Acked) ∧
        ∀ i < 2, (hw.xfer (b.xfers + 3 + i)).received ≠ none
      else ∀ i < 4, (hw.xfer (b.xfers + i)).Acked) := by
  have hselected := selected_logs hw b regNum
  have hxfers := selected_xfers hw b regNum
  simp only [regTransfer_eq, h, Bool.false_eq_true, if_false]
  by_cases hack : (hw.xfer b.xfers).Acked
  · rw [if_neg (not_not.mpr hack)]
    cases rw with
    | false =>
      refine (hselected.trans (writeBytes_logs hw _ 0 _)).congr ?_
      rw [hxfers]
      show (∀ i < 4, _) ↔ _ ∧ ∀ i < 2, _
      rw [forall_lt_four, forall_lt_two, and_assoc]
      exact Iff.rfl
    | true =>
      have haddr := hselected.trans (sendAddr_logs hw _ address true)
      have hres := Bus.sendAddr_result hw (selected hw b regNum) address true
      rw [hxfers] at haddr hres
      simp only [if_true]
      by_cases hack' : (hw.xfer (b.xfers + 2)).Acked
      · rw [if_neg (not_not.mpr (hres.1.trans (Bus.addrResult_eq_zero.mpr hack')))]
        refine (haddr.trans (readBytes_logs hw _ [] 2)).congr ?_
        rw [hres.2.2, forall_lt_three, ← and_assoc]
        exact Iff.rfl
      · have hne : (Bus.sendAddr hw (selected hw b regNum) address true).1 ≠ 0 := by
          rw [hres.1]
          exact Bus.addrResult_eq_zero.not.mpr hack'
        rw [if_pos hne]
        exact haddr.congr (iff_of_false (fun h => hack' (h.1 2 (by omega))) fun h => hack' h.2)
  · rw [if_pos hack]
    refine (sendAddr_logs hw (started b) address false).congr ?_
    have hx : (started b).xfers = b.xfers := rfl
    rw [hx]
    split_ifs
    · exact iff_of_false (fun h => hack (h.1 0 (by omega))) hack
    · exact iff_of_false (fun h => hack (h 0 (by omega))) hack

/-- The mutex is taken and a few registers are written before the first transfer. -/
theorem started_log :
    ∃ ws : List Write, (started .unused).log = .take :: ws.map .act ∧ .cmd cmdStop ∉ ws :=
  ⟨[.cmd cmdStart, .ctrl, .prerlo, .prerhi, .cmd 0, .ctrl], rfl, by decide⟩

/-- **The lock trace of a call**: the mutex is taken and released once, around all register writes,
exactly if the bus is busy at the start, or all transfers go well. -/
theorem disciplined_iff (c : Call) :
    Disciplined c.ops ↔ c.hw.busy 0 = true ∨ c.Flawless := by
  have hreg : ¬ c.regNum ≥ registerCount := UInt8.not_le.mpr c.valid
  have hops : c.ops = (regTransfer c.hw c.regNum c.regVal c.rw .unused).2.2.sendStop.log := by
    simp only [Call.ops, regAccess, if_neg hreg]
  cases hbusy : c.hw.busy 0 with
  | true =>
    -- only the mutex is taken before `lbl_done`
    have hbusy' : c.hw.busy Bus.unused.starts = true := hbusy
    refine iff_of_true ⟨[.cmd cmdStop], ?_, by decide⟩ (.inl rfl)
    rw [hops, regTransfer_eq, if_pos hbusy']
    rfl
  | false =>
    obtain ⟨es, hlog, hok, hrel⟩ := regTransfer_logs c.hw .unused c.regNum c.regVal c.rw hbusy
    obtain ⟨ws, hws, hstop⟩ := started_log
    have hes : c.ops = .take :: (ws.map .act ++ es ++ [.act (.cmd cmdStop), .release]) := by
      rw [hops]
      simp [Bus.sendStop, Bus.op, Bus.write, hlog, hws]
    have hzero : Bus.unused.xfers = 0 := rfl
    simp only [hzero, Nat.zero_add] at hok hrel
    constructor
    · intro h
      -- else a primitive has released the mutex before `lbl_done` does
      have hone := h.count_release
      have hlast : [Op.act (Write.cmd cmdStop), .release].count .release = 1 := by decide
      rw [hes, List.count_cons, List.count_append, List.count_append, hlast] at hone
      refine .inr (by_contra fun hc => ?_)
      have hearly := hrel hc
      omega
    · rintro (h | h)
      · cases h
      · obtain ⟨ws', rfl, hstop'⟩ := hok h
        refine ⟨ws ++ ws' ++ [.cmd cmdStop], by rw [hes]; simp, ?_⟩
        rw [List.count_append, List.count_append, List.count_eq_zero.mpr hstop,
          List.count_eq_zero.mpr hstop']
        decide

/-! ### Threads that call it -/

/-- **The lock discipline of the bus**, for threads that make any calls: each call takes the mutex
once and releases it once, around all its register writes, with at most one `STOP`, and in no run a
register write of a call is between two writes of a call of another thread; exactly if for each call
the bus is busy at its start, or none of its transfers fails. -/
theorem lock_discipline {ι : Type} [DecidableEq ι] (program : ι → List Call) :
    ((∀ t, ∀ c ∈ program t, Disciplined c.ops) ∧ ∀ tr s,
      Run Mutex.step (Mutex.start fun t => (program t).map Call.ops) tr s → NotInterleaved tr) ↔
    ∀ t, ∀ c ∈ program t, c.hw.busy 0 = true ∨ c.Flawless := by
  constructor
  · exact fun h t c hc => (disciplined_iff c).mp (h.1 t c hc)
  · intro h
    have hdisciplined (t : ι) (c : Call) (hc : c ∈ program t) : Disciplined c.ops :=
      (disciplined_iff c).mpr (h t c hc)
    refine ⟨hdisciplined, fun tr s hr => notInterleaved_of_bracketed (fun t ops hops => ?_) hr⟩
    obtain ⟨c, hc, rfl⟩ := List.mem_map.mp hops
    exact (hdisciplined t c hc).bracketed

/-- A configuration write during which transfer `n` ends with `r`. -/
def configCall (n : Nat) (r : Response) : Call where
  hw := hwWith n r
  regNum := pointerConfig
  regVal := 0
  rw := false
  valid := by decide

/-- A thread writes the configuration register, with all transfers going well; another meets a busy
bus first, and then writes it too. -/
def twoCalls : Bool → List Call
  | false => [configCall 9 .timeout]
  | true => [{ configCall 9 .timeout with hw := { hwWith 9 .timeout with busy := fun _ => true } },
      configCall 9 .timeout]

theorem lock_discipline_two_threads :
    (∀ t, ∀ c ∈ twoCalls t, Disciplined c.ops) ∧
    ∃ tr s, Run Mutex.step (Mutex.start fun t => (twoCalls t).map Call.ops) tr s ∧
      tr.length = 24 ∧ NotInterleaved tr := by
  obtain ⟨hdisciplined, hruns⟩ := (lock_discipline twoCalls).mpr (by decide)
  obtain ⟨tr, s, hr, -, hlen⟩ : ∃ tr s, Run Mutex.step
      (Mutex.start fun t => (twoCalls t).map Call.ops) tr s ∧ _ ∧ tr.length = 24 :=
    exists_run_of_exec (List.replicate 4 true ++ List.replicate 17 false ++ List.replicate 3 true)
    (fun r => r.1.length = 24) (by decide)
  exact ⟨hdisciplined, tr, s, hr, hlen, hruns tr s hr⟩

/-- The register byte of a configuration write is not acknowledged: `write_bytes` releases the
mutex, and the data bytes are written after that, with a second `STOP` and a second release at the
end. -/
theorem lock_released_early :
    ¬ Disciplined (configCall 0 (.nack 0)).ops ∧ ¬ Disciplined (configCall 1 (.nack 0)).ops ∧
    ∃ tr s, Run Mutex.step (Mutex.start fun _ : Bool => [(configCall 1 (.nack 0)).ops]) tr s ∧
      ¬ NotInterleaved tr := by
  refine ⟨(disciplined_iff _).not.mpr (by decide), (disciplined_iff _).not.mpr (by decide), ?_⟩
  obtain ⟨tr, s, hr, -, h⟩ : ∃ tr s, Run Mutex.step
      (Mutex.start fun _ : Bool => [(configCall 1 (.nack 0)).ops]) tr s ∧ _ ∧
      interleavedAt tr 1 14 15 := exists_run_of_exec
    (List.replicate 13 false ++ [true, true, false])
    (fun r => interleavedAt r.1 1 14 15) (by decide)
  exact ⟨tr, s, hr, not_notInterleaved_of_interleavedAt h⟩

end SortingLine.I2c
