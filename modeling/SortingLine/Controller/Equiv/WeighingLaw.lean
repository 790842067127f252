import SortingLine.Controller.Equiv.Batch
import SortingLine.Controller.Equiv.Reports
import Mathlib.Algebra.Group.Nat.Defs

/-!
# The weighing law

What a run does to the totals, the verdicts, the ids and the output pin, as functions of the items
weighed in it.  `verdicts` reads the verdicts off the steps: an item is good if what was measured is
more than the threshold in force when it was measured.

* The totals count the items and the good ones since they were restored (`totals_of_reaches`).
* Every item writes its verdict to `PULSE_OUT`, and 0 after the delay (`pulses_of_reaches`).
* The ids of the records count the items from power-on modulo 1000 (`ids_of_reaches`).
-/

namespace SortingLine.Sys

variable {s s' : Sys} {a : Label} {tempAdc : UInt16} {disk : Disk} {tr tr' : List (Sys × Label)}

/-! ### What is seen of a run -/

/-- The verdict on the item that a step weighs, if it weighs one: whether the voltage that
`set_v_measure` stored is more than the threshold at that moment. -/
def verdict (x : Sys × Label) : List UInt32 :=
  match x.2 with
  | .mainRead adc =>
    if x.1.main.pc = .readWeigh then
      [if (x.1.main.readWeigh adc).1.res.vMeasure > x.1.main.res.vThreshold then 1 else 0]
    else []
  | _ => []

/-- The verdicts on the items weighed in a run, in order. -/
def verdicts (tr : List (Sys × Label)) : List UInt32 := tr.flatMap verdict

/-- The values among the effects that `main` writes to `PULSE_OUT`. -/
def pulses (es : List Effect) : List UInt32 :=
  es.filterMap fun e => match e with | .pulse v => some v | _ => none

/-- The values written to `PULSE_OUT`, in order: the first is written before the loop. -/
def pulseWrites (tr : List (Sys × Label)) : List UInt32 :=
  0 :: tr.flatMap fun x => pulses (effects x)

/-- The step takes a "restore" message with these totals. -/
def Restores (total qualifiedAmount : UInt32) (x : Sys × Label) : Prop :=
  isMainRecv x.2 = true ∧ ∃ year mon,
    x.1.mainMq.items.head? = some (.restore total qualifiedAmount year mon)

/-- The step takes a code-1 message with `ctrl_flow` set: `main` will weigh the item. -/
def Accepts (x : Sys × Label) : Prop :=
  isMainRecv x.2 = true ∧ x.1.mainMq.items.head? = some .weigh ∧ x.1.main.ctrlFlow = 1

instance : DecidablePred Accepts := fun _ => inferInstanceAs (Decidable (_ ∧ _ ∧ _))

theorem verdicts_concat (x : Sys × Label) : verdicts (tr ++ [x]) = verdicts tr ++ verdict x := by
  simp [verdicts]

theorem pulseWrites_concat (x : Sys × Label) :
    pulseWrites (tr ++ [x]) = pulseWrites tr ++ pulses (effects x) := by
  simp [pulseWrites]

/-- The verdict is the value of `qualified` that `set_qualified` computes. -/
theorem verdict_of_weighs {adc : Option UInt16} (hpc : s.main.pc = .readWeigh) :
    verdict (s, .mainRead adc) = [(s.main.readWeigh adc).1.res.qualified] := by
  simp only [verdict, if_pos hpc]
  rfl

theorem verdict_of_not_weighs (h : ¬ Weighs (s, a)) : verdict (s, a) = [] := by
  cases a <;> simp_all [verdict, Weighs]

theorem mem_verdict {x : Sys × Label} {q : UInt32} (h : q ∈ verdict x) : q = 0 ∨ q = 1 := by
  unfold verdict at h
  split at h
  · split_ifs at h
    · exact .inr (List.mem_singleton.mp h)
    · exact .inl (List.mem_singleton.mp h)
    · cases h
  · cases h

/-! ### Totals -/

/-- Only a "restore" message and a weighing change the totals. -/
theorem recv_totals (m : Main) {msg : MainMsg (NbRecord × Nat)} (after : UInt32)
    (h : ∀ total qualifiedAmount year mon, msg ≠ .restore total qualifiedAmount year mon) :
    (m.recv msg after).1.info.total = m.info.total ∧
    (m.recv msg after).1.info.qualifiedAmount = m.info.qualifiedAmount := by
  cases msg with
  | restore total qualifiedAmount year mon => exact absurd rfl (h _ _ _ _)
  | weigh | grabbed => simp only [Main.recv]; split_ifs <;> exact ⟨rfl, rfl⟩
  | _ => exact ⟨rfl, rfl⟩

/-- **What a step does to the totals**: it counts the item it weighs, if it weighs one. -/
theorem step_totals (h : s.step a = some s') (hr : ∀ total qa, ¬ Restores total qa (s, a)) :
    (verdict (s, a) = [] ∧ s'.main.info.total = s.main.info.total ∧
      s'.main.info.qualifiedAmount = s.main.info.qualifiedAmount) ∨
    ∃ q, verdict (s, a) = [q] ∧ s'.main.info.total = s.main.info.total + 1 ∧
      s'.main.info.qualifiedAmount = s.main.info.qualifiedAmount + q := by
  rcases step_records h with ⟨m, after, rfl, hq, -, hm⟩ | ⟨adc, rfl, hpc, -, -, hm⟩ | hq
  · have hne : ∀ total qa year mon, m ≠ .restore total qa year mon := by
      rintro total qa year mon rfl
      exact hr total qa ⟨rfl, year, mon, by rw [hq]; rfl⟩
    rw [hm]
    exact .inl ⟨rfl, recv_totals s.main after hne⟩
  · rw [hm]
    exact .inr ⟨_, verdict_of_weighs hpc, rfl, rfl⟩
  · exact .inl ⟨verdict_of_not_weighs hq.not_weighs, by rw [hq.info], by rw [hq.info]⟩

/-- **The totals count the items weighed**, as long as none are restored and the count does not
wrap. -/
theorem totals_of_run (h : Run step s tr s') (hr : ∀ x ∈ tr, ∀ total qa, ¬ Restores total qa x)
    (hle : s.main.info.qualifiedAmount ≤ s.main.info.total)
    (hlt : s.main.info.total.toNat + (verdicts tr).length < 2 ^ 32) :
    s'.main.info.total.toNat = s.main.info.total.toNat + (verdicts tr).length ∧
    s'.main.info.qualifiedAmount.toNat
      = s.main.info.qualifiedAmount.toNat + (verdicts tr).count 1 := by
  induction h with
  | start => exact ⟨rfl, rfl⟩
  | @next tr s₁ s₂ a _ ha ih =>
    have hlen : (verdicts (tr ++ [(s₁, a)])).length
        = (verdicts tr).length + (verdict (s₁, a)).length := by
      rw [verdicts_concat, List.length_append]
    obtain ⟨ht, hq⟩ := ih (fun x hx => hr x (by simp [hx])) (by omega)
    have hcount := List.count_le_length (a := (1 : UInt32)) (l := verdicts tr)
    rw [UInt32.le_iff_toNat_le] at hle
    rcases step_totals ha (hr _ (by simp)) with ⟨hv, ht', hq'⟩ | ⟨q, hv, ht', hq'⟩
    · rw [ht', hq', verdicts_concat, hv, List.append_nil]
      exact ⟨ht, hq⟩
    · rw [hv, List.length_singleton] at hlen
      have hq01 : q = 0 ∨ q = 1 := mem_verdict (by rw [hv]; exact List.mem_singleton_self q)
      rw [ht', hq', verdicts_concat, hv, List.count_append]
      refine ⟨?_, ?_⟩
      · rw [UInt32.toNat_add, ht, List.length_append, List.length_singleton]
        exact Nat.mod_eq_of_lt (by show _ + 1 < 2 ^ 32; omega)
      · rcases hq01 with rfl | rfl
        · rw [UInt32.add_zero, hq]
          rfl
        · rw [UInt32.toNat_add, hq]
          exact Nat.mod_eq_of_lt (by show _ + 1 < 2 ^ 32; omega)

/-! ### The output pin -/

@[simp]
theorem commit_pulseOut (s : Sys) (r : Main × List Effect) :
    (s.commit r).pulseOut = (pulses r.2).foldl (fun _ v => v) s.pulseOut := by
  have h (es : List Effect) (s : Sys) :
      (es.foldl effect s).pulseOut = (pulses es).foldl (fun _ v => v) s.pulseOut := by
    induction es generalizing s with
    | nil => rfl
    | cons e es ih => rw [List.foldl_cons, ih]; cases e <;> rfl
  exact h r.2 _

/-- What is still to be written to `PULSE_OUT` for the item that was weighed last. -/
def pending (s : Sys) : List UInt32 := if s.main.pc = .delay then [0] else []

theorem pulses_recv {τ : Type} (m : Main) (msg : MainMsg τ) (after : UInt32) :
    pulses (m.recv msg after).2 = [] := by
  cases msg <;> simp only [Main.recv] <;> try split_ifs
  all_goals rfl

/-- Only `main` writes to `PULSE_OUT`. -/
theorem step_pulseOut_frame (h : s.step a = some s') (ha : mover a ≠ .main) :
    s'.pulseOut = s.pulseOut := by
  replace h := step_spec h
  cases a with
  | edge p => cases p <;> (obtain ⟨-, rfl⟩ := h; rfl)
  | onclick => obtain rfl := h; rfl
  | touchLoad => obtain rfl := h; rfl
  | touchStore => obtain ⟨_, -, rfl⟩ := h; rfl
  | flushRecv => obtain ⟨_, _, -, -, rfl⟩ := h; rfl
  | flushDraw => obtain ⟨_, -, rfl⟩ := h; rfl
  | fileStart => obtain ⟨-, ⟨-, rfl⟩ | ⟨-, -, rfl⟩ | ⟨-, -, rfl⟩⟩ := h <;> rfl
  | fileBlank => obtain ⟨-, rfl⟩ := h; rfl
  | fileRead => obtain ⟨-, rfl⟩ := h; rfl
  | fileReport => obtain ⟨_, -, rfl⟩ := h; rfl
  | fileRecv => obtain ⟨_, _, -, -, rfl⟩ := h; rfl
  | fileWrite => obtain ⟨_, -, rfl⟩ := h; rfl
  | nbStart => obtain ⟨-, rfl⟩ := h; rfl
  | nbCsq => obtain ⟨-, ⟨_, _, -, rfl⟩ | ⟨-, rfl⟩⟩ := h <;> rfl
  | nbTime => obtain ⟨-, ⟨_, -, rfl⟩ | ⟨-, rfl⟩⟩ := h <;> rfl
  | nbRecv => obtain ⟨_, _, -, -, rfl⟩ := h; rfl
  | nbDone => obtain ⟨_, -, ⟨-, rfl⟩ | ⟨-, rfl⟩⟩ := h <;> rfl
  | _ => exact absurd rfl ha

/-- **What a step does to `PULSE_OUT`**: a weighing writes its verdict, and the end of the delay
writes 0. -/
theorem step_pulses (h : s.step a = some s') :
    s'.pulseOut = (pulses (effects (s, a))).foldl (fun _ v => v) s.pulseOut ∧
    pulses (effects (s, a)) ++ pending s'
      = pending s ++ (verdict (s, a)).flatMap fun q => [q, 0] := by
  by_cases ha : mover a = .main
  · unfold pending
    cases a with
    | mainRecv after =>
      obtain ⟨m, q, hpc, hq, rfl⟩ := step_spec h
      have he : effects (s, .mainRecv after) = (s.main.recv m after).2 := by simp [effects, hq]
      have hpc' : (s.main.recv m after).1.pc ≠ .delay := by
        rcases s.main.recv_pc m after with ⟨-, -, h⟩ | ⟨-, -, h⟩ | ⟨-, -, h⟩ <;> simp [h, hpc]
      rw [he, pulses_recv]
      simp [pulses_recv, hpc, hpc', verdict]
    | mainRead adc =>
      rcases step_spec h with ⟨hpc, rfl⟩ | ⟨hpc, rfl⟩
      · have he : effects (s, .mainRead adc) = (s.main.readWeigh adc).2 := by simp [effects, hpc]
        rw [he, verdict_of_weighs hpc]
        simp [hpc, Main.readWeigh, pulses]
      · simp [effects, hpc, verdict, pulses, Main.readGrab]
    | mainWake =>
      obtain ⟨hpc, rfl⟩ := step_spec h
      have hpc' : s.main.wake.1.pc ≠ .delay := by
        unfold Main.wake
        split_ifs <;> simp
      have he : s.main.wake.2 = [.pulse 0] := (wake_records s.main).2.2.2
      simp [effects, he, hpc, hpc', verdict, pulses]
    | mainLoad =>
      rcases step_spec h with ⟨hpc, rfl⟩ | ⟨hpc, rfl⟩ <;> simp [effects, goto, hpc, verdict, pulses]
    | mainStore =>
      rcases step_spec h with ⟨_, hpc, rfl⟩ | ⟨_, hpc, rfl⟩ <;>
        simp [effects, goto, hpc, verdict, pulses]
    | _ => cases ha
  · have hv : verdict (s, a) = [] := by cases a <;> first | rfl | exact absurd rfl ha
    unfold pending
    rw [(step_effects h).2 ha, step_pulseOut_frame h ha, (step_frame h).main ha, hv]
    simp [pulses]

/-- **The writes to `PULSE_OUT`**: each item writes its verdict and then 0. -/
theorem pulses_of_reaches (h : Reaches tempAdc disk tr s) :
    pulseWrites tr ++ pending s = 0 :: (verdicts tr).flatMap (fun q => [q, 0]) ∧
    (pulseWrites tr).getLast? = some s.pulseOut := by
  induction h with
  | start => exact ⟨rfl, rfl⟩
  | @next tr s s' a _ ha ih =>
    obtain ⟨hw, hl⟩ := ih
    obtain ⟨hout, hp⟩ := step_pulses ha
    rw [pulseWrites_concat, verdicts_concat]
    constructor
    · rw [List.append_assoc, hp, ← List.append_assoc, hw, List.flatMap_append]
      rfl
    · rw [hout, List.getLast?_append, hl]
      rcases List.eq_nil_or_concat (pulses (effects (s, a))) with hvs | ⟨vs, v, hvs⟩ <;> simp [hvs]

/-- Outside the delay the output is 0. -/
theorem pulseOut_eq_zero (h : Reaches tempAdc disk tr s) (hpc : s.main.pc ≠ .delay) :
    s.pulseOut = 0 := by
  obtain ⟨hw, hl⟩ := pulses_of_reaches h
  rw [pending, if_neg hpc, List.append_nil] at hw
  rw [hw] at hl
  rcases List.eq_nil_or_concat (verdicts tr) with hv | ⟨vs, v, hv⟩
  · simp [hv] at hl
    exact hl.symm
  · rw [hv, List.concat_eq_append, List.flatMap_append, List.flatMap_singleton, ← List.cons_append,
      List.getLast?_append] at hl
    simpa using hl.symm

/-! ### Records and accepted messages -/

/-- One record is produced for each item. -/
theorem step_nbRecords (h : s.step a = some s') :
    (nbRecords (effects (s, a))).length = (verdict (s, a)).length := by
  rcases step_records h with ⟨m, after, rfl, -, he, -⟩ | ⟨adc, rfl, hpc, -, he, -⟩ | hq
  · rw [he, nbRecords_recv]
    rfl
  · rw [he, verdict_of_weighs hpc]
    rfl
  · rw [hq.nbRecords, verdict_of_not_weighs hq.not_weighs]
    rfl

theorem length_produced (h : Reaches tempAdc disk tr s) :
    (produced tr).length = (verdicts tr).length := by
  induction h with
  | start => rfl
  | next _ ha ih =>
    rw [produced_concat, verdicts_concat, List.length_append, List.length_append, ih,
      step_nbRecords ha]

/-- **The ids of the records** count the items from power-on modulo 1000. -/
theorem ids_of_reaches (h : Reaches tempAdc disk tr s) :
    (produced tr).map (fun r => r.msgId.toNat)
      = (List.range' 1 (verdicts tr).length).map (· % 1000) := by
  rw [← length_produced h]
  refine List.ext_getElem (by simp) fun i hi hi' => ?_
  have hlen : i < (produced tr).length := by simpa using hi
  have hmem : ((produced tr)[i], i + 1) ∈ (produced tr).zipIdx 1 := by
    rw [List.mk_mem_zipIdx_iff_le_and_getElem?_sub]
    exact ⟨by omega, by simp⟩
  have := (msgId_of_reaches h).2 _ hmem
  simpa [Nat.add_comm] using this

/-- The item that was accepted and is not yet weighed. -/
def accepting (s : Sys) : Nat := if s.main.pc = .readWeigh then 1 else 0

/-- **An item is accepted, and then weighed.** -/
theorem step_accepts (hb : s.main.Batch) (h : s.step a = some s') :
    (if Accepts (s, a) then 1 else 0) + accepting s
      = (verdict (s, a)).length + accepting s' := by
  have hno (ha : isMainRecv a = false) : ¬ Accepts (s, a) := by
    intro h
    have hrecv : isMainRecv a = true := h.1
    rw [ha] at hrecv
    cases hrecv
  unfold accepting
  by_cases ha : mover a = .main
  · cases a with
    | mainRecv after =>
      obtain ⟨m, q, hpc, hq, rfl⟩ := step_spec h
      have hflow : s.main.ctrlFlow ≠ 0 ↔ s.main.ctrlFlow = 1 := by
        rcases hb.flow with ⟨h, -⟩ | ⟨h, -⟩ <;> simp [h]
      have hacc : Accepts (s, .mainRecv after) ↔ m = .weigh ∧ s.main.ctrlFlow ≠ 0 := by
        simp [Accepts, hq, hflow]
      rw [commit_main]
      rcases s.main.recv_pc m after with ⟨h₁, h₂, h₃⟩ | ⟨h₁, -, h₃⟩ | ⟨h₁, -, h₃⟩
      · rw [if_pos (hacc.mpr ⟨h₁, h₂⟩), h₃, hpc]
        rfl
      · rw [if_neg (fun h => by simp [hacc.mp h] at h₁), h₃, hpc]
        rfl
      · rw [if_neg (fun h => h₁ (hacc.mp h)), h₃, hpc]
        rfl
    | mainRead adc =>
      rw [if_neg (hno rfl)]
      rcases step_spec h with ⟨hpc, rfl⟩ | ⟨hpc, rfl⟩
      · rw [verdict_of_weighs hpc]
        simp [hpc, Main.readWeigh]
      · simp [hpc, verdict, Main.readGrab]
    | mainWake =>
      obtain ⟨hpc, rfl⟩ := step_spec h
      have hpc' : s.main.wake.1.pc ≠ .readWeigh := by
        unfold Main.wake
        split_ifs <;> simp
      rw [if_neg (hno rfl)]
      simp [hpc, hpc', verdict]
    | mainLoad =>
      rw [if_neg (hno rfl)]
      rcases step_spec h with ⟨hpc, rfl⟩ | ⟨hpc, rfl⟩ <;> simp [goto, hpc, verdict]
    | mainStore =>
      rw [if_neg (hno rfl)]
      rcases step_spec h with ⟨_, hpc, rfl⟩ | ⟨_, hpc, rfl⟩ <;> simp [goto, hpc, verdict]
    | _ => cases ha
  · have hr : isMainRecv a = false := by cases a <;> first | rfl | exact absurd rfl ha
    have hv : verdict (s, a) = [] := by cases a <;> first | rfl | exact absurd rfl ha
    rw [if_neg (hno hr), hv, (step_frame h).main ha]
    rfl

theorem accepted_of_reaches (h : Reaches tempAdc disk tr s) :
    tr.countP (fun x => Accepts x) = (verdicts tr).length + accepting s := by
  induction h with
  | start => rfl
  | next hr ha ih =>
    have hstep := step_accepts (batch_of_reaches hr) ha
    rw [List.countP_append, ih, verdicts_concat, List.length_append, List.countP_singleton]
    simp only [decide_eq_true_eq]
    omega

/-! ### The law -/

/-- Where the totals start: at 0 at power-on, or at what a "restore" message says. -/
def Restored (total qualifiedAmount : UInt32) (tr : List (Sys × Label)) : Prop :=
  (tr = [] ∧ total = 0 ∧ qualifiedAmount = 0) ∨
    ∃ tr₀ x, tr = tr₀ ++ [x] ∧ Restores total qualifiedAmount x

theorem totals_of_restored {total qa : UInt32} (h : Reaches tempAdc disk tr s)
    (hr : Restored total qa tr) :
    s.main.info.total = total ∧ s.main.info.qualifiedAmount = qa ∧ accepting s = 0 := by
  rcases hr with ⟨rfl, rfl, rfl⟩ | ⟨tr₀, ⟨s₀, a⟩, rfl, hrecv, year, mon, hm⟩
  · rw [h.of_nil]
    exact ⟨rfl, rfl, rfl⟩
  · have ha : s₀.step a = some s := h.of_concat.2
    replace hm : s₀.mainMq.items.head? = some (.restore total qa year mon) := hm
    cases a with
    | mainRecv after =>
      obtain ⟨m, q, hpc, hq, rfl⟩ := step_spec ha
      obtain rfl : m = .restore total qa year mon := by simpa [hq] using hm
      simp [Main.recv, setProductInfo, accepting, hpc]
    | _ => cases hrecv

/-- **The weighing law.**  Let `tr` be a run that ends with taking a "restore" message, or the empty
run, and `tr'` go on from there without another one.  Then the totals are those restored plus what
was weighed in `tr'`; the good items are never more than all items; the ids of the records count the
items since power-on modulo 1000; and `PULSE_OUT` was written 0, and then the verdict and 0 for each
item, so that it is 0 whenever `main` waits for a message. -/
theorem weighing_law {total qa : UInt32} (h : Reaches tempAdc disk (tr ++ tr') s)
    (hr : Restored total qa tr) (hno : ∀ x ∈ tr', ∀ total qa, ¬ Restores total qa x)
    (hle : qa ≤ total) (hlt : total.toNat + (verdicts tr').length < 2 ^ 32) :
    s.main.info.total.toNat = total.toNat + (verdicts tr').length ∧
    s.main.info.qualifiedAmount.toNat = qa.toNat + (verdicts tr').count 1 ∧
    s.main.info.qualifiedAmount ≤ s.main.info.total ∧
    tr'.countP (fun x => Accepts x) = (verdicts tr').length + accepting s ∧
    (produced (tr ++ tr')).map (fun r => r.msgId.toNat)
      = (List.range' 1 (verdicts (tr ++ tr')).length).map (· % 1000) ∧
    pulseWrites (tr ++ tr') ++ pending s
      = 0 :: (verdicts (tr ++ tr')).flatMap (fun q => [q, 0]) ∧
    (pulseWrites (tr ++ tr')).getLast? = some s.pulseOut ∧
    (s.main.pc = .recv → s.pulseOut = 0) := by
  obtain ⟨s₁, h₁, h₂⟩ := h.of_append
  obtain ⟨rfl, rfl, hacc⟩ := totals_of_restored h₁ hr
  obtain ⟨ht, hq⟩ := totals_of_run h₂ hno hle hlt
  obtain ⟨hw, hl⟩ := pulses_of_reaches h
  refine ⟨ht, hq, ?_, ?_, ids_of_reaches h, hw, hl, fun hpc => pulseOut_eq_zero h (by simp [hpc])⟩
  · have hcount := List.count_le_length (a := (1 : UInt32)) (l := verdicts tr')
    rw [UInt32.le_iff_toNat_le] at hle ⊢
    omega
  · have hall := accepted_of_reaches h
    have hpre := accepted_of_reaches h₁
    rw [List.countP_append, verdicts, List.flatMap_append, List.length_append] at hall
    unfold verdicts at hpre ⊢
    omega

/-- Two items after power-on, the first of them good; `main` is in the delay after the second. -/
theorem weighing_law_two_items : ∃ tr s, Reaches 0 ⟨false, none⟩ tr s ∧
    tr.map Prod.snd = grabLabels 3000 ++ weighLabels 2500 ++ resumeLabels ++ weighLabels 2400 ∧
    s.main.info.total.toNat = 2 ∧ s.main.info.qualifiedAmount.toNat = 1 ∧
    (produced tr).map (fun r => r.msgId.toNat) = [1, 2] ∧
    pulseWrites tr ++ pending s = [0, 1, 0, 0, 0] := by
  obtain ⟨tr, s, h, hl, hv, hm⟩ := exists_reaches
    (grabLabels 3000 ++ weighLabels 2500 ++ resumeLabels ++ weighLabels 2400)
    (fun r => verdicts r.1 = [1, 0] ∧
      ∀ x ∈ r.1, ∀ m ∈ x.1.mainMq.items, m = .weigh ∨ m = .grabbed) (by decide +kernel)
  have hno : ∀ x ∈ tr, ∀ total qa, ¬ Restores total qa x := by
    rintro x hx total qa ⟨-, year, mon, hhead⟩
    rcases hm x hx _ (List.mem_of_mem_head? hhead) with h | h <;> cases h
  have hv' : verdicts tr = [1, 0] := hv
  have h' : Reaches 0 ⟨false, none⟩ ([] ++ tr) s := h
  have hlaw := weighing_law h' (.inl ⟨rfl, rfl, rfl⟩) hno (by decide)
    (by rw [hv']; decide)
  rw [List.nil_append, hv'] at hlaw
  obtain ⟨ht, hq, -, -, hid, hp, -⟩ := hlaw
  exact ⟨tr, s, h, hl, ht, hq, hid, hp⟩

end SortingLine.Sys
