import SortingLine.Controller.Equiv.System

/-!
# A batch of six weighings

`ctrl_flow` and `adc_measure_count` of `main`.  `Main.Batch` is what every step of `main` keeps: in
a batch (`ctrl_flow = 1`) one to six weighings are left, outside there is none.  It holds in every
state of every run (`batch_of_reaches`), whatever the pins, the queues and the other threads do.

From it follows how the batches of a run are made (`six_counted_between_accepted`): between two
accepted "all grabbed" messages exactly six weighings are counted.
-/

namespace SortingLine

namespace Main

variable {τ : Type} (m : Main)

/-- In a batch one to six weighings are left, outside none; and what this says at the program
points inside `case 1` and `case 9`. -/
structure Batch : Prop where
  flow : m.ctrlFlow = 0 ∧ m.adcMeasureCount = 0 ∨
    m.ctrlFlow = 1 ∧ 1 ≤ m.adcMeasureCount ∧ m.adcMeasureCount ≤ 6
  weigh : m.pc = .readWeigh ∨ m.pc = .delay → m.ctrlFlow = 1
  grab : m.pc = .readGrab ∨ m.pc = .enable2Load ∨ (∃ r, m.pc = .enable2Store r) → m.ctrlFlow = 0

@[simp]
theorem recv_ctrlFlow (msg : MainMsg τ) (after : UInt32) :
    (m.recv msg after).1.ctrlFlow = m.ctrlFlow := by
  cases msg <;> simp only [recv] <;> split <;> rfl

@[simp]
theorem recv_adcMeasureCount (msg : MainMsg τ) (after : UInt32) :
    (m.recv msg after).1.adcMeasureCount = m.adcMeasureCount := by
  cases msg <;> simp only [recv] <;> split <;> rfl

/-- A received message leads to one of the two ADC reads, or back to `rt_mq_recv`. -/
theorem recv_pc (msg : MainMsg τ) (after : UInt32) :
    (msg = .weigh ∧ m.ctrlFlow ≠ 0 ∧ (m.recv msg after).1.pc = .readWeigh) ∨
    (msg = .grabbed ∧ m.ctrlFlow = 0 ∧ (m.recv msg after).1.pc = .readGrab) ∨
    (¬ (msg = .weigh ∧ m.ctrlFlow ≠ 0) ∧ ¬ (msg = .grabbed ∧ m.ctrlFlow = 0) ∧
      (m.recv msg after).1.pc = m.pc) := by
  cases msg <;> by_cases h : m.ctrlFlow = 0 <;> simp [recv, h]

variable {m}

theorem Batch.recv (hm : m.Batch) (hpc : m.pc = .recv) (msg : MainMsg τ) (after : UInt32) :
    (m.recv msg after).1.Batch := by
  refine ⟨by simpa using hm.flow, ?_, ?_⟩
  · rw [recv_ctrlFlow]
    rcases m.recv_pc msg after with ⟨-, h, h'⟩ | ⟨-, -, h'⟩ | ⟨-, -, h'⟩
    · intro _
      exact (hm.flow.resolve_left fun h0 => h h0.1).1
    · simp [h']
    · simp [h', hpc]
  · rw [recv_ctrlFlow]
    rcases m.recv_pc msg after with ⟨-, -, h'⟩ | ⟨-, h, -⟩ | ⟨-, -, h'⟩
    · simp [h']
    · exact fun _ => h
    · simp [h', hpc]

theorem Batch.readGrab (m : Main) (adc : Option UInt16) : (m.readGrab adc).Batch :=
  ⟨.inr ⟨rfl, by simp [Main.readGrab]⟩, by simp [Main.readGrab], by simp [Main.readGrab]⟩

theorem Batch.readWeigh (hm : m.Batch) (hpc : m.pc = .readWeigh) (adc : Option UInt16) :
    (m.readWeigh adc).1.Batch :=
  ⟨hm.flow, fun _ => hm.weigh (.inl hpc), by simp [Main.readWeigh]⟩

/-- The decrement after the delay does not wrap. -/
theorem Batch.toNat_adcMeasureCount_sub_one (hm : m.Batch) (hpc : m.pc = .delay) :
    (m.adcMeasureCount - 1).toNat = m.adcMeasureCount.toNat - 1 ∧
      1 ≤ m.adcMeasureCount.toNat ∧ m.adcMeasureCount.toNat ≤ 6 := by
  have h1 := hm.weigh (.inr hpc)
  rcases hm.flow with ⟨h0, -⟩ | ⟨-, hlo, hhi⟩
  · rw [h1] at h0
    exact absurd h0 (by decide)
  · exact ⟨UInt8.toNat_sub_of_le _ _ hlo, UInt8.le_iff_toNat_le.mp hlo,
      UInt8.le_iff_toNat_le.mp hhi⟩

theorem Batch.wake (hm : m.Batch) (hpc : m.pc = .delay) : m.wake.1.Batch := by
  obtain ⟨hsub, hlo, hhi⟩ := hm.toNat_adcMeasureCount_sub_one hpc
  unfold Main.wake
  split_ifs with h
  · -- the sixth weighing: the batch is over
    exact ⟨.inl ⟨rfl, h⟩, by simp, by simp⟩
  · refine ⟨.inr ⟨hm.weigh (.inr hpc), ?_, ?_⟩, by simp, by simp⟩
    · have h0 : (m.adcMeasureCount - 1).toNat ≠ 0 := fun h0 => h (UInt8.toNat_inj.mp h0)
      rw [UInt8.le_iff_toNat_le]
      show 1 ≤ (m.adcMeasureCount - 1).toNat
      omega
    · rw [UInt8.le_iff_toNat_le]
      show (m.adcMeasureCount - 1).toNat ≤ 6
      omega

/-- The part of the invariant that does not mention the program point. -/
theorem Batch.setPc {pc : MainPc} (hm : m.Batch) (h₁ : pc ≠ .readWeigh ∧ pc ≠ .delay)
    (h₂ : pc = .readGrab ∨ pc = .enable2Load ∨ (∃ r, pc = .enable2Store r) → m.ctrlFlow = 0) :
    ({ m with pc } : Main).Batch :=
  ⟨hm.flow, fun h => by rcases h with h | h <;> simp_all, h₂⟩

end Main

namespace Sys

variable {s s' : Sys} {a : Label} {tempAdc : UInt16} {disk : Disk} {tr : List (Sys × Label)}

theorem step_batch (hs : s.main.Batch) (h : s.step a = some s') : s'.main.Batch := by
  by_cases ha : mover a = .main
  · replace h := step_spec h
    cases a with
    | mainRecv after =>
      obtain ⟨m, q, hpc, -, rfl⟩ := h
      rw [commit_main]
      exact hs.recv hpc m after
    | mainRead adc =>
      rcases h with ⟨hpc, rfl⟩ | ⟨hpc, rfl⟩
      · rw [commit_main]
        exact hs.readWeigh hpc adc
      · rw [commit_main]
        exact .readGrab s.main adc
    | mainWake =>
      obtain ⟨hpc, rfl⟩ := h
      rw [commit_main]
      exact hs.wake hpc
    | mainLoad =>
      rcases h with ⟨hpc, rfl⟩ | ⟨hpc, rfl⟩
      · exact hs.setPc (by simp) fun _ => hs.grab (by simp [hpc])
      · exact hs.setPc (by simp) (by simp)
    | mainStore =>
      rcases h with ⟨r, hpc, rfl⟩ | ⟨r, hpc, rfl⟩
      · exact hs.setPc (by simp) (by simp)
      · exact hs.setPc (by simp) (by simp)
    | _ => cases ha
  · rw [(step_frame h).main ha]
    exact hs

/-- **The batch invariant holds in every state of every run.** -/
theorem batch_of_reaches (h : Reaches tempAdc disk tr s) : s.main.Batch :=
  h.invariant ⟨.inl ⟨rfl, rfl⟩, by simp [start, Main.start], by simp [start, Main.start]⟩
    fun _ _ _ hs h => step_batch hs h

/-! ### The batches of a run -/

/-- What a batch is made of. -/
inductive BatchEvent
  /-- `case 9` was taken with `ctrl_flow = 0`: `adc_measure_count = 6`. -/
  | accepted
  /-- `adc_measure_count -= 1` in `case 1`. -/
  | counted
deriving DecidableEq

/-- The batch event of a step. -/
def batchEvent (x : Sys × Label) : Option BatchEvent :=
  if x.2 = .mainWake then some .counted
  else if isMainRead x.2 = true ∧ x.1.main.pc = .readGrab then some .accepted
  else none

/-- The batch events of a run, in order. -/
def batchEvents (tr : List (Sys × Label)) : List BatchEvent := tr.filterMap batchEvent

/-- The events so far, and the weighings still to be counted in the current batch. -/
structure Counts (es : List BatchEvent) (left : Nat) : Prop where
  /-- Since the last accepted message the count was brought down from six. -/
  last : ∀ es₁ k, es = es₁ ++ .accepted :: List.replicate k .counted → k + left = 6
  /-- Between two accepted messages six were counted. -/
  between : ∀ es₁ k es₂,
    es = es₁ ++ .accepted :: (List.replicate k .counted ++ .accepted :: es₂) → k = 6

theorem Counts.nil (left : Nat) : Counts [] left :=
  ⟨fun _ _ h => by simp at h, fun _ _ _ h => by simp at h⟩

/-- How the events since the last accepted message can end. -/
theorem last_concat {es es₁ : List BatchEvent} {e : BatchEvent} {k : Nat}
    (h : es ++ [e] = es₁ ++ .accepted :: List.replicate k .counted) :
    (e = .accepted ∧ k = 0) ∨
    (e = .counted ∧ ∃ k', k = k' + 1 ∧ es = es₁ ++ .accepted :: List.replicate k' .counted) := by
  cases k with
  | zero =>
    have he := List.append_inj_right' h rfl
    exact .inl ⟨List.singleton_inj.mp he, rfl⟩
  | succ k =>
    rw [List.replicate_succ', ← List.cons_append, ← List.append_assoc] at h
    have he := List.append_inj_right' h rfl
    exact .inr ⟨List.singleton_inj.mp he, k, rfl, List.append_inj_left' h rfl⟩

/-- Two accepted messages with only counts between them: the second is the newest event, or both
were there before it. -/
theorem between_concat {es es₁ es₂ : List BatchEvent} {e : BatchEvent} {k : Nat}
    (h : es ++ [e] = es₁ ++ .accepted :: (List.replicate k .counted ++ .accepted :: es₂)) :
    (e = .accepted ∧ es = es₁ ++ .accepted :: List.replicate k .counted) ∨
    ∃ es₃, es = es₁ ++ .accepted :: (List.replicate k .counted ++ .accepted :: es₃) := by
  rcases List.eq_nil_or_concat es₂ with rfl | ⟨es₃, e', rfl⟩
  · rw [← List.cons_append, ← List.append_assoc] at h
    have he := List.append_inj_right' h rfl
    exact .inl ⟨List.singleton_inj.mp he, List.append_inj_left' h rfl⟩
  · have h' : es ++ [e]
        = (es₁ ++ .accepted :: (List.replicate k .counted ++ .accepted :: es₃)) ++ [e'] := by
      simpa using h
    exact .inr ⟨es₃, List.append_inj_left' h' rfl⟩

theorem Counts.accepted {es : List BatchEvent} (h : Counts es 0) :
    Counts (es ++ [.accepted]) 6 := by
  constructor
  · intro es₁ k he
    rcases last_concat he with ⟨-, rfl⟩ | ⟨he, -⟩
    · rfl
    · cases he
  · intro es₁ k es₂ he
    rcases between_concat he with ⟨-, hlast⟩ | ⟨es₃, hold⟩
    · -- the batch that this message ends had nothing left to count
      exact h.last es₁ k hlast
    · exact h.between es₁ k es₃ hold

theorem Counts.counted {es : List BatchEvent} {left : Nat} (h : Counts es (left + 1)) :
    Counts (es ++ [.counted]) left := by
  constructor
  · intro es₁ k he
    rcases last_concat he with ⟨he, -⟩ | ⟨-, k', rfl, hlast⟩
    · cases he
    · have := h.last es₁ k' hlast
      omega
  · intro es₁ k es₂ he
    rcases between_concat he with ⟨he, -⟩ | ⟨es₃, hold⟩
    · cases he
    · exact h.between es₁ k es₃ hold

/-- A batch event is an ADC read of `case 9`, or the end of the delay of `case 1`. -/
theorem batchEvent_cases (s : Sys) (a : Label) :
    batchEvent (s, a) = none ∨
    ((∃ adc, a = .mainRead adc) ∧ s.main.pc = .readGrab ∧ batchEvent (s, a) = some .accepted) ∨
    (a = .mainWake ∧ batchEvent (s, a) = some .counted) := by
  by_cases hw : a = .mainWake
  · exact .inr (.inr ⟨hw, if_pos hw⟩)
  · by_cases hg : isMainRead a = true ∧ s.main.pc = .readGrab
    · refine .inr (.inl ⟨?_, hg.2, (if_neg hw).trans (if_pos hg)⟩)
      cases a with
      | mainRead adc => exact ⟨adc, rfl⟩
      | _ => exact absurd hg.1 Bool.false_ne_true
    · exact .inl ((if_neg hw).trans (if_neg hg))

/-- A step without a batch event keeps the count. -/
theorem step_adcMeasureCount (h : s.step a = some s') (he : batchEvent (s, a) = none) :
    s'.main.adcMeasureCount = s.main.adcMeasureCount := by
  by_cases ha : mover a = .main
  · replace h := step_spec h
    cases a with
    | mainRecv after => obtain ⟨m, q, -, -, rfl⟩ := h; simp
    | mainRead adc =>
      rcases h with ⟨-, rfl⟩ | ⟨hpc, -⟩
      · simp [Main.readWeigh]
      · simp [batchEvent, hpc] at he
    | mainWake => simp [batchEvent] at he
    | mainLoad => rcases h with ⟨-, rfl⟩ | ⟨-, rfl⟩ <;> rfl
    | mainStore => rcases h with ⟨_, -, rfl⟩ | ⟨_, -, rfl⟩ <;> rfl
    | _ => cases ha
  · rw [(step_frame h).main ha]

/-- **Six weighings make a batch**: the counts of every run. -/
theorem counts_of_reaches (h : Reaches tempAdc disk tr s) :
    Counts (batchEvents tr) s.main.adcMeasureCount.toNat := by
  induction h with
  | start => exact .nil _
  | @next tr s s' a hr ha ih =>
    -- the batch invariant says what is left when an event happens
    have hb := batch_of_reaches hr
    have h := step_spec ha
    rw [batchEvents, List.filterMap_append, ← batchEvents]
    rcases batchEvent_cases s a with he | ⟨⟨adc, rfl⟩, hpc, he⟩ | ⟨rfl, he⟩
    · simpa [he, step_adcMeasureCount ha he] using ih
    · obtain ⟨hpc', -⟩ | ⟨-, rfl⟩ := h
      · rw [hpc] at hpc'
        cases hpc'
      · -- outside a batch nothing is left to count
        have hzero : s.main.adcMeasureCount.toNat = 0 := by
          rcases hb.flow with ⟨-, h0⟩ | ⟨h1, -⟩
          · rw [h0]; rfl
          · rw [hb.grab (.inl hpc)] at h1; exact absurd h1 (by decide)
        rw [hzero] at ih
        simpa [he, Main.readGrab] using ih.accepted
    · obtain ⟨hpc, rfl⟩ := h
      obtain ⟨hsub, hlo, -⟩ := hb.toNat_adcMeasureCount_sub_one hpc
      have hcount : s.main.wake.1.adcMeasureCount = s.main.adcMeasureCount - 1 := by
        unfold Main.wake
        split_ifs <;> rfl
      rw [← Nat.sub_add_cancel hlo] at ih
      simpa [he, hcount, hsub] using ih.counted

/-- Between two accepted "all grabbed" messages exactly six weighings are counted. -/
theorem six_counted_between_accepted (h : Reaches tempAdc disk tr s) {es₁ es₂ : List BatchEvent}
    {k : Nat} (he : batchEvents tr
      = es₁ ++ .accepted :: (List.replicate k .counted ++ .accepted :: es₂)) : k = 6 :=
  (counts_of_reaches h).between es₁ k es₂ he

end Sys

end SortingLine
