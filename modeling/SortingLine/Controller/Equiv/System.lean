import SortingLine.Controller.System

/-!
# What one step of the controller does

`step_spec` says, label by label, when a step is possible and what the next state is; every
invariant is proved from it, one case per label.  The lemmas `commit_*` say what the effects of a
step of `main` do to each part of the state: they only feed the three queues of `main`, the pin
`PULSE_OUT` and the count of the items weighed.
-/

namespace SortingLine.Sys

variable {s s' : Sys} {a : Label}

/-! ### Effects of a step of `main` -/

/-- The display messages among the effects. -/
def outputs (es : List Effect) : List OutMsg :=
  es.filterMap fun e => match e with | .output m => some m | _ => none

/-- The messages for the file thread among the effects. -/
def fileMsgs (es : List Effect) : List FileMsg :=
  es.filterMap fun e => match e with | .file m => some m | _ => none

/-- The records for the NB thread among the effects. -/
def nbRecords (es : List Effect) : List NbRecord :=
  es.filterMap fun e => match e with | .nb r => some r | _ => none

/-- A part of the state that no single effect changes is not changed by a step's effects. -/
theorem foldl_effect_frame {β : Type*} (f : Sys → β) (hf : ∀ s e, f (effect s e) = f s)
    (es : List Effect) (s : Sys) : f (es.foldl effect s) = f s := by
  induction es generalizing s with
  | nil => rfl
  | cons e es ih => rw [List.foldl_cons, ih, hf]

section Frame

variable (s) (r : Main × List Effect)

@[simp]
theorem commit_main : (s.commit r).main = r.1 :=
  foldl_effect_frame Sys.main (fun _ e => by cases e <;> rfl) _ _

@[simp]
theorem commit_ien : (s.commit r).ien = s.ien :=
  foldl_effect_frame Sys.ien (fun _ e => by cases e <;> rfl) _ _

@[simp]
theorem commit_touch : (s.commit r).touch = s.touch :=
  foldl_effect_frame Sys.touch (fun _ e => by cases e <;> rfl) _ _

@[simp]
theorem commit_mainMq : (s.commit r).mainMq = s.mainMq :=
  foldl_effect_frame Sys.mainMq (fun _ e => by cases e <;> rfl) _ _

@[simp]
theorem commit_flush : (s.commit r).flush = s.flush :=
  foldl_effect_frame Sys.flush (fun _ e => by cases e <;> rfl) _ _

@[simp]
theorem commit_grid : (s.commit r).grid = s.grid :=
  foldl_effect_frame Sys.grid (fun _ e => by cases e <;> rfl) _ _

@[simp]
theorem commit_file : (s.commit r).file = s.file :=
  foldl_effect_frame Sys.file (fun _ e => by cases e <;> rfl) _ _

@[simp]
theorem commit_disk : (s.commit r).disk = s.disk :=
  foldl_effect_frame Sys.disk (fun _ e => by cases e <;> rfl) _ _

@[simp]
theorem commit_nb : (s.commit r).nb = s.nb :=
  foldl_effect_frame Sys.nb (fun _ e => by cases e <;> rfl) _ _

@[simp]
theorem commit_outputDatasMq :
    (s.commit r).outputDatasMq = (outputs r.2).foldl BQueue.send s.outputDatasMq := by
  have h (es : List Effect) (s : Sys) :
      (es.foldl effect s).outputDatasMq = (outputs es).foldl BQueue.send s.outputDatasMq := by
    induction es generalizing s with
    | nil => rfl
    | cons e es ih => rw [List.foldl_cons, ih]; cases e <;> rfl
  exact h r.2 _

@[simp]
theorem commit_fileWriteMq :
    (s.commit r).fileWriteMq = (fileMsgs r.2).foldl BQueue.send s.fileWriteMq := by
  have h (es : List Effect) (s : Sys) :
      (es.foldl effect s).fileWriteMq = (fileMsgs es).foldl BQueue.send s.fileWriteMq := by
    induction es generalizing s with
    | nil => rfl
    | cons e es ih => rw [List.foldl_cons, ih]; cases e <;> rfl
  exact h r.2 _

@[simp]
theorem commit_weighed : (s.commit r).weighed = s.weighed + (nbRecords r.2).length := by
  have h (es : List Effect) (s : Sys) :
      (es.foldl effect s).weighed = s.weighed + (nbRecords es).length := by
    induction es generalizing s with
    | nil => rfl
    | cons e es ih =>
      rw [List.foldl_cons, ih]
      cases e <;> simp [effect, nbRecords]
      omega
  exact h r.2 _

/-- The records are numbered on from the items weighed so far. -/
@[simp]
theorem commit_nbiotMq : (s.commit r).nbiotMq
    = ((nbRecords r.2).zipIdx (s.weighed + 1)).foldl BQueue.send s.nbiotMq := by
  have h (es : List Effect) (s : Sys) : (es.foldl effect s).nbiotMq
      = ((nbRecords es).zipIdx (s.weighed + 1)).foldl BQueue.send s.nbiotMq := by
    induction es generalizing s with
    | nil => rfl
    | cons e es ih => rw [List.foldl_cons, ih]; cases e <;> rfl
  exact h r.2 _

end Frame

/-! ### One step -/

/-- When a step with a given label is possible in `s`, and the state `s'` it leads to. -/
def StepSpec (s s' : Sys) : Label → Prop
  | .edge .inputSignal => s.ien.signal = true ∧ s' = s.inputInterruptIsr
  | .edge .inputSignal2 => s.ien.signal2 = true ∧ s' = s.inputInterruptIsr2
  | .onclick up => s' = s.sendBtnMsg up
  | .touchLoad => s' = { s with touch := some s.ien }
  | .touchStore => ∃ loaded, s.touch = some loaded ∧ s' = { s with ien := loaded, touch := none }
  | .mainRecv after => ∃ m q, s.main.pc = .recv ∧ s.mainMq.items = m :: q.items ∧
      s' = { s with mainMq := q }.commit (s.main.recv m after)
  | .mainRead adc =>
      (s.main.pc = .readWeigh ∧ s' = s.commit (s.main.readWeigh adc)) ∨
      (s.main.pc = .readGrab ∧ s' = s.commit (s.main.readGrab adc, []))
  | .mainWake => s.main.pc = .delay ∧ s' = s.commit s.main.wake
  | .mainLoad =>
      (s.main.pc = .enable2Load ∧ s' = s.goto (.enable2Store s.ien)) ∨
      (s.main.pc = .enableLoad ∧ s' = s.goto (.enableStore s.ien))
  | .mainStore =>
      (∃ loaded, s.main.pc = .enable2Store loaded ∧
        s' = { s with ien := loaded.set .inputSignal2 true }.goto .enableLoad) ∨
      (∃ loaded, s.main.pc = .enableStore loaded ∧
        s' = { s with ien := loaded.set .inputSignal true }.goto .recv)
  | .flushRecv => ∃ m q, s.flush = none ∧ s.outputDatasMq.items = m :: q.items ∧
      s' = { s with outputDatasMq := q, flush := some m }
  | .flushDraw => ∃ m, s.flush = some m ∧ s' = { s with grid := s.grid.draw m, flush := none }
  | .fileStart running => s.file = .start ∧
      ((running = false ∧ s' = { s with file := .ended }) ∨
      (running = true ∧ s.disk.userlog = true ∧ s' = { s with file := .read }) ∨
      (running = true ∧ s.disk.userlog = false ∧
        s' = { s with disk := s.disk.mkdir, file := .blank }))
  | .fileBlank => s.file = .blank ∧
      s' = { s with disk := s.disk.fileWrite (List.replicate 24 0) 0, file := .read }
  | .fileRead rbuf => s.file = .read ∧
      s' = { s with file := .report (s.disk.fileRead rbuf.toList 24) }
  | .fileReport => ∃ rbuf, s.file = .report rbuf ∧
      s' = { s with file := .idle }.post (sendFileMsg rbuf)
  | .fileRecv => ∃ m q, s.file = .idle ∧ s.fileWriteMq.items = m :: q.items ∧
      s' = { s with fileWriteMq := q, file := .write m }
  | .fileWrite => ∃ m, s.file = .write m ∧ s' = { s with disk := s.disk.handle m, file := .idle }
  | .nbStart found => s.nb = .start ∧ s' = { s with nb := if found then .csq else .ended }
  | .nbCsq answer => s.nb = .csq ∧
      ((∃ c₄ c₅, answer = some (c₄, c₅) ∧ s' = { s with nb := .time }.post (.csq c₄ c₅)) ∨
      (answer = none ∧ s' = { s with nb := .time }))
  | .nbTime answer => s.nb = .time ∧
      ((∃ d, answer = some d ∧ s' = { s with nb := .idle }.post (.date d)) ∨
      (answer = none ∧ s' = { s with nb := .idle }))
  | .nbRecv => ∃ x q, s.nb = .idle ∧ s.nbiotMq.items = x :: q.items ∧
      s' = { s with nbiotMq := q, nb := .publish x }
  | .nbDone success => ∃ x, s.nb = .publish x ∧
      ((success = true ∧ s' = { s with nb := .idle }.post (.published x)) ∨
      (success = false ∧ s' = { s with nb := .idle }))

/-- **What a step does.** -/
theorem step_spec (h : s.step a = some s') : StepSpec s s' a := by
  -- one case per label: open the guards of `step`, and read the new state off
  cases a with
  | edge p =>
    cases p <;>
    · simp only [step] at h
      split_ifs at h with hp
      exact ⟨hp, (Option.some.inj h).symm⟩
  | onclick up => exact (Option.some.inj h).symm
  | touchLoad =>
    simp only [step] at h
    split_ifs at h
    exact (Option.some.inj h).symm
  | touchStore =>
    obtain ⟨loaded, ht, rfl⟩ := Option.map_eq_some_iff.mp h
    exact ⟨loaded, ht, rfl⟩
  | mainRecv after =>
    simp only [step] at h
    split_ifs at h with hpc
    obtain ⟨m, q, hq, rfl⟩ := BQueue.map_recv_eq_some.mp h
    exact ⟨m, q, hpc, hq, rfl⟩
  | mainRead adc =>
    simp only [step] at h
    split at h <;> simp_all [StepSpec]
  | mainWake =>
    simp only [step] at h
    split_ifs at h with hpc
    exact ⟨hpc, (Option.some.inj h).symm⟩
  | mainLoad =>
    simp only [step] at h
    split at h <;> simp_all [StepSpec]
  | mainStore =>
    simp only [step] at h
    split at h <;> simp_all [StepSpec]
  | flushRecv =>
    simp only [step] at h
    split_ifs at h with hf
    obtain ⟨m, q, hq, rfl⟩ := BQueue.map_recv_eq_some.mp h
    exact ⟨m, q, hf, hq, rfl⟩
  | flushDraw =>
    obtain ⟨m, hm, rfl⟩ := Option.map_eq_some_iff.mp h
    exact ⟨m, hm, rfl⟩
  | fileStart running =>
    simp only [step] at h
    split_ifs at h <;> simp_all [StepSpec]
  | fileBlank =>
    simp only [step] at h
    split_ifs at h with hf
    exact ⟨hf, (Option.some.inj h).symm⟩
  | fileRead rbuf =>
    simp only [step] at h
    split_ifs at h with hf
    exact ⟨hf, (Option.some.inj h).symm⟩
  | fileReport =>
    simp only [step] at h
    split at h <;> simp_all [StepSpec]
  | fileRecv =>
    simp only [step] at h
    split_ifs at h with hf
    obtain ⟨m, q, hq, rfl⟩ := BQueue.map_recv_eq_some.mp h
    exact ⟨m, q, hf, hq, rfl⟩
  | fileWrite =>
    simp only [step] at h
    split at h <;> simp_all [StepSpec]
  | nbStart found =>
    simp only [step] at h
    split_ifs at h <;> simp_all [StepSpec]
  | nbCsq answer =>
    simp only [step] at h
    split_ifs at h
    split at h <;> simp_all [StepSpec]
  | nbTime answer =>
    simp only [step] at h
    split_ifs at h
    split at h <;> simp_all [StepSpec]
  | nbRecv =>
    simp only [step] at h
    split_ifs at h with hn
    obtain ⟨x, q, hq, rfl⟩ := BQueue.map_recv_eq_some.mp h
    exact ⟨x, q, hn, hq, rfl⟩
  | nbDone success =>
    simp only [step] at h
    split at h
    · cases success <;> simp_all [StepSpec]
    · cases h

/-! ### Who changes what -/

/-- The parties of the system; the two interrupt handlers count as one. -/
inductive Party
  | isr
  | button
  | touch
  | main
  | flush
  | file
  | nb
deriving DecidableEq

/-- The party that takes a step. -/
def mover : Label → Party
  | .edge _ => .isr
  | .onclick _ => .button
  | .touchLoad | .touchStore => .touch
  | .mainRecv _ | .mainRead _ | .mainWake | .mainLoad | .mainStore => .main
  | .flushRecv | .flushDraw => .flush
  | .fileStart _ | .fileBlank | .fileRead _ | .fileReport | .fileRecv | .fileWrite => .file
  | .nbStart _ | .nbCsq _ | .nbTime _ | .nbRecv | .nbDone _ => .nb

/-- The message that a step sends on `main_mq`. -/
def posted (s : Sys) : Label → Option (MainMsg (NbRecord × Nat))
  | .edge p => some (match p with | .inputSignal => .weigh | .inputSignal2 => .grabbed)
  | .onclick up => some (if up then .thresholdUp else .thresholdDown)
  | .fileReport => match s.file with | .report rbuf => some (sendFileMsg rbuf) | _ => none
  | .nbCsq answer => answer.map fun c => .csq c.1 c.2
  | .nbTime answer => answer.map .date
  | .nbDone success =>
    match s.nb with | .publish x => if success then some (.published x) else none | _ => none
  | .touchLoad | .touchStore | .mainRecv _ | .mainRead _ | .mainWake | .mainLoad | .mainStore
  | .flushRecv | .flushDraw | .fileStart _ | .fileBlank | .fileRead _ | .fileRecv | .fileWrite
  | .nbStart _ | .nbRecv => none

/-- The parts of the state that a step leaves alone, unless its party owns them. -/
structure Frame (s s' : Sys) (a : Label) : Prop where
  main : mover a ≠ .main → s'.main = s.main
  weighed : mover a ≠ .main → s'.weighed = s.weighed
  ien : mover a ≠ .isr → mover a ≠ .touch → mover a ≠ .main → s'.ien = s.ien
  touch : mover a ≠ .touch → s'.touch = s.touch
  outputDatasMq : mover a ≠ .main → a ≠ .flushRecv → s'.outputDatasMq = s.outputDatasMq
  fileWriteMq : mover a ≠ .main → a ≠ .fileRecv → s'.fileWriteMq = s.fileWriteMq
  nbiotMq : mover a ≠ .main → a ≠ .nbRecv → s'.nbiotMq = s.nbiotMq
  flush : mover a ≠ .flush → s'.flush = s.flush
  grid : mover a ≠ .flush → s'.grid = s.grid
  file : mover a ≠ .file → s'.file = s.file
  disk : mover a ≠ .file → s'.disk = s.disk
  nb : mover a ≠ .nb → s'.nb = s.nb

theorem step_frame (h : s.step a = some s') : Frame s s' a := by
  replace h := step_spec h
  cases a
  case' edge p => cases p <;> obtain ⟨-, rfl⟩ := h
  case' onclick => obtain rfl := h
  case' touchLoad => obtain rfl := h
  case' touchStore => obtain ⟨_, -, rfl⟩ := h
  case' mainRecv => obtain ⟨_, _, -, -, rfl⟩ := h
  case' mainRead => obtain ⟨-, rfl⟩ | ⟨-, rfl⟩ := h
  case' mainWake => obtain ⟨-, rfl⟩ := h
  case' mainLoad => obtain ⟨-, rfl⟩ | ⟨-, rfl⟩ := h
  case' mainStore => obtain ⟨_, -, rfl⟩ | ⟨_, -, rfl⟩ := h
  case' flushRecv => obtain ⟨_, _, -, -, rfl⟩ := h
  case' flushDraw => obtain ⟨_, -, rfl⟩ := h
  case' fileStart => obtain ⟨-, ⟨-, rfl⟩ | ⟨-, -, rfl⟩ | ⟨-, -, rfl⟩⟩ := h
  case' fileBlank => obtain ⟨-, rfl⟩ := h
  case' fileRead => obtain ⟨-, rfl⟩ := h
  case' fileReport => obtain ⟨_, -, rfl⟩ := h
  case' fileRecv => obtain ⟨_, _, -, -, rfl⟩ := h
  case' fileWrite => obtain ⟨_, -, rfl⟩ := h
  case' nbStart => obtain ⟨-, rfl⟩ := h
  case' nbCsq => obtain ⟨-, ⟨_, _, -, rfl⟩ | ⟨-, rfl⟩⟩ := h
  case' nbTime => obtain ⟨-, ⟨_, -, rfl⟩ | ⟨-, rfl⟩⟩ := h
  case' nbRecv => obtain ⟨_, _, -, -, rfl⟩ := h
  case' nbDone => obtain ⟨_, -, ⟨-, rfl⟩ | ⟨-, rfl⟩⟩ := h
  -- each part is as it was, or the condition on the party fails
  all_goals constructor <;> intros <;> first | rfl | contradiction | simp

/-- Outside `main`, a step changes `main_mq` only by sending its message there. -/
theorem step_mainMq (h : s.step a = some s') (ha : mover a ≠ .main) :
    s'.mainMq = (posted s a).elim s.mainMq s.mainMq.send := by
  replace h := step_spec h
  cases a with
  | edge p => cases p <;> (obtain ⟨-, rfl⟩ := h; rfl)
  | onclick => obtain rfl := h; rfl
  | touchLoad => obtain rfl := h; rfl
  | touchStore => obtain ⟨_, -, rfl⟩ := h; rfl
  | flushRecv => obtain ⟨_, _, -, -, rfl⟩ := h; rfl
  | flushDraw => obtain ⟨_, -, rfl⟩ := h; rfl
  | fileStart => obtain ⟨-, ⟨-, rfl⟩ | ⟨-, -, rfl⟩ | ⟨-, -, rfl⟩⟩ := h <;> rfl
  | fileBlank => obtain ⟨-, rfl⟩ := h; rfl
  | fileRead => obtain ⟨-, rfl⟩ := h; rfl
  | fileReport => obtain ⟨rbuf, hf, rfl⟩ := h; simp only [posted, hf]; rfl
  | fileRecv => obtain ⟨_, _, -, -, rfl⟩ := h; rfl
  | fileWrite => obtain ⟨_, -, rfl⟩ := h; rfl
  | nbStart => obtain ⟨-, rfl⟩ := h; rfl
  | nbCsq => obtain ⟨-, ⟨_, _, rfl, rfl⟩ | ⟨rfl, rfl⟩⟩ := h <;> rfl
  | nbTime => obtain ⟨-, ⟨_, rfl, rfl⟩ | ⟨rfl, rfl⟩⟩ := h <;> rfl
  | nbRecv => obtain ⟨_, _, -, -, rfl⟩ := h; rfl
  | nbDone =>
    obtain ⟨x, hn, ⟨rfl, rfl⟩ | ⟨rfl, rfl⟩⟩ := h <;> simp only [posted, hn] <;> rfl
  | _ => exact absurd rfl ha

theorem sendFileMsg_cases {τ : Type} (rbuf : List UInt8) :
    (sendFileMsg rbuf : MainMsg τ) = .blankLog ∨ ∃ total qualifiedAmount year mon,
      (sendFileMsg rbuf : MainMsg τ) = .restore total qualifiedAmount year mon := by
  unfold sendFileMsg
  split_ifs
  · exact .inl rfl
  · exact .inr ⟨_, _, _, _, rfl⟩

/-- **Who sends what on `main_mq`.** -/
theorem posted_cases {m : MainMsg (NbRecord × Nat)} (h : posted s a = some m) :
    (a = .edge .inputSignal ∧ m = .weigh) ∨ (a = .edge .inputSignal2 ∧ m = .grabbed) ∨
    (∃ up, a = .onclick up ∧ m = if up then .thresholdUp else .thresholdDown) ∨
    (∃ rbuf, a = .fileReport ∧ s.file = .report rbuf ∧ m = sendFileMsg rbuf) ∨
    (∃ c, a = .nbCsq (some c) ∧ m = .csq c.1 c.2) ∨ (∃ d, a = .nbTime (some d) ∧ m = .date d) ∨
    (∃ x, a = .nbDone true ∧ s.nb = .publish x ∧ m = .published x) := by
  cases a with
  | edge p => cases p <;> cases h <;> simp
  | onclick up => cases h; simp
  | fileReport =>
    simp only [posted] at h
    split at h
    · rename_i rbuf hf
      cases h
      simp [hf]
    · cases h
  | nbCsq answer => cases answer <;> cases h; simp
  | nbTime answer => cases answer <;> cases h; simp
  | nbDone success =>
    simp only [posted] at h
    split at h
    · rename_i x hx
      split_ifs at h with hs
      cases h
      simp [hs, hx]
    · cases h
  | _ => cases h

/-! ### What `main` sends -/

/-- What a step of `main` does outside; a step of another party has no effects. -/
def effects (x : Sys × Label) : List Effect :=
  match x.2 with
  | .mainRecv after =>
    match x.1.mainMq.items with
    | m :: _ => (x.1.main.recv m after).2
    | [] => []
  | .mainRead adc => if x.1.main.pc = .readWeigh then (x.1.main.readWeigh adc).2 else []
  | .mainWake => x.1.main.wake.2
  | _ => []

/-- An ADC read returns. -/
@[simp]
def isMainRead : Label → Bool
  | .mainRead _ => true
  | _ => false

/-- The step weighs an item: the ADC read of `case 1` returns. -/
def Weighs (x : Sys × Label) : Prop := isMainRead x.2 = true ∧ x.1.main.pc = .readWeigh

instance : DecidablePred Weighs := fun _ => inferInstanceAs (Decidable (_ ∧ _))

/-- How the three queues that `main` feeds, and the count of the items, change with its effects. -/
structure EffectSpec (s s' : Sys) (a : Label) (es : List Effect) : Prop where
  outputDatasMq : a ≠ .flushRecv →
    s'.outputDatasMq = (outputs es).foldl BQueue.send s.outputDatasMq
  fileWriteMq : a ≠ .fileRecv → s'.fileWriteMq = (fileMsgs es).foldl BQueue.send s.fileWriteMq
  nbiotMq : a ≠ .nbRecv →
    s'.nbiotMq = ((nbRecords es).zipIdx (s.weighed + 1)).foldl BQueue.send s.nbiotMq
  weighed : s'.weighed = s.weighed + (nbRecords es).length

theorem step_effects (h : s.step a = some s') :
    EffectSpec s s' a (effects (s, a)) ∧ (mover a ≠ .main → effects (s, a) = []) := by
  by_cases ha : mover a = .main
  · -- a step of `main` is a `commit`, and `commit` feeds the queues with the effects
    refine ⟨?_, fun h => absurd ha h⟩
    replace h := step_spec h
    cases a with
    | mainRecv after =>
      obtain ⟨m, q, -, hq, rfl⟩ := h
      have he : effects (s, .mainRecv after) = (s.main.recv m after).2 := by simp [effects, hq]
      rw [he]
      constructor <;> simp
    | mainRead adc =>
      rcases h with ⟨hpc, rfl⟩ | ⟨hpc, rfl⟩
      · have he : effects (s, .mainRead adc) = (s.main.readWeigh adc).2 := by simp [effects, hpc]
        rw [he]
        constructor <;> simp
      · have he : effects (s, .mainRead adc) = [] := by simp [effects, hpc]
        rw [he]
        constructor <;> simp
    | mainWake =>
      obtain ⟨-, rfl⟩ := h
      constructor <;> simp [effects]
    | mainLoad => rcases h with ⟨-, rfl⟩ | ⟨-, rfl⟩ <;> constructor <;> intros <;> rfl
    | mainStore => rcases h with ⟨_, -, rfl⟩ | ⟨_, -, rfl⟩ <;> constructor <;> intros <;> rfl
    | _ => cases ha
  · have he : effects (s, a) = [] := by cases a <;> first | rfl | exact absurd rfl ha
    have hf := step_frame h
    rw [he]
    exact ⟨⟨hf.outputDatasMq ha, hf.fileWriteMq ha, hf.nbiotMq ha, hf.weighed ha⟩, fun _ => rfl⟩

/-! ### Steps of the queues -/

/-- `main` receives. -/
@[simp]
def isMainRecv : Label → Bool
  | .mainRecv _ => true
  | _ => false

theorem moves_mainMq (h : s.step a = some s') :
    BQueue.Moves (isMainRecv a = true) (posted s a).toList s.mainMq s'.mainMq := by
  by_cases ha : mover a = .main
  · replace h := step_spec h
    cases a with
    | mainRecv after =>
      obtain ⟨m, q, -, hq, rfl⟩ := h
      exact .take m rfl rfl (by simpa using hq)
    | mainRead adc =>
      rcases h with ⟨-, rfl⟩ | ⟨-, rfl⟩ <;> exact .send (by simp) (by simp [posted])
    | mainWake => obtain ⟨-, rfl⟩ := h; exact .send (by simp) (by simp [posted])
    | mainLoad => rcases h with ⟨-, rfl⟩ | ⟨-, rfl⟩ <;> exact .send (by simp) rfl
    | mainStore => rcases h with ⟨_, -, rfl⟩ | ⟨_, -, rfl⟩ <;> exact .send (by simp) rfl
    | _ => cases ha
  · refine .send (by cases a <;> first | exact absurd rfl ha | simp) ?_
    rw [step_mainMq h ha]
    cases posted s a <;> rfl

theorem moves_outputDatasMq (h : s.step a = some s') : BQueue.Moves (a = .flushRecv)
    (outputs (effects (s, a))) s.outputDatasMq s'.outputDatasMq := by
  by_cases ha : a = .flushRecv
  · subst ha
    obtain ⟨m, q, -, hq, rfl⟩ := step_spec h
    exact .take m rfl rfl hq
  · exact .send ha ((step_effects h).1.outputDatasMq ha)

theorem moves_fileWriteMq (h : s.step a = some s') : BQueue.Moves (a = .fileRecv)
    (fileMsgs (effects (s, a))) s.fileWriteMq s'.fileWriteMq := by
  by_cases ha : a = .fileRecv
  · subst ha
    obtain ⟨m, q, -, hq, rfl⟩ := step_spec h
    exact .take m rfl rfl hq
  · exact .send ha ((step_effects h).1.fileWriteMq ha)

theorem moves_nbiotMq (h : s.step a = some s') : BQueue.Moves (a = .nbRecv)
    ((nbRecords (effects (s, a))).zipIdx (s.weighed + 1)) s.nbiotMq s'.nbiotMq := by
  by_cases ha : a = .nbRecv
  · subst ha
    obtain ⟨x, q, -, hq, rfl⟩ := step_spec h
    exact .take x rfl rfl hq
  · exact .send ha ((step_effects h).1.nbiotMq ha)

/-! ### The records of `main` -/

theorem wake_records (m : Main) : m.wake.1.res = m.res ∧ m.wake.1.info = m.info ∧
    m.wake.1.stat = m.stat ∧ m.wake.2 = [.pulse 0] := by
  unfold Main.wake
  split_ifs <;> simp

/-- A step that neither takes a message nor weighs an item: it keeps the records of `main` and sends
nothing for it. -/
structure Quiet (s s' : Sys) (a : Label) : Prop where
  not_recv : ∀ after, a ≠ .mainRecv after
  not_weighs : ¬ Weighs (s, a)
  mainMq : mover a = .main → s'.mainMq = s.mainMq
  res : s'.main.res = s.main.res
  info : s'.main.info = s.main.info
  stat : s'.main.stat = s.main.stat
  outputs : outputs (effects (s, a)) = []
  fileMsgs : fileMsgs (effects (s, a)) = []
  nbRecords : nbRecords (effects (s, a)) = []

/-- **What a step does to the records of `main`**: it takes a message, weighs an item, or keeps
them. -/
theorem step_records (h : s.step a = some s') :
    (∃ m after, a = .mainRecv after ∧ s.mainMq.items = m :: s'.mainMq.items ∧
      effects (s, a) = (s.main.recv m after).2 ∧ s'.main = (s.main.recv m after).1) ∨
    (∃ adc, a = .mainRead adc ∧ s.main.pc = .readWeigh ∧ s'.mainMq = s.mainMq ∧
      effects (s, a) = (s.main.readWeigh adc).2 ∧ s'.main = (s.main.readWeigh adc).1) ∨
    Quiet s s' a := by
  by_cases ha : mover a = .main
  · replace h := step_spec h
    cases a with
    | mainRecv after =>
      obtain ⟨m, q, -, hq, rfl⟩ := h
      exact .inl ⟨m, after, rfl, by simpa using hq, by simp [effects, hq], by simp⟩
    | mainRead adc =>
      rcases h with ⟨hpc, rfl⟩ | ⟨hpc, rfl⟩
      · exact .inr (.inl ⟨adc, rfl, hpc, by simp, by simp [effects, hpc], by simp⟩)
      · right; right
        constructor <;> simp [effects, hpc, Weighs, Main.readGrab, outputs, fileMsgs, nbRecords]
    | mainWake =>
      obtain ⟨-, rfl⟩ := h
      obtain ⟨hres, hinfo, hstat, heff⟩ := wake_records s.main
      right; right
      constructor <;>
        simp [effects, hres, hinfo, hstat, heff, Weighs, outputs, fileMsgs, nbRecords]
    | mainLoad =>
      right; right
      rcases h with ⟨-, rfl⟩ | ⟨-, rfl⟩ <;> constructor <;>
        simp [effects, goto, Weighs, outputs, fileMsgs, nbRecords]
    | mainStore =>
      right; right
      rcases h with ⟨_, -, rfl⟩ | ⟨_, -, rfl⟩ <;> constructor <;>
        simp [effects, goto, Weighs, outputs, fileMsgs, nbRecords]
    | _ => cases ha
  · have hm := (step_frame h).main ha
    have he := (step_effects h).2 ha
    have hw : ¬ Weighs (s, a) := by cases a <;> simp_all [Weighs, mover]
    have hr : ∀ after, a ≠ .mainRecv after := by rintro after rfl; exact ha rfl
    exact .inr (.inr ⟨hr, hw, fun h => absurd h ha, by rw [hm], by rw [hm], by rw [hm],
      by rw [he]; rfl, by rw [he]; rfl, by rw [he]; rfl⟩)

/-- Taking a message hands no record to the NB thread. -/
@[simp]
theorem nbRecords_recv {τ : Type} (m : Main) (msg : MainMsg τ) (after : UInt32) :
    nbRecords (m.recv msg after).2 = [] := by
  cases msg <;> simp only [Main.recv] <;> try split_ifs
  all_goals rfl

/-! ### Pieces of runs -/

/-- A run from a first start, without a log, given by its labels. -/
theorem exists_reaches (as : List Label) (p : List (Sys × Label) × Sys → Prop) [DecidablePred p]
    (h : (exec step (start 0 ⟨false, none⟩) as).any (fun r => p r) = true) :
    ∃ tr s, Reaches 0 ⟨false, none⟩ tr s ∧ tr.map Prod.snd = as ∧ p (tr, s) :=
  exists_run_of_exec as p h

/-- A pulse on `INPUT_SIGNAL2` outside a batch: the batch begins. -/
def grabLabels (adc : UInt16) : List Label :=
  [.edge .inputSignal2, .mainRecv 0, .mainRead (some adc)]

/-- A pulse on `INPUT_SIGNAL` in a batch: an item is weighed, and `main` waits in the delay. -/
def weighLabels (adc : UInt16) : List Label :=
  [.edge .inputSignal, .mainRecv 0, .mainRead (some adc)]

/-- From the delay back to `rt_mq_recv`, after a weighing that is not the last of its batch. -/
def resumeLabels : List Label := [.mainWake, .mainLoad, .mainStore]

end SortingLine.Sys
