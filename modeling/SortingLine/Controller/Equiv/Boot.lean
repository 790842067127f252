import SortingLine.Controller.Boot

/-!
# Queues that do not exist yet

`main` enables both input pins and starts the button task before it creates `main_mq`, to which the
two interrupt handlers and the buttons send.  All other uses of a queue come after its creation.  So
no assertion on a queue fails if and only if no edge and no click comes too early (`safe_iff`).
-/

namespace SortingLine.Boot

variable {s s' : Boot} {a : BootLabel} {tr : List (Boot × BootLabel)}

/-- `main` is past the creation of the queue; without an ADC it never gets there. -/
def Past : BootPc → Mq → Bool
  | .createOutputDatasMq, _ => false
  | .createFileWriteMq, q => q = .outputDatasMq ∨ q = .mainMq
  | .createNbiotMq, q => q ≠ .nbiotMq
  | .startFileWrTask, _ | .startNbTask, _ | .loop, _ => true
  | .startGuiMonitorTask, q | .startFlushTask, q | .sendVThresholdMsg, q | .sendRtcMsg, q
  | .findAdc, q | .disable _, q | .install _, q | .enable _, q | .createMainMq, q
  | .returned, q => q = .outputDatasMq

/-- `main` creates a queue, and `rt_mq_create` fails. -/
def CreateFails (x : Boot × BootLabel) : Prop :=
  x.2 = .main false ∧
    x.1.pc ∈ [BootPc.createOutputDatasMq, .createMainMq, .createFileWriteMq, .createNbiotMq]

instance : DecidablePred CreateFails := fun _ => inferInstanceAs (Decidable (_ ∧ _))

/-- The step is an interrupt or a click. -/
def isInput : BootLabel → Bool
  | .edge _ | .onclick => true
  | _ => false

/-- An edge interrupts, or a button is clicked, before `main` has created `main_mq`. -/
def Early (x : Boot × BootLabel) : Prop := isInput x.2 = true ∧ Past x.1.pc .mainMq = false

instance : DecidablePred Early := fun _ => inferInstanceAs (Decidable (_ ∧ _))

/-- What exists and what runs, by the point `main` has reached. -/
structure BootInv (s : Boot) : Prop where
  created : ∀ q, s.created q = Past s.pc q
  flush : s.flush = true → Past s.pc .outputDatasMq = true
  file : s.file = true → ∀ q, Past s.pc q = true
  nb : s.nb = true → ∀ q, Past s.pc q = true

theorem bootInv_start : BootInv start :=
  ⟨fun _ => rfl, fun h => (by cases h), fun h => (by cases h), fun h => (by cases h)⟩

/-- An operation that creates no queue keeps the queues, and what counts as past. -/
theorem BootInv.goto (hI : BootInv s) (hc : s'.created = s.created)
    (hp : ∀ q, Past s'.pc q = Past s.pc q) (hfl : s'.flush = s.flush ∨ Past s'.pc .outputDatasMq)
    (hfi : s'.file = s.file ∨ ∀ q, Past s'.pc q = true)
    (hn : s'.nb = s.nb ∨ ∀ q, Past s'.pc q = true) : BootInv s' := by
  refine ⟨fun q => by rw [hc, hp, hI.created], fun h => ?_, fun h => ?_, fun h => ?_⟩
  · rcases hfl with hfl | hfl
    · rw [hp, hI.flush (hfl ▸ h)]
    · exact hfl
  · rcases hfi with hfi | hfi
    · intro q
      rw [hp, hI.file (hfi ▸ h)]
    · exact hfi
  · rcases hn with hn | hn
    · intro q
      rw [hp, hI.nb (hn ▸ h)]
    · exact hn

/-- `rt_mq_create` brings `main` past the creation of the queue. -/
theorem BootInv.create (hI : BootInv s) {q : Mq} {pc : BootPc}
    (hp : ∀ r, Past pc r = if r = q then true else Past s.pc r) : BootInv (s.create q true pc) := by
  have hmono {r : Mq} (h : Past s.pc r = true) : Past pc r = true := by
    rw [hp, h]
    split_ifs <;> rfl
  refine ⟨fun r => ?_, fun h => hmono (hI.flush h), fun h r => hmono (hI.file h r),
    fun h r => hmono (hI.nb h r)⟩
  show (if r = q then true else s.created r) = Past pc r
  rw [hp, hI.created]

/-- **One operation of `main`.** -/
theorem mainStep_bootInv {ok : Bool} (hI : BootInv s) (h : s.mainStep ok = some s')
    (hok : ¬ CreateFails (s, .main ok)) : BootInv s' := by
  have hcreate (hpc : s.pc ∈ [BootPc.createOutputDatasMq, .createMainMq, .createFileWriteMq,
      .createNbiotMq]) : ok = true := by
    cases ok with
    | true => rfl
    | false => exact absurd ⟨rfl, hpc⟩ hok
  unfold mainStep at h
  cases hpc : s.pc with
  | createOutputDatasMq | createMainMq | createFileWriteMq | createNbiotMq =>
    obtain rfl := hcreate (by simp [hpc])
    simp only [hpc, Option.some.injEq] at h
    rw [← h]
    exact hI.create fun r => by cases r <;> simp [hpc, Past]
  | startGuiMonitorTask =>
    simp only [hpc] at h
    split_ifs at h <;>
    · rw [← Option.some.inj h]
      exact hI.goto rfl (fun q => by simp [hpc, Past]) (.inl rfl) (.inl rfl) (.inl rfl)
  | startFlushTask =>
    simp only [hpc, Option.some.injEq] at h
    rw [← h]
    exact hI.goto rfl (fun q => by simp [hpc, Past]) (.inr rfl) (.inl rfl) (.inl rfl)
  | startFileWrTask =>
    simp only [hpc, Option.some.injEq] at h
    rw [← h]
    exact hI.goto rfl (fun q => by simp [hpc, Past]) (.inl rfl) (.inr fun _ => rfl) (.inl rfl)
  | startNbTask =>
    simp only [hpc, Option.some.injEq] at h
    rw [← h]
    exact hI.goto rfl (fun q => by simp [hpc, Past]) (.inl rfl) (.inl rfl) (.inr fun _ => rfl)
  | findAdc =>
    simp only [hpc, Option.some.injEq] at h
    rw [← h]
    refine hI.goto rfl (fun q => ?_) (.inl rfl) (.inl rfl) (.inl rfl)
    cases ok <;> simp [hpc, Past]
  | enable p =>
    cases p <;>
    · simp only [hpc, Option.some.injEq] at h
      rw [← h]
      exact hI.goto rfl (fun q => by simp [hpc, Past]) (.inl rfl) (.inl rfl) (.inl rfl)
  | sendVThresholdMsg | sendRtcMsg | disable | install | loop =>
    simp only [hpc, Option.some.injEq] at h
    rw [← h]
    exact hI.goto rfl (fun q => by simp [hpc, Past]) (.inl rfl) (.inl rfl) (.inl rfl)
  | returned =>
    simp only [hpc] at h
    cases h

/-- **One step.** -/
theorem step_bootInv (hI : BootInv s) (h : s.step a = some s') (hok : ¬ CreateFails (s, a)) :
    BootInv s' := by
  cases a with
  | main ok => exact mainStep_bootInv hI h hok
  | _ =>
    simp only [step] at h
    split_ifs at h
    obtain rfl := Option.some.inj h
    exact hI

theorem bootInv_of_reaches (h : Reaches tr s) (hok : ∀ x ∈ tr, ¬ CreateFails x) : BootInv s :=
  h.invariant_of_forall (C := fun x => ¬ CreateFails x) bootInv_start
    (fun _ _ _ hx hI h => step_bootInv hI h hx) hok

/-- **A step is safe** unless it is an interrupt or a click that comes too early. -/
theorem safe_iff_not_early (hI : BootInv s) (h : s.step a = some s') :
    Safe (s, a) ↔ ¬ Early (s, a) := by
  have hearly (ha : isInput a = false) : ¬ Early (s, a) := by
    rintro ⟨he, -⟩
    simp [ha] at he
  cases a with
  | main ok =>
    refine iff_of_true (fun q hq => ?_) (hearly rfl)
    rw [hI.created]
    revert hq
    simp only [uses]
    split
    all_goals
      rename_i hpc
      simp +contextual [hpc, Past]
  | edge p => simp [Safe, Early, isInput, uses, hI.created]
  | onclick => simp [Safe, Early, isInput, uses, hI.created]
  | flushRecv =>
    simp only [step] at h
    split_ifs at h with hf
    refine iff_of_true (fun q hq => ?_) (hearly rfl)
    rw [List.mem_singleton.mp hq, hI.created, hI.flush hf]
  | fileSend | fileRecv =>
    simp only [step] at h
    split_ifs at h with hf
    exact iff_of_true (fun q _ => (hI.created q).trans (hI.file hf q)) (hearly rfl)
  | nbSend | nbRecv =>
    simp only [step] at h
    split_ifs at h with hf
    exact iff_of_true (fun q _ => (hI.created q).trans (hI.nb hf q)) (hearly rfl)

/-- **When no send and no receive is applied to a queue that does not exist**, provided that no
`rt_mq_create` fails: exactly when no edge interrupts and no button is clicked before `main` has
created `main_mq`. -/
theorem safe_iff (h : Reaches tr s) (hok : ∀ x ∈ tr, ¬ CreateFails x) :
    (∀ x ∈ tr, Safe x) ↔ ∀ x ∈ tr, ¬ Early x := by
  refine forall₂_congr fun x hx => ?_
  obtain ⟨tr₁, tr₂, s', rfl, hr, ha⟩ := h.of_mem hx
  have hI := bootInv_of_reaches hr fun y hy => hok y (List.mem_append_left _ hy)
  exact safe_iff_not_early hI ha

/-- A start-up run, given by its labels. -/
theorem exists_boot (as : List BootLabel) (p : List (Boot × BootLabel) × Boot → Prop)
    [DecidablePred p] (h : (exec step start as).any (fun r => p r) = true) :
    ∃ tr s, Reaches tr s ∧ tr.map Prod.snd = as ∧ p (tr, s) :=
  exists_run_of_exec as p h

/-- Inputs after the start-up are safe. -/
theorem safe_after_start : ∃ tr s, Reaches tr s ∧
    tr.map Prod.snd = List.replicate 17 (.main true) ++ [.edge .inputSignal2, .onclick, .nbRecv] ∧
    s.pc = .loop ∧ ∀ x ∈ tr, Safe x := by
  obtain ⟨tr, s, h, hl, hok, he, hpc⟩ := exists_boot
    (List.replicate 17 (.main true) ++ [.edge .inputSignal2, .onclick, .nbRecv])
    (fun r => (∀ x ∈ r.1, ¬ CreateFails x) ∧ (∀ x ∈ r.1, ¬ Early x) ∧ r.2.pc = .loop)
    (by decide +kernel)
  exact ⟨tr, s, h, hl, hpc, (safe_iff h hok).mpr he⟩

/-- **Two inputs that come too early**: an edge on `INPUT_SIGNAL` right after its handler was
installed, and a click before that. -/
theorem not_safe_before_create :
    (∃ tr s, Reaches tr s ∧
      tr.map Prod.snd = List.replicate 8 (.main true) ++ [.edge .inputSignal] ∧
      (∀ x ∈ tr, ¬ CreateFails x) ∧ ¬ ∀ x ∈ tr, Safe x) ∧
    ∃ tr s, Reaches tr s ∧ tr.map Prod.snd = List.replicate 5 (.main true) ++ [.onclick] ∧
      (∀ x ∈ tr, ¬ CreateFails x) ∧ ¬ ∀ x ∈ tr, Safe x :=
  ⟨exists_boot (List.replicate 8 (.main true) ++ [.edge .inputSignal])
      (fun r => (∀ x ∈ r.1, ¬ CreateFails x) ∧ ¬ ∀ x ∈ r.1, Safe x) (by decide +kernel),
    exists_boot (List.replicate 5 (.main true) ++ [.onclick])
      (fun r => (∀ x ∈ r.1, ¬ CreateFails x) ∧ ¬ ∀ x ∈ r.1, Safe x) (by decide +kernel)⟩

end SortingLine.Boot
