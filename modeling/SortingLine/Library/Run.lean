import Mathlib.Data.List.Basic
import Mathlib.Logic.Basic

/-!
# Runs of a labelled step function

A system is given by a step function `step : σ → ι → Option σ`: label `a` names who moves and
what the environment supplies, and `none` means that this move is not possible now.  A run keeps
the list of the steps taken, each with the state it was taken in, so that a condition on steps
("every send found a free slot") and a history ("the records sent so far") are both plain
functions of the run.

* `Run.invariant`: what holds at the start and is kept by every step holds in every state reached.
* `Run.invariant_of_forall`: the same for the runs whose steps all meet a condition.
* `Run.forall_iff`: where a condition on the step says exactly whether the next state is good.
* `exists_run_of_exec`: a list of labels that can be executed is a run, for concrete runs.
-/

namespace SortingLine

variable {σ ι : Type*}

/-- The runs of `step` from `s₀`: the steps taken, in order, and the state reached. -/
inductive Run (step : σ → ι → Option σ) (s₀ : σ) : List (σ × ι) → σ → Prop
  | start : Run step s₀ [] s₀
  | next {tr : List (σ × ι)} {s s' : σ} {a : ι} :
      Run step s₀ tr s → step s a = some s' → Run step s₀ (tr ++ [(s, a)]) s'

variable {step : σ → ι → Option σ} {s₀ : σ}

/-- **Invariant rule**, for the runs all of whose steps meet the condition `C`. -/
theorem Run.invariant_of_forall {C : σ × ι → Prop} {I : σ → Prop} (h₀ : I s₀)
    (hstep : ∀ s a s', C (s, a) → I s → step s a = some s' → I s') {tr : List (σ × ι)} {s : σ}
    (h : Run step s₀ tr s) (hC : ∀ x ∈ tr, C x) : I s := by
  induction h with
  | start => exact h₀
  | next _ ha ih =>
    simp only [List.mem_append, List.mem_singleton] at hC
    exact hstep _ _ _ (hC _ (.inr rfl)) (ih fun x hx => hC x (.inl hx)) ha

/-- **Invariant rule**: what holds at the start and is kept by every step holds in every state
reached. -/
theorem Run.invariant {I : σ → Prop} (h₀ : I s₀)
    (hstep : ∀ s a s', I s → step s a = some s' → I s') {tr : List (σ × ι)} {s : σ}
    (h : Run step s₀ tr s) : I s :=
  h.invariant_of_forall (C := fun _ => True) h₀ (fun s a s' _ => hstep s a s') fun _ _ => trivial

/-- **Exactness rule**: where a step from a good state that is reached leads to a good state just
when it meets the condition `C`, all states of a run are good just when all its steps meet `C`. -/
theorem Run.forall_iff {C : σ × ι → Prop} {I : σ → Prop} (h₀ : I s₀)
    (hstep : ∀ tr s a s', Run step s₀ tr s → I s → step s a = some s' → (I s' ↔ C (s, a)))
    {tr : List (σ × ι)} {s : σ} (h : Run step s₀ tr s) :
    ((∀ x ∈ tr, I x.1) ∧ I s) ↔ ∀ x ∈ tr, C x := by
  induction h with
  | start => simpa using h₀
  | @next tr s s' a hr ha ih =>
    simp only [List.forall_mem_append, List.forall_mem_singleton]
    constructor
    · rintro ⟨hI, hI'⟩
      exact ⟨ih.mp hI, (hstep tr s a s' hr hI.2 ha).mp hI'⟩
    · rintro ⟨hC, hCa⟩
      have hI := ih.mpr hC
      exact ⟨hI, (hstep tr s a s' hr hI.2 ha).mpr hCa⟩

/-! ### Pieces of runs -/

/-- A run is cut anywhere into two. -/
theorem Run.of_append {tr tr' : List (σ × ι)} {s : σ} (h : Run step s₀ (tr ++ tr') s) :
    ∃ s₁, Run step s₀ tr s₁ ∧ Run step s₁ tr' s := by
  generalize htr : tr ++ tr' = t at h
  induction h generalizing tr' with
  | start =>
    obtain ⟨rfl, rfl⟩ := List.append_eq_nil_iff.mp htr
    exact ⟨s₀, .start, .start⟩
  | @next t s s' a hr ha ih =>
    rcases List.eq_nil_or_concat tr' with rfl | ⟨t', x, rfl⟩
    · rw [List.append_nil] at htr
      exact ⟨s', htr ▸ hr.next ha, .start⟩
    · rw [List.concat_eq_append, ← List.append_assoc] at htr
      obtain ⟨rfl, hx⟩ := List.append_inj' htr rfl
      obtain rfl := List.singleton_inj.mp hx
      obtain ⟨s₁, h₁, h₂⟩ := ih rfl
      rw [List.concat_eq_append]
      exact ⟨s₁, h₁, h₂.next ha⟩

/-- A run of no steps. -/
theorem Run.of_nil {s : σ} (h : Run step s₀ [] s) : s = s₀ := by
  generalize ht : ([] : List (σ × ι)) = t at h
  cases h with
  | start => rfl
  | next => simp at ht

/-- The last step of a run. -/
theorem Run.of_concat {tr : List (σ × ι)} {x : σ × ι} {s : σ} (h : Run step s₀ (tr ++ [x]) s) :
    Run step s₀ tr x.1 ∧ step x.1 x.2 = some s := by
  generalize ht : tr ++ [x] = t at h
  cases h with
  | start => simp at ht
  | next hr ha =>
    obtain ⟨rfl, hx⟩ := List.append_inj' ht rfl
    obtain rfl := List.singleton_inj.mp hx
    exact ⟨hr, ha⟩

/-- The first step of a run. -/
theorem Run.of_cons {tr : List (σ × ι)} {x : σ × ι} {s : σ} (h : Run step s₀ (x :: tr) s) :
    x.1 = s₀ ∧ ∃ s₁, step x.1 x.2 = some s₁ ∧ Run step s₁ tr s := by
  have h' : Run step s₀ ([x] ++ tr) s := h
  obtain ⟨s₁, h₁, h₂⟩ := h'.of_append
  rw [← List.nil_append [x]] at h₁
  obtain ⟨h₀, hx⟩ := h₁.of_concat
  exact ⟨h₀.of_nil, s₁, hx, h₂⟩

/-- A step of a run is taken in a state that the steps before it reach. -/
theorem Run.of_mem {tr : List (σ × ι)} {x : σ × ι} {s : σ} (h : Run step s₀ tr s) (hx : x ∈ tr) :
    ∃ tr₁ tr₂ s', tr = tr₁ ++ x :: tr₂ ∧ Run step s₀ tr₁ x.1 ∧ step x.1 x.2 = some s' := by
  obtain ⟨tr₁, tr₂, rfl⟩ := List.append_of_mem hx
  have h' : Run step s₀ ((tr₁ ++ [x]) ++ tr₂) s := by rwa [List.append_assoc]
  obtain ⟨s', hr, -⟩ := h'.of_append
  exact ⟨tr₁, tr₂, s', rfl, hr.of_concat⟩

/-! ### Executing a list of labels -/

/-- Take the steps named by a list of labels, one after the other; the steps taken, and the state
reached. -/
def exec (step : σ → ι → Option σ) : σ → List ι → Option (List (σ × ι) × σ)
  | s, [] => some ([], s)
  | s, a :: as => (step s a).bind fun s' => (exec step s' as).map fun r => ((s, a) :: r.1, r.2)

theorem Run.exec {as : List ι} {tr tr' : List (σ × ι)} {s s' : σ} (h : Run step s₀ tr s)
    (he : exec step s as = some (tr', s')) :
    Run step s₀ (tr ++ tr') s' ∧ tr'.map Prod.snd = as := by
  induction as generalizing tr tr' s with
  | nil =>
    obtain ⟨rfl, rfl⟩ : [] = tr' ∧ s = s' := by simpa [SortingLine.exec] using he
    exact ⟨by simpa using h, rfl⟩
  | cons a as ih =>
    rw [SortingLine.exec, Option.bind_eq_some_iff] at he
    obtain ⟨t, ht, he⟩ := he
    obtain ⟨⟨tr₁, s₁⟩, h₁, he⟩ := Option.map_eq_some_iff.mp he
    obtain ⟨rfl, rfl⟩ := Prod.mk.inj he
    obtain ⟨hrun, hlab⟩ := ih (h.next ht) h₁
    exact ⟨by simpa using hrun, by simp [hlab]⟩

/-- A list of labels that can be executed is a run with these labels, and what can be seen by
executing it holds of the run. -/
theorem exists_run_of_exec (as : List ι) (p : List (σ × ι) × σ → Prop) [DecidablePred p]
    (h : (exec step s₀ as).any (fun r => p r) = true) :
    ∃ tr s, Run step s₀ tr s ∧ tr.map Prod.snd = as ∧ p (tr, s) := by
  rw [Option.any_eq_true] at h
  obtain ⟨⟨tr, s⟩, hs, hp⟩ := h
  obtain ⟨hr, hl⟩ := Run.start.exec hs
  exact ⟨tr, s, hr, hl, by simpa using hp⟩

end SortingLine
