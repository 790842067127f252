import SortingLine.Library.Run
import Mathlib.Logic.Function.Basic

/-!
# Threads and a mutex

Threads run their programs under one recursive mutex, in any interleaving.  A program is a list of
sections, each a list of operations: taking the mutex, releasing it, and actions that nothing
guards.  A thread that takes the mutex waits until it is free or its own; a release by a thread that
does not hold it has no effect.

A section is bracketed if it takes the mutex first, releases it last, and only acts in between.
Where all sections are bracketed, only the owner of the mutex acts (`owner_of_act`), and the actions
of a section are not interleaved with those of another thread (`notInterleaved_of_bracketed`).
-/

namespace SortingLine.Mutex

variable {ι α : Type*}

/-- An operation of a thread. -/
inductive Op (α : Type*)
  | take
  | release
  | act (a : α)
deriving DecidableEq, Repr

/-- The mutex, and what each thread still has to do: the rest of its section, and the sections after
it. -/
structure State (ι α : Type*) where
  owner : Option ι
  hold : Nat
  rest : ι → List (List (Op α))

/-- The mutex is free, and nothing is done yet. -/
def start (program : ι → List (List (Op α))) : State ι α :=
  { owner := none, hold := 0, rest := program }

/-- The section takes the mutex, acts, and releases it. -/
def Bracketed (ops : List (Op α)) : Prop :=
  ∃ as : List α, ops = .take :: (as.map .act ++ [.release])

/-- The step is an action. -/
def Acts (x : State ι α × ι) : Prop :=
  ∃ a ops sections, x.1.rest x.2 = (.act a :: ops) :: sections

instance : DecidablePred (Acts : State ι α × ι → Prop) := fun x =>
  match h : x.1.rest x.2 with
  | (.act a :: ops) :: sections => isTrue ⟨a, ops, sections, h⟩
  | [] => isFalse fun ⟨_, _, _, h'⟩ => by simp [h] at h'
  | [] :: _ => isFalse fun ⟨_, _, _, h'⟩ => by simp [h] at h'
  | (.take :: _) :: _ => isFalse fun ⟨_, _, _, h'⟩ => by simp [h] at h'
  | (.release :: _) :: _ => isFalse fun ⟨_, _, _, h'⟩ => by simp [h] at h'

/-- The number of sections that a thread has still to do, with the one it is in. -/
def left (s : State ι α) (t : ι) : Nat := (s.rest t).length

/-- Between two actions of one section of a thread no other thread acts. -/
def NotInterleaved (tr : List (State ι α × ι)) : Prop :=
  ∀ tr₁ x tr₂ y tr₃, tr = tr₁ ++ x :: (tr₂ ++ y :: tr₃) → Acts x → Acts y → x.2 = y.2 →
    left x.1 x.2 = left y.1 x.2 → ∀ z ∈ tr₂, Acts z → z.2 = x.2

/-- Steps `i` and `j` are actions of one section, and step `k` is an action of another thread. -/
def interleavedAt [DecidableEq ι] (tr : List (State ι α × ι)) (i k j : Nat) : Bool :=
  match tr[i]?, tr[k]?, tr[j]? with
  | some x, some z, some y => Acts x ∧ Acts z ∧ Acts y ∧ x.2 = y.2 ∧
      left x.1 x.2 = left y.1 x.2 ∧ z.2 ≠ x.2 ∧ i < k ∧ k < j
  | _, _, _ => false

theorem not_notInterleaved_of_interleavedAt [DecidableEq ι] {tr : List (State ι α × ι)}
    {i k j : Nat} (h : interleavedAt tr i k j) : ¬ NotInterleaved tr := by
  unfold interleavedAt at h
  split at h
  case h_2 => cases h
  case h_1 x z y hx hz hy =>
    obtain ⟨hax, haz, hay, hxy, hleft, hne, hik, hkj⟩ := of_decide_eq_true h
    obtain ⟨hi, rfl⟩ := List.getElem?_eq_some_iff.mp hx
    obtain ⟨hj, rfl⟩ := List.getElem?_eq_some_iff.mp hy
    intro hno
    -- cut the run at `i` and at `j`
    refine hne (hno (tr.take i) tr[i] ((tr.drop (i + 1)).take (j - i - 1)) tr[j] (tr.drop (j + 1))
      ?_ hax hay hxy hleft z ?_ haz)
    · have hcut : (tr.drop (i + 1)).drop (j - i - 1) = tr[j] :: tr.drop (j + 1) := by
        rw [List.drop_drop, ← List.drop_eq_getElem_cons hj]
        congr 1
        omega
      rw [← hcut, List.take_append_drop, ← List.drop_eq_getElem_cons hi, List.take_append_drop]
    · refine List.mem_of_getElem? (i := k - i - 1) ?_
      rw [List.getElem?_take_of_lt (by omega), List.getElem?_drop, ← hz]
      congr 1
      omega

/-! ### Where a thread stands -/

variable {s s' : State ι α} {t u : ι}

/-- The thread is in a bracketed section, between the take and the release. -/
def Inside (s : State ι α) (t : ι) : Prop :=
  ∃ as : List α, ∃ sections, s.rest t = (as.map .act ++ [.release]) :: sections

/-- The thread is before a bracketed section, or behind one, or has ended. -/
def Outside (s : State ι α) (t : ι) : Prop :=
  s.rest t = [] ∨ ∃ ops sections, s.rest t = ops :: sections ∧ (ops = [] ∨ Bracketed ops)

theorem Outside.not_inside (h : Outside s t) : ¬ Inside s t := by
  rintro ⟨as, sections, has⟩
  rcases h with h | ⟨ops, sections', h, rfl | ⟨as', rfl⟩⟩
  · simp [h] at has
  · simp [h] at has
  · rw [h] at has
    cases as <;> simp at has

theorem Inside.congr (h : s'.rest t = s.rest t) : Inside s' t ↔ Inside s t := by
  rw [Inside, Inside, h]

theorem Outside.congr (h : s'.rest t = s.rest t) : Outside s' t ↔ Outside s t := by
  rw [Outside, Outside, h]

/-- Sections that are all bracketed are outside. -/
theorem outside_of_bracketed {sections : List (List (Op α))} (hr : s.rest t = sections)
    (h : ∀ ops ∈ sections, Bracketed ops) : Outside s t := by
  cases sections with
  | nil => exact .inl hr
  | cons ops sections => exact .inr ⟨ops, sections, hr, .inr (h ops (List.mem_cons_self ..))⟩

/-- What holds in all interleavings of bracketed programs: the threads stand inside or outside of a
section, and the owner of the mutex is the thread inside. -/
structure Inv (s : State ι α) : Prop where
  place : ∀ t, Inside s t ∨ Outside s t
  later : ∀ t, ∀ ops ∈ (s.rest t).tail, Bracketed ops
  owner : ∀ t, s.owner = some t ↔ Inside s t
  hold : ∀ t, s.owner = some t → s.hold = 1

theorem Inv.start {program : ι → List (List (Op α))}
    (h : ∀ t, ∀ ops ∈ program t, Bracketed ops) : Inv (start program) := by
  have hout (t : ι) : Outside (Mutex.start program) t := outside_of_bracketed rfl (h t)
  refine ⟨fun t => .inr (hout t), fun t ops hops => h t ops (List.mem_of_mem_tail hops),
    fun t => ?_, fun t ht => ?_⟩
  · exact iff_of_false (by simp [Mutex.start]) (hout t).not_inside
  · cases ht

/-- The thread has left the section that it was in when `n` sections were left. -/
def Past (n : Nat) (s : State ι α) (t : ι) : Prop :=
  left s t < n ∨ left s t = n ∧ (s.rest t).head? = some []

theorem Past.not_inside {n : Nat} (h : Past n s t) (hn : left s t = n) : ¬ Inside s t := by
  rintro ⟨as, sections, has⟩
  rcases h with h | ⟨-, h⟩
  · omega
  · simp [has] at h

/-! ### Steps -/

variable [DecidableEq ι]

/-- An operation of thread `t`, on the mutex alone; `none` while it waits. -/
def State.apply (s : State ι α) (t : ι) : Op α → Option (State ι α)
  | .take =>
    if s.owner = none then some { s with owner := some t, hold := 1 }
    else if s.owner = some t then some { s with hold := s.hold + 1 }
    else none
  | .release =>
    if s.owner = some t then
      if s.hold = 1 then some { s with owner := none, hold := 0 }
      else some { s with hold := s.hold - 1 }
    else some s
  | .act _ => some s

/-- Thread `t` takes its next operation, or goes on to its next section. -/
def step (s : State ι α) (t : ι) : Option (State ι α) :=
  match s.rest t with
  | [] => none
  | [] :: sections => some { s with rest := Function.update s.rest t sections }
  | (op :: ops) :: sections =>
    { s with rest := Function.update s.rest t (ops :: sections) }.apply t op

/-- **What a step does**: it goes on to the next section, or performs an operation. -/
theorem step_cases (h : step s t = some s') :
    (∃ sections, s.rest t = [] :: sections ∧
      s' = { s with rest := Function.update s.rest t sections }) ∨
    ∃ op ops sections, s.rest t = (op :: ops) :: sections ∧
      { s with rest := Function.update s.rest t (ops :: sections) }.apply t op = some s' := by
  unfold step at h
  split at h
  · cases h
  · next sections hr => exact .inl ⟨sections, hr, (Option.some.inj h).symm⟩
  · next op ops sections hr => exact .inr ⟨op, ops, sections, hr, h⟩

/-- Only the thread that moves changes its program. -/
theorem step_rest (h : step s t = some s') (hu : u ≠ t) : s'.rest u = s.rest u := by
  rcases step_cases h with ⟨sections, -, rfl⟩ | ⟨op, ops, sections, -, h⟩
  · exact Function.update_of_ne hu _ _
  · have hrest : s'.rest = Function.update s.rest t (ops :: sections) := by
      unfold State.apply at h
      split at h
      · split_ifs at h <;> (obtain rfl := Option.some.inj h; rfl)
      · split_ifs at h <;> (obtain rfl := Option.some.inj h; rfl)
      · obtain rfl := Option.some.inj h; rfl
    rw [hrest, Function.update_of_ne hu]

/-- **What a step does among bracketed programs**: the next section, the take by a thread outside of
any, an action of the thread inside, or its release. -/
inductive Moves (s s' : State ι α) (t : ι) : Prop
  | next (sections : List (List (Op α))) : s.rest t = [] :: sections → s'.rest t = sections →
      s'.owner = s.owner → s'.hold = s.hold → Moves s s' t
  | take (as : List α) (sections : List (List (Op α))) :
      s.rest t = (.take :: (as.map .act ++ [.release])) :: sections →
      s'.rest t = (as.map .act ++ [.release]) :: sections → s.owner = none → s'.owner = some t →
      s'.hold = 1 → Moves s s' t
  | act (a : α) (as : List α) (sections : List (List (Op α))) :
      s.rest t = (.act a :: (as.map .act ++ [.release])) :: sections →
      s'.rest t = (as.map .act ++ [.release]) :: sections → s'.owner = s.owner →
      s'.hold = s.hold → Moves s s' t
  | release (sections : List (List (Op α))) : s.rest t = [.release] :: sections →
      s'.rest t = [] :: sections → s.owner = some t → s'.owner = none → Moves s s' t

theorem Inv.moves (hs : Inv s) (h : step s t = some s') : Moves s s' t := by
  rcases step_cases h with ⟨sections, hr, rfl⟩ | ⟨op, ops, sections, hr, h⟩
  · exact .next sections hr (Function.update_self ..) rfl rfl
  · rcases hs.place t with hin | hout
    · -- inside: an action or the release
      have howner := (hs.owner t).mpr hin
      have hhold := hs.hold t howner
      obtain ⟨as, sections', has⟩ := hin
      rw [hr] at has
      obtain ⟨hops, rfl⟩ := List.cons.inj has
      cases as with
      | nil =>
        obtain ⟨rfl, rfl⟩ := List.cons.inj hops
        simp only [State.apply, howner, hhold, if_true] at h
        obtain rfl := Option.some.inj h
        exact .release sections hr (Function.update_self ..) howner rfl
      | cons a as =>
        obtain ⟨rfl, rfl⟩ := List.cons.inj hops
        obtain rfl := Option.some.inj h
        exact .act a as sections hr (Function.update_self ..) rfl rfl
    · -- outside: the take, and the mutex is not its own
      have hne : s.owner ≠ some t := fun howner => hout.not_inside ((hs.owner t).mp howner)
      rcases hout with hnil | ⟨ops', sections', hr', rfl | ⟨as, rfl⟩⟩
      · rw [hr] at hnil
        cases hnil
      · rw [hr] at hr'
        cases hr'
      · rw [hr] at hr'
        obtain ⟨hops, rfl⟩ := List.cons.inj hr'
        obtain ⟨rfl, rfl⟩ := List.cons.inj hops
        simp only [State.apply, if_neg hne] at h
        split_ifs at h with hfree
        obtain rfl := Option.some.inj h
        exact .take as sections hr (Function.update_self ..) hfree rfl rfl

/-- **The invariant is kept.** -/
theorem Inv.step (hs : Inv s) (h : step s t = some s') : Inv s' := by
  -- the owner and the thread that moves are all that can change
  suffices H : (Inside s' t ∨ Outside s' t) ∧ (∀ ops ∈ (s'.rest t).tail, Bracketed ops) ∧
      (∀ u, u ≠ t → (s'.owner = some u ↔ s.owner = some u)) ∧ (s'.owner = some t ↔ Inside s' t) ∧
      (∀ u, s'.owner = some u → s'.hold = 1) by
    obtain ⟨hplace, hlater, hother, howner, hhold⟩ := H
    refine ⟨fun u => ?_, fun u => ?_, fun u => ?_, hhold⟩ <;> obtain rfl | hu := eq_or_ne u t
    · exact hplace
    · rw [Inside.congr (step_rest h hu), Outside.congr (step_rest h hu)]
      exact hs.place u
    · exact hlater
    · rw [step_rest h hu]
      exact hs.later u
    · exact howner
    · rw [hother u hu, Inside.congr (step_rest h hu)]
      exact hs.owner u
  have hlater := hs.later t
  cases hs.moves h with
  | next sections hr hr' howner hhold =>
    rw [hr, List.tail_cons] at hlater
    have hout : Outside s' t := outside_of_bracketed hr' hlater
    have hout₀ : Outside s t := .inr ⟨[], sections, hr, .inl rfl⟩
    refine ⟨.inr hout, ?_, fun u _ => by rw [howner], ?_, fun u hu => ?_⟩
    · rw [hr']
      exact fun ops hops => hlater ops (List.mem_of_mem_tail hops)
    · rw [howner, hs.owner]
      exact iff_of_false hout₀.not_inside hout.not_inside
    · rw [hhold]
      exact hs.hold u (howner ▸ hu)
  | take as sections hr hr' hfree howner hhold =>
    rw [hr, List.tail_cons] at hlater
    have hin : Inside s' t := ⟨as, sections, hr'⟩
    refine ⟨.inl hin, by rwa [hr', List.tail_cons], fun u hu => ?_, iff_of_true howner hin,
      fun _ _ => hhold⟩
    rw [howner, hfree]
    simpa using hu.symm
  | act a as sections hr hr' howner hhold =>
    rw [hr, List.tail_cons] at hlater
    have hin : Inside s' t := ⟨as, sections, hr'⟩
    have hin₀ : Inside s t := ⟨a :: as, sections, hr⟩
    refine ⟨.inl hin, by rwa [hr', List.tail_cons], fun u _ => by rw [howner], ?_, fun u hu => ?_⟩
    · rw [howner, hs.owner]
      exact iff_of_true hin₀ hin
    · rw [hhold]
      exact hs.hold u (howner ▸ hu)
  | release sections hr hr' howner₀ howner =>
    rw [hr, List.tail_cons] at hlater
    have hout : Outside s' t := .inr ⟨[], sections, hr', .inl rfl⟩
    refine ⟨.inr hout, by rwa [hr', List.tail_cons], fun u hu => ?_, ?_, fun u hu => ?_⟩
    · rw [howner, howner₀]
      simpa using hu.symm
    · rw [howner]
      exact iff_of_false (by simp) hout.not_inside
    · rw [howner] at hu
      cases hu

/-- **Only the owner acts.** -/
theorem Inv.owner_of_acts (hs : Inv s) (h : Mutex.step s t = some s') (ha : Acts (s, t)) :
    Inside s t ∧ s.owner = some t := by
  obtain ⟨a, ops, sections, hr⟩ := ha
  have hin : Inside s t := by
    cases hs.moves h with
    | next sections' hr' => rw [hr] at hr'; cases hr'
    | take as sections' hr' => rw [hr] at hr'; cases hr'
    | act a' as sections' hr' => exact ⟨a' :: as, sections', hr'⟩
    | release sections' hr' => rw [hr] at hr'; cases hr'
  exact ⟨hin, (hs.owner t).mpr hin⟩

/-! ### No interleaving -/

theorem Past.step {n : Nat} (h : Past n s t) (hu : Mutex.step s u = some s') (hs : Inv s) :
    Past n s' t := by
  obtain rfl | hne := eq_or_ne t u
  · unfold Past left at *
    cases hs.moves hu with
    | next sections hr hr' => rw [hr] at h; rw [hr']; simp at h ⊢; omega
    | take as sections hr hr' => rw [hr] at h; rw [hr']; simp at h ⊢; omega
    | act a as sections hr hr' => rw [hr] at h; rw [hr']; simp at h ⊢; omega
    | release sections hr hr' => rw [hr] at h; rw [hr']; simp at h ⊢; omega
  · rwa [Past, left, step_rest hu hne]

/-- A thread inside a section stays there until it has left it. -/
theorem Inside.step {n : Nat} (h : Inside s t) (hn : left s t = n)
    (hu : Mutex.step s u = some s') (hs : Inv s) : Inside s' t ∧ left s' t = n ∨ Past n s' t := by
  obtain rfl | hne := eq_or_ne t u
  · obtain ⟨as, sections, has⟩ := h
    unfold Past left at *
    cases hs.moves hu with
    | next sections' hr => rw [hr] at has; simp at has
    | take as' sections' hr => rw [hr] at has; cases as <;> simp at has
    | act a as' sections' hr hr' =>
      refine .inl ⟨⟨as', sections', hr'⟩, ?_⟩
      rw [← hn, hr, hr', List.length_cons, List.length_cons]
    | release sections' hr hr' =>
      refine .inr (.inr ⟨?_, by rw [hr', List.head?_cons]⟩)
      rw [← hn, hr, hr', List.length_cons, List.length_cons]
  · rw [Inside.congr (step_rest hu hne), left, step_rest hu hne]
    exact .inl ⟨h, hn⟩

/-- **Sections are not interleaved**, in any run of bracketed programs. -/
theorem notInterleaved_of_bracketed {program : ι → List (List (Op α))}
    {tr : List (State ι α × ι)} (h : ∀ t, ∀ ops ∈ program t, Bracketed ops)
    (hr : Run step (start program) tr s) : NotInterleaved tr := by
  rintro tr₁ ⟨sx, t⟩ tr₂ ⟨sy, u⟩ tr₃ rfl hx hy rfl hleft ⟨sz, u⟩ hz hza
  have hinv {tr : List (State ι α × ι)} {s : State ι α} (hr : Run step (start program) tr s) :
      Inv s := hr.invariant (.start h) fun _ _ _ hs hstep => hs.step hstep
  -- cut the run at the three actions
  obtain ⟨s₁, hr₁, hr⟩ := hr.of_append
  obtain ⟨rfl, s₂, hstepx, hr⟩ := hr.of_cons
  obtain ⟨s₃, hr₂, hr⟩ := hr.of_append
  obtain ⟨rfl, s₄, hstepy, -⟩ := hr.of_cons
  obtain ⟨u₁, u₂, rfl⟩ := List.append_of_mem hz
  obtain ⟨s₅, hru₁, hru⟩ := hr₂.of_append
  obtain ⟨rfl, s₆, hstepz, hru₂⟩ := hru.of_cons
  have hinvx := hinv hr₁
  have hinvs {tr : List (State ι α × ι)} {s : State ι α} (hr : Run step s₂ tr s) : Inv s :=
    hr.invariant (hinvx.step hstepx) fun _ _ _ hs hstep => hs.step hstep
  have hinvz := hinvs hru₁
  obtain ⟨hinx, -⟩ := hinvx.owner_of_acts hstepx hx
  obtain ⟨hiny, -⟩ := (hinvs hr₂).owner_of_acts hstepy hy
  obtain ⟨-, hownerz⟩ := hinvz.owner_of_acts hstepz hza
  -- from `x` on its thread is inside, until it is past the section; at `y` it is not past it
  have hplace : Inv sz ∧ (Inside sz t ∧ left sz t = left sx t ∨ Past (left sx t) sz t) := by
    refine hru₁.invariant (I := fun v => Inv v ∧
      (Inside v t ∧ left v t = left sx t ∨ Past (left sx t) v t))
      ⟨hinvx.step hstepx, hinx.step rfl hstepx hinvx⟩ ?_
    rintro v w v' ⟨hv, ⟨hin, hn⟩ | hpast⟩ hstep
    · exact ⟨hv.step hstep, hin.step hn hstep hv⟩
    · exact ⟨hv.step hstep, .inr (hpast.step hstep hv)⟩
  rcases hplace.2 with ⟨hin, -⟩ | hpast
  · -- so at `z` it is the owner
    exact Option.some.inj (hownerz.symm.trans ((hinvz.owner t).mpr hin))
  · have hpasty : Inv sy ∧ Past (left sx t) sy t := by
      refine hru₂.invariant (I := fun v => Inv v ∧ Past (left sx t) v t)
        ⟨hinvz.step hstepz, hpast.step hstepz hinvz⟩ ?_
      rintro v w v' ⟨hv, hpast⟩ hstep
      exact ⟨hv.step hstep, hpast.step hstep hv⟩
    exact absurd hiny (hpasty.2.not_inside hleft.symm)

end SortingLine.Mutex
