import Mathlib.Algebra.Order.Ring.Int
import Mathlib.Data.List.Induction
import Mathlib.Data.Set.Function
import Mathlib.Logic.Function.Basic

/-!
# Moves done one after the other

A list of places is worked off in order: what is at `p` is copied to `f p` (`moves`).  When does
that have the effect of copying all of them at once (`Simultaneous`)?  No place may be overwritten
before it is read, so of two places of the list the earlier one must not be moved onto the later one
(`simultaneous_iff`).  The effect is described by where the contents of each place come from, which
are the moves of the identity (`moves_eq_comp`).  No chain of moves comes back to where it began, as
a function `h` grows along `f`.
-/

namespace SortingLine

variable {P V : Type*} [DecidableEq P] {f : P → P} {l : List P} {p q : P}

/-- The moves of a list. -/
def moves (f : P → P) (l : List P) (s : P → V) : P → V :=
  l.foldl (fun s p => Function.update s (f p) (s p)) s

/-- All places of a set are moved at once. -/
structure Simultaneous (f : P → P) (S : Set P) (s s' : P → V) : Prop where
  moved : ∀ p ∈ S, s' (f p) = s p
  kept : ∀ q, (∀ p ∈ S, f p ≠ q) → s' q = s q

theorem moves_concat (s : P → V) :
    moves f (l ++ [p]) s = Function.update (moves f l s) (f p) (moves f l s p) := by
  unfold moves
  rw [List.foldl_append]
  rfl

/-- **Origins**: the moves do not look at what they move. -/
theorem moves_eq_comp (s : P → V) : moves f l s = s ∘ moves f l id := by
  induction l using List.reverseRecOn with
  | nil => rfl
  | append_singleton l p ih =>
    rw [moves_concat, moves_concat, Function.comp_update, ← ih]
    exact congrArg _ (congrFun ih p)

/-- A place that nothing is moved to. -/
theorem moves_of_forall_ne (s : P → V) (h : ∀ p ∈ l, f p ≠ q) : moves f l s q = s q := by
  induction l using List.reverseRecOn with
  | nil => rfl
  | append_singleton l p ih =>
    simp only [List.forall_mem_append, List.forall_mem_singleton] at h
    rw [moves_concat, Function.update_of_ne h.2.symm]
    exact ih h.1

/-- A place that nothing is moved to is moved as it is. -/
theorem moves_of_mem (hf : Function.Injective f) (s : P → V) (hp : p ∈ l)
    (h : ∀ p' ∈ l, f p' ≠ p) : moves f l s (f p) = s p := by
  induction l using List.reverseRecOn with
  | nil => exact absurd hp List.not_mem_nil
  | append_singleton l p' ih =>
    simp only [List.forall_mem_append, List.forall_mem_singleton] at h
    rw [moves_concat]
    by_cases heq : p = p'
    · rw [← heq, Function.update_self]
      exact moves_of_forall_ne s h.1
    · rw [Function.update_of_ne (hf.ne heq)]
      exact ih ((List.mem_append.mp hp).resolve_right (by simpa using heq)) h.1

/-- **In the right order**, all are moved at once. -/
theorem simultaneous_of_pairwise (hf : Function.Injective f) {S : Set P} (hS : ∀ p, p ∈ l ↔ p ∈ S)
    (h : l.Pairwise fun p q => f p ≠ q) (s : P → V) : Simultaneous f S s (moves f l s) := by
  refine ⟨fun p hp => ?_, fun q hq => moves_of_forall_ne s fun p hp => hq p ((hS p).mp hp)⟩
  have hmem := (hS p).mpr hp
  clear hS hp
  induction l using List.reverseRecOn with
  | nil => exact absurd hmem List.not_mem_nil
  | append_singleton l p' ih =>
    obtain ⟨hl, -, hlast⟩ := List.pairwise_append.mp h
    rw [moves_concat]
    by_cases heq : p = p'
    · rw [← heq, Function.update_self]
      exact moves_of_forall_ne s fun p₀ hp₀ => hlast p₀ hp₀ p (by simp [heq])
    · rw [Function.update_of_ne (hf.ne heq)]
      exact ih hl ((List.mem_append.mp hmem).resolve_right (by simpa using heq))

/-! ### Places that matter -/

section Region

variable {A : Set P} (hl : ∀ p ∈ l, p ∈ A ∧ f p ∈ A) {s s' : P → V} (heq : ∀ p ∈ A, s p = s' p)
include hl heq

/-- Moves within a region do not depend on the rest. -/
theorem moves_congr : ∀ q ∈ A, moves f l s q = moves f l s' q := by
  induction l using List.reverseRecOn with
  | nil => exact heq
  | append_singleton l p ih =>
    simp only [List.forall_mem_append, List.forall_mem_singleton] at hl
    intro q hq
    rw [moves_concat, moves_concat]
    by_cases hp : q = f p
    · rw [hp, Function.update_self, Function.update_self]
      exact ih hl.1 p hl.2.1
    · rw [Function.update_of_ne hp, Function.update_of_ne hp]
      exact ih hl.1 q hq

theorem simultaneous_congr {S : Set P} (hS : ∀ p ∈ S, p ∈ A ∧ f p ∈ A)
    (h : Simultaneous f S s (moves f l s)) : Simultaneous f S s' (moves f l s') := by
  refine ⟨fun p hp => ?_, fun q hq => ?_⟩
  · rw [← moves_congr hl heq _ (hS p hp).2, h.moved p hp, heq p (hS p hp).1]
  · by_cases hA : q ∈ A
    · rw [← moves_congr hl heq q hA, h.kept q hq, heq q hA]
    · exact moves_of_forall_ne s' fun p hp hpq => hA (hpq ▸ (hl p hp).2)

end Region

/-! ### The converse -/

section Potential

variable {h : P → ℤ} (hh : ∀ p, h p < h (f p))
include hh

/-- Contents come from where they are or from further below. -/
theorem origin_le (q : P) : h (moves f l id q) ≤ h q := by
  induction l using List.reverseRecOn generalizing q with
  | nil => exact le_rfl
  | append_singleton l p ih =>
    rw [moves_concat]
    by_cases heq : q = f p
    · rw [heq, Function.update_self]
      exact (ih p).trans (hh p).le
    · rw [Function.update_of_ne heq]
      exact ih q

/-- What was moved somewhere comes from further below. -/
theorem origin_lt (hp : p ∈ l) : h (moves f l id (f p)) < h (f p) := by
  induction l using List.reverseRecOn with
  | nil => exact absurd hp List.not_mem_nil
  | append_singleton l p' ih =>
    rw [moves_concat]
    by_cases heq : f p = f p'
    · rw [heq, Function.update_self]
      exact (origin_le hh p').trans_lt (hh p')
    · rw [Function.update_of_ne heq]
      have hne : p ≠ p' := fun hpp => heq (congrArg f hpp)
      exact ih ((List.mem_append.mp hp).resolve_right (by simpa using hne))

/-- Where all that is moved comes from its own place, nothing is overwritten before it is read. -/
theorem pairwise_of_origin (hf : Function.Injective f)
    (hl : ∀ p ∈ l, moves f l id (f p) = p) : l.Pairwise fun p q => f p ≠ q := by
  induction l using List.reverseRecOn with
  | nil => exact .nil
  | append_singleton l p ih =>
    have hlast : moves f l id p = p := by
      have hself := hl p (by simp)
      rwa [moves_concat, Function.update_self] at hself
    have hp : ∀ p' ∈ l, f p' ≠ p := by
      rintro p' hp' rfl
      exact absurd (origin_lt hh hp') (by rw [hlast]; exact lt_irrefl _)
    have hprefix : ∀ p' ∈ l, moves f l id (f p') = p' := by
      intro p' hp'
      by_cases heq : p' = p
      · rw [heq]
        exact moves_of_mem hf id (heq ▸ hp') hp
      · have hself := hl p' (by simp [hp'])
        rwa [moves_concat, Function.update_of_ne (hf.ne heq)] at hself
    exact List.pairwise_append.mpr ⟨ih hprefix, List.pairwise_singleton _ _, fun p' hp' q hq => by
      rw [List.mem_singleton.mp hq]
      exact hp p' hp'⟩

/-- **When moves can be done one after the other**: the list is the set, and no place of it is moved
onto a later one. -/
theorem simultaneous_iff (hf : Function.Injective f) {S : Set P} {a b : V} (hab : a ≠ b) :
    (∀ s : P → V, Simultaneous f S s (moves f l s)) ↔
      (∀ p, p ∈ l ↔ p ∈ S) ∧ l.Pairwise fun p q => f p ≠ q := by
  constructor
  · intro hall
    -- a picture that tells one place from all others shows where it has gone
    have horigin : ∀ {q o : P}, (∀ s : P → V, moves f l s q = s o) → moves f l id q = o := by
      intro q o heq
      have hmark := heq (Function.update (fun _ => b) o a)
      rw [moves_eq_comp, Function.comp_apply, Function.update_self] at hmark
      by_contra hne
      rw [Function.update_of_ne hne] at hmark
      exact hab hmark.symm
    have hmoved : ∀ p ∈ S, moves f l id (f p) = p :=
      fun p hp => horigin fun s => (hall s).moved p hp
    have hmem : ∀ p, p ∈ l ↔ p ∈ S := by
      intro p
      constructor
      · intro hp
        by_contra hS
        have hkept : moves f l id (f p) = f p :=
          horigin fun s => (hall s).kept (f p) fun p' hp' heq => hS (hf heq ▸ hp')
        exact absurd (origin_lt hh hp) (by rw [hkept]; exact lt_irrefl _)
      · intro hp
        by_contra hl
        have hself : moves f l id (f p) = f p :=
          moves_of_forall_ne id fun p' hp' heq => hl (hf heq ▸ hp')
        exact (hh p).ne ((congrArg h (hmoved p hp)).symm.trans (congrArg h hself))
    exact ⟨hmem, pairwise_of_origin hh hf fun p hp => hmoved p ((hmem p).mp hp)⟩
  · rintro ⟨hmem, hl⟩ s
    exact simultaneous_of_pairwise hf hmem hl s

end Potential

end SortingLine
