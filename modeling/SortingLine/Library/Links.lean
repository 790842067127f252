import Mathlib.Data.List.Nodup
import Mathlib.Logic.Function.Basic

/-!
# Singly linked lists

`Linked next p l`: the pointers `next` lead from `p` through the nodes of `l`, in order, to the null
pointer.  A list is changed at its front (`Linked.push`, `Linked.pop`) or behind its last node
(`Linked.append`), and by no store to a node that is not in it (`Linked.update`).
-/

namespace SortingLine

variable {ι : Type*} {next next' : ι → Option ι} {p p' : Option ι} {a b : ι} {l l' : List ι}

/-- The pointers lead from `p` through the nodes of the list to the null pointer. -/
def Linked (next : ι → Option ι) : Option ι → List ι → Prop
  | p, [] => p = none
  | p, a :: l => p = some a ∧ Linked next (next a) l

namespace Linked

@[simp]
theorem nil_iff : Linked next p [] ↔ p = none := Iff.rfl

@[simp]
theorem cons_iff : Linked next p (a :: l) ↔ p = some a ∧ Linked next (next a) l := Iff.rfl

theorem eq_head? (h : Linked next p l) : p = l.head? := by
  cases l with
  | nil => exact h
  | cons a l => exact h.1

theorem eq_none_iff (h : Linked next p l) : p = none ↔ l = [] := by
  rw [h.eq_head?, List.head?_eq_none_iff]

/-- The node that a pointer leads to is the first of its list. -/
theorem of_some (h : Linked next (some a) l) : ∃ l', l = a :: l' ∧ Linked next (next a) l' := by
  cases l with
  | nil => cases h
  | cons b l =>
    obtain ⟨hb, hl⟩ := h
    obtain rfl := Option.some.inj hb
    exact ⟨l, rfl, hl⟩

theorem congr (h : Linked next p l) (hnext : ∀ a ∈ l, next' a = next a) : Linked next' p l := by
  induction l generalizing p with
  | nil => exact h
  | cons a l ih =>
    refine ⟨h.1, ?_⟩
    rw [hnext a (List.mem_cons_self ..)]
    exact ih h.2 fun b hb => hnext b (List.mem_cons_of_mem _ hb)

section Stores

variable [DecidableEq ι]

/-- A store to another node. -/
theorem update (h : Linked next p l) (ha : a ∉ l) : Linked (Function.update next a p') p l :=
  h.congr fun b hb => Function.update_of_ne (by rintro rfl; exact ha hb) _ _

/-- A node is put in front. -/
theorem push (h : Linked next p l) (ha : a ∉ l) :
    Linked (Function.update next a p) (some a) (a :: l) :=
  ⟨rfl, by rw [Function.update_self]; exact h.update ha⟩

/-- A node that leads nowhere is put behind the last one. -/
theorem append (h : Linked next p (l ++ [b])) (hl : (l ++ [b]).Nodup) (ha : a ∉ l ++ [b])
    (hnext : next a = none) : Linked (Function.update next b (some a)) p (l ++ [b] ++ [a]) := by
  induction l generalizing p with
  | nil =>
    have hab : a ≠ b := by simpa using ha
    refine ⟨h.1, ?_⟩
    rw [Function.update_self]
    exact ⟨rfl, by rw [Function.update_of_ne hab, hnext]; rfl⟩
  | cons c l ih =>
    simp only [List.cons_append, List.nodup_cons, List.mem_cons, not_or] at hl ha h ⊢
    have hcb : c ≠ b := by
      rintro rfl
      exact hl.1 (by simp)
    refine ⟨h.1, ?_⟩
    rw [Function.update_of_ne hcb]
    exact ih h.2 hl.2 ha.2

end Stores

end Linked

end SortingLine
