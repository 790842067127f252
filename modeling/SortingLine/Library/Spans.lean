import Mathlib.Algebra.BigOperators.Group.List.Basic
import Mathlib.Algebra.Order.Ring.Nat
import Mathlib.Data.List.Chain

/-!
# Pieces laid one after the other

A list of pieces, each with a size and a tag, tiles an interval: `placed k bs` gives every piece the
place where it begins.  Pieces do not overlap (`disjoint_of_mem_placed`), and the places between
them are the boundaries (`Boundary`); no boundary lies inside a piece
(`le_or_le_of_mem_placed`).
-/

namespace SortingLine

/-- A piece of an interval. -/
structure Span (α : Type*) where
  size : ℕ
  tag : α
deriving DecidableEq, Repr

namespace Span

variable {α : Type*} {bs pre post : List (Span α)} {b b' : Span α} {k o o' x : ℕ}

/-- The size of all pieces together. -/
def total (bs : List (Span α)) : ℕ := (bs.map size).sum

/-- The pieces with their places, from `k` on. -/
def placed : ℕ → List (Span α) → List (ℕ × Span α)
  | _, [] => []
  | k, b :: bs => (k, b) :: placed (k + b.size) bs

/-- A place where a piece begins or ends. -/
def Boundary (bs : List (Span α)) (k : ℕ) : Prop := ∃ pre post, bs = pre ++ post ∧ k = total pre

@[simp]
theorem total_nil : total ([] : List (Span α)) = 0 := rfl

@[simp]
theorem total_cons (b : Span α) (bs : List (Span α)) : total (b :: bs) = b.size + total bs := by
  simp [total]

@[simp]
theorem total_append (bs cs : List (Span α)) : total (bs ++ cs) = total bs + total cs := by
  simp [total]

theorem placed_append (bs cs : List (Span α)) (k : ℕ) :
    placed k (bs ++ cs) = placed k bs ++ placed (k + total bs) cs := by
  induction bs generalizing k with
  | nil => rfl
  | cons b bs ih =>
    rw [List.cons_append, placed, ih, placed, total_cons, List.cons_append, Nat.add_assoc]

/-- The pieces around one. -/
theorem mem_placed_append_cons {c : Span α} : (o, b) ∈ placed 0 (pre ++ c :: post) ↔
    (o, b) ∈ placed 0 pre ∨ (o = total pre ∧ b = c) ∨
      (o, b) ∈ placed (total pre + c.size) post := by
  rw [placed_append, List.mem_append, placed, List.mem_cons, Nat.zero_add, Prod.mk.injEq]

theorem mem_placed_iff :
    (o, b) ∈ placed k bs ↔ ∃ pre post, bs = pre ++ b :: post ∧ o = k + total pre := by
  induction bs generalizing k with
  | nil => simp [placed]
  | cons c bs ih =>
    rw [placed, List.mem_cons, ih]
    constructor
    · rintro (h | ⟨pre, post, rfl, rfl⟩)
      · obtain ⟨rfl, rfl⟩ := Prod.mk.inj h
        exact ⟨[], bs, rfl, rfl⟩
      · exact ⟨c :: pre, post, rfl, by rw [total_cons]; omega⟩
    · rintro ⟨pre, post, h, rfl⟩
      cases pre with
      | nil =>
        obtain ⟨rfl, rfl⟩ := List.cons.inj h
        exact .inl rfl
      | cons d pre =>
        obtain ⟨rfl, rfl⟩ := List.cons.inj h
        exact .inr ⟨pre, post, rfl, by rw [total_cons]; omega⟩

theorem mem_placed_append (pre post : List (Span α)) (b : Span α) :
    (total pre, b) ∈ placed 0 (pre ++ b :: post) :=
  mem_placed_iff.mpr ⟨pre, post, rfl, (Nat.zero_add _).symm⟩

theorem mem_of_mem_placed (h : (o, b) ∈ placed k bs) : b ∈ bs := by
  obtain ⟨pre, post, rfl, -⟩ := mem_placed_iff.mp h
  simp

theorem bounds_of_mem_placed (h : (o, b) ∈ placed k bs) : k ≤ o ∧ o + b.size ≤ k + total bs := by
  obtain ⟨pre, post, rfl, rfl⟩ := mem_placed_iff.mp h
  rw [total_append, total_cons]
  omega

theorem le_total_of_mem_placed (h : (o, b) ∈ placed 0 bs) : o + b.size ≤ total bs := by
  obtain ⟨pre, post, rfl, rfl⟩ := mem_placed_iff.mp h
  rw [total_append, total_cons]
  omega

theorem Boundary.le_total (h : Boundary bs k) : k ≤ total bs := by
  obtain ⟨pre, post, rfl, rfl⟩ := h
  rw [total_append]
  omega

theorem boundary_total (pre post : List (Span α)) : Boundary (pre ++ post) (total pre) :=
  ⟨pre, post, rfl, rfl⟩

/-- When a piece is cut into smaller ones, the boundaries stay. -/
theorem Boundary.cut (h : Boundary (pre ++ b :: post) k) (cs : List (Span α))
    (hsize : b.size = total cs) : Boundary (pre ++ (cs ++ post)) k := by
  obtain ⟨xs, ys, heq, rfl⟩ := h
  rcases List.append_eq_append_iff.mp heq with ⟨mid, rfl, hmid⟩ | ⟨mid, rfl, -⟩
  · cases mid with
    | nil => exact ⟨pre, cs ++ post, rfl, by simp⟩
    | cons c mid =>
      obtain ⟨rfl, rfl⟩ := List.cons.inj hmid
      refine ⟨pre ++ (cs ++ mid), ys, by simp, ?_⟩
      simp only [total_append, total_cons, hsize]
  · exact ⟨xs, mid ++ (cs ++ post), by simp, rfl⟩

/-- **No boundary lies inside a piece.** -/
theorem le_or_le_of_mem_placed (h : (o, b) ∈ placed 0 bs) (hk : Boundary bs k) :
    k ≤ o ∨ o + b.size ≤ k := by
  obtain ⟨pre, post, rfl, rfl⟩ := mem_placed_iff.mp h
  obtain ⟨pre', post', heq, rfl⟩ := hk
  rcases List.append_eq_append_iff.mp heq with ⟨mid, rfl, hmid⟩ | ⟨mid, rfl, -⟩
  · cases mid with
    | nil => exact .inl (by simp)
    | cons c mid =>
      obtain ⟨rfl, -⟩ := List.cons.inj hmid
      exact .inr (by simp only [total_append, total_cons]; omega)
  · exact .inl (by rw [total_append]; omega)

theorem boundary_of_mem_placed (h : (o, b) ∈ placed 0 bs) : Boundary bs o := by
  obtain ⟨pre, post, rfl, rfl⟩ := mem_placed_iff.mp h
  exact ⟨pre, b :: post, rfl, Nat.zero_add _⟩

/-- **Pieces do not overlap.** -/
theorem disjoint_of_mem_placed (h : (o, b) ∈ placed 0 bs) (h' : (o', b') ∈ placed 0 bs)
    (hlt : o < o') : o + b.size ≤ o' := by
  have := le_or_le_of_mem_placed h (boundary_of_mem_placed h')
  omega

/-- At one place there is one piece. -/
theorem eq_of_mem_placed (hpos : ∀ c ∈ bs, 0 < c.size) (h : (o, b) ∈ placed 0 bs)
    (h' : (o, b') ∈ placed 0 bs) : b = b' := by
  obtain ⟨pre, post, rfl, rfl⟩ := mem_placed_iff.mp h
  obtain ⟨pre', post', heq, htotal⟩ := mem_placed_iff.mp h'
  rcases List.append_eq_append_iff.mp heq with ⟨mid, rfl, hmid⟩ | ⟨mid, rfl, hmid⟩
  · cases mid with
    | nil => exact (List.cons.inj hmid).1
    | cons c mid =>
      obtain ⟨rfl, -⟩ := List.cons.inj hmid
      have := hpos b (by simp)
      simp only [total_append, total_cons] at htotal
      omega
  · cases mid with
    | nil => exact (List.cons.inj hmid).1.symm
    | cons c mid =>
      obtain ⟨rfl, -⟩ := List.cons.inj hmid
      have := hpos b' (by simp)
      simp only [total_append, total_cons] at htotal
      omega

end Span

end SortingLine
