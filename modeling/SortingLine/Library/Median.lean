import Mathlib.Data.List.Sort

/-!
# Medians

The median of a list is read off its elements in ascending order: the one in the middle or, for an
even number of elements, a mean of the two in the middle.  A list has at most one median, whichever
way it was sorted (`IsMedian.unique`), and a median lies between any two bounds of the elements
(`IsMedian.bounded`).
-/

namespace SortingLine

variable {α : Type*} (mean : α → α → α)

/-- `m` is what stands in the middle of `s`. -/
def IsMiddle (s : List α) (m : α) : Prop :=
  if s.length % 2 = 1 then s[s.length / 2]? = some m
  else ∃ a b, s[s.length / 2 - 1]? = some a ∧ s[s.length / 2]? = some b ∧ m = mean a b

/-- `m` is the median of `xs`. -/
def IsMedian [LE α] (xs : List α) (m : α) : Prop :=
  ∃ s : List α, s.Perm xs ∧ s.Pairwise (· ≤ ·) ∧ IsMiddle mean s m

variable {mean} {xs s : List α} {m m' lo hi : α}

theorem IsMiddle.unique (h : IsMiddle mean s m) (h' : IsMiddle mean s m') : m = m' := by
  unfold IsMiddle at h h'
  split_ifs at h h' with hodd
  · rw [h] at h'
    exact Option.some.inj h'
  · obtain ⟨a, b, ha, hb, rfl⟩ := h
    obtain ⟨a', b', ha', hb', rfl⟩ := h'
    rw [ha] at ha'
    rw [hb] at hb'
    rw [Option.some.inj ha', Option.some.inj hb']

theorem IsMedian.of_perm [LE α] {ys : List α} (h : IsMedian mean xs m) (hp : xs.Perm ys) :
    IsMedian mean ys m := by
  obtain ⟨s, hs, hm⟩ := h
  exact ⟨s, hs.trans hp, hm⟩

variable [LE α] [Std.IsLinearOrder α]

theorem IsMedian.unique (h : IsMedian mean xs m) (h' : IsMedian mean xs m') : m = m' := by
  obtain ⟨s, hp, hs, hm⟩ := h
  obtain ⟨s', hp', hs', hm'⟩ := h'
  obtain rfl : s = s' :=
    List.Perm.eq_of_pairwise (fun _ _ _ _ => Std.le_antisymm) hs hs' (hp.trans hp'.symm)
  exact hm.unique hm'

/-- **The median lies between any bounds of the elements**, if a mean lies between its arguments. -/
theorem IsMedian.bounded (hmean : ∀ a b : α, a ≤ b → a ≤ mean a b ∧ mean a b ≤ b)
    (h : IsMedian mean xs m) (hb : ∀ x ∈ xs, lo ≤ x ∧ x ≤ hi) : lo ≤ m ∧ m ≤ hi := by
  obtain ⟨s, hp, hs, hm⟩ := h
  have hmem {i : ℕ} {x : α} (hx : s[i]? = some x) : lo ≤ x ∧ x ≤ hi :=
    hb x (hp.mem_iff.mp (List.mem_of_getElem? hx))
  unfold IsMiddle at hm
  split_ifs at hm with hodd
  · exact hmem hm
  · obtain ⟨a, b, ha, hb, rfl⟩ := hm
    have hab : a ≤ b := by
      obtain ⟨hi, rfl⟩ := List.getElem?_eq_some_iff.mp ha
      obtain ⟨hj, rfl⟩ := List.getElem?_eq_some_iff.mp hb
      rcases Nat.lt_or_ge (s.length / 2 - 1) (s.length / 2) with hlt | hge
      · exact List.pairwise_iff_getElem.mp hs _ _ hi hj hlt
      · -- an empty list has no middle
        omega
    obtain ⟨hle, hge⟩ := hmean a b hab
    exact ⟨Std.le_trans (hmem ha).1 hle, Std.le_trans hge (hmem hb).2⟩

end SortingLine
