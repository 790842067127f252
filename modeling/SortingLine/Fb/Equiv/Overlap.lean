import SortingLine.Fb.Equiv.Copyrect

/-!
# Rectangles that overlap

A strip is copied from its top left corner on, so a strip that is moved down, or straight to the
right, onto itself is overwritten before it is read (`Overwrites`).  With the strips in the order in
which `fb_copyrect` takes them nothing else goes wrong between two of them, but for the row above
the second strip in the branch that moves up (`WrongRow`).
-/

namespace SortingLine.Fb

variable {fb : Screen} {c : Copy}

namespace Copy

/-- The shift is in the order in which a strip is copied. -/
def Forward (c : Copy) : Prop := c.y1 < c.py ∨ c.py = c.y1 ∧ c.x1 < c.px

/-- A pixel of the source is still in it after one and after two shifts, and these are copied. -/
def Overwrites (fb : Screen) (c : Copy) : Prop :=
  c.Forward ∧ ∃ p ∈ c.rect, c.shift p ∈ c.rect ∧ c.shift (c.shift p) ∈ c.rect ∧
    c.Visible fb (c.shift p) ∧ c.Visible fb (c.shift (c.shift p))

/-- Moving up, the second strip begins a row above the end of the first one.  That row is outside of
the source, or it is copied again after it was overwritten. -/
def WrongRow (fb : Screen) (c : Copy) : Prop :=
  c.px = c.x1 ∧ c.py < c.y1 ∧ c.y1 ≤ c.py + c.y2 - c.y1 ∧
    ∃ x, c.x1 ≤ x ∧ x ≤ c.x2 ∧ c.Visible fb (x, c.py + c.y2 - c.y1 - 1) ∧
      (c.py + c.y2 - c.y1 = c.y1 ∨ c.py + 1 = c.y1 ∧ fb.InBound x (c.py + c.y2 - c.y1))

/-! ### Within a strip -/

/-- Row by row, from the left. -/
def Before (p q : ℤ × ℤ) : Prop := p.2 < q.2 ∨ p.2 = q.2 ∧ p.1 < q.1

theorem points_sorted : (c.points fb).Pairwise Before := by
  rw [points, List.pairwise_flatMap]
  refine ⟨fun y _ => ?_, (pairwise_lt_range _ _).imp fun hy p hp q hq => .inl ?_⟩
  · exact .filter _ ((pairwise_lt_range _ _).map _ fun x x' hx => .inr ⟨rfl, hx⟩)
  · simp only [List.mem_filter, List.mem_map] at hp hq
    obtain ⟨⟨x, -, rfl⟩, -⟩ := hp
    obtain ⟨⟨x', -, rfl⟩, -⟩ := hq
    exact hy

/-- In a list that is sorted, the earlier ones are the smaller ones. -/
theorem pairwise_iff_of_sorted {α : Type*} {r R : α → α → Prop} (hr : ∀ a b, r a b → ¬ r b a)
    {l : List α} (hl : l.Pairwise r) : l.Pairwise R ↔ ∀ a ∈ l, ∀ b ∈ l, r a b → R a b := by
  constructor
  · intro h
    induction l with
    | nil => exact fun a ha => absurd ha List.not_mem_nil
    | cons a l ih =>
      obtain ⟨hfirst, hl⟩ := List.pairwise_cons.mp hl
      obtain ⟨hR, h⟩ := List.pairwise_cons.mp h
      intro b hb b' hb' hlt
      rcases List.mem_cons.mp hb with rfl | hbl
      · rcases List.mem_cons.mp hb' with rfl | hbl'
        · exact absurd hlt (hr _ _ hlt)
        · exact hR b' hbl'
      · rcases List.mem_cons.mp hb' with rfl | hbl'
        · exact absurd hlt (hr _ _ (hfirst b hbl))
        · exact ih hl h b hbl b' hbl' hlt
  · exact fun h => hl.imp_of_mem fun ha hb hlt => h _ ha _ hb hlt

/-- A strip `s` can be copied unless a shift in its own order leaves a pixel in it. -/
theorem points_pairwise_iff {s : Copy} :
    (s.points fb).Pairwise (fun p q => c.shift p ≠ q) ↔
      (c.Forward → ∀ p ∈ s.points fb, c.shift p ∉ s.points fb) := by
  have hbefore : ∀ p, Before p (c.shift p) ↔ c.Forward := by
    intro p
    simp only [Before, Forward, shift]
    omega
  have hasymm : ∀ p q, Before p q → ¬ Before q p := by
    intro p q
    unfold Before
    omega
  rw [pairwise_iff_of_sorted hasymm points_sorted]
  constructor
  · intro h hforward p hp hq
    exact h p hp _ hq ((hbefore p).mpr hforward) rfl
  · rintro h p hp q hq hlt rfl
    exact h ((hbefore p).mp hlt) p hp hq

/-! ### Between strips -/

/-- A list of strips in an order that is right: each by itself, and each against the later ones. -/
def OrderOf (fb : Screen) (c : Copy) (l : List Copy) : Prop :=
  (∀ s ∈ l, c.Forward → ∀ p ∈ s.rect, c.shift p ∈ s.rect → c.Visible fb p →
    ¬ c.Visible fb (c.shift p)) ∧
    l.Pairwise fun s t => ∀ p ∈ s.rect, c.shift p ∈ t.rect → c.Visible fb p →
      ¬ c.Visible fb (c.shift p)

/-- The order of the pixels in terms of the strips. -/
theorem order_iff : ((∀ p, p ∈ c.order fb ↔ p ∈ c.source fb) ∧
    (c.order fb).Pairwise fun p q => c.shift p ≠ q) ↔
      (∀ p, c.Visible fb p → ((∃ s ∈ c.strips, p ∈ s.rect) ↔ p ∈ c.rect)) ∧
        OrderOf fb c c.strips := by
  have hmem : ∀ s ∈ c.strips, ∀ p, p ∈ s.points fb ↔ p ∈ s.rect ∧ c.Visible fb p := by
    intro s hs p
    rw [mem_points, Visible, Visible, strips_shift hs]
  refine and_congr (forall_congr' fun p => ?_) ?_
  · have horder : p ∈ c.order fb ↔ (∃ s ∈ c.strips, p ∈ s.rect) ∧ c.Visible fb p := by
      rw [order, List.mem_flatMap]
      constructor
      · rintro ⟨s, hs, hp⟩
        obtain ⟨hrect, hvis⟩ := (hmem s hs p).mp hp
        exact ⟨⟨s, hs, hrect⟩, hvis⟩
      · rintro ⟨⟨s, hs, hrect⟩, hvis⟩
        exact ⟨s, hs, (hmem s hs p).mpr ⟨hrect, hvis⟩⟩
    rw [horder]
    exact and_congr_left_iff
  · rw [order, List.pairwise_flatMap]
    refine and_congr ?_ ?_
    · refine forall₂_congr fun s hs => ?_
      rw [points_pairwise_iff]
      refine imp_congr_right fun _ => forall_congr' fun p => ?_
      rw [hmem s hs, hmem s hs]
      tauto
    · refine List.Pairwise.iff_of_mem fun {s t} hs ht => ?_
      constructor
      · intro h p hp hq hvis hvis'
        exact h p ((hmem s hs p).mpr ⟨hp, hvis⟩) _ ((hmem t ht _).mpr ⟨hq, hvis'⟩) rfl
      · rintro h p hp q hq rfl
        obtain ⟨hrect, hvis⟩ := (hmem s hs p).mp hp
        obtain ⟨hrect', hvis'⟩ := (hmem t ht _).mp hq
        exact h p hrect hrect' hvis hvis'

/-- Strips none of which is moved onto itself or a later one. -/
theorem orderOf_of_disjoint {l : List Copy}
    (hself : c.Forward → ∀ s ∈ l, ∀ p ∈ s.rect, c.shift p ∉ s.rect)
    (hlater : l.Pairwise fun s t => ∀ p ∈ s.rect, c.shift p ∉ t.rect) : OrderOf fb c l :=
  ⟨fun s hs hforward p hp hq => absurd hq (hself hforward s hs p hp),
    hlater.imp fun h p hp hq => absurd hq (h p hp)⟩

/-- The first strip is the part of the source that the destination covers, and only that may be
moved onto itself. -/
theorem orderOf_iff_of_first {s : Copy} {l : List Copy}
    (hs : ∀ p, c.shift p ∈ s.rect ↔ p ∈ c.rect ∧ c.shift p ∈ c.rect)
    (hself : ∀ t ∈ l, ∀ p ∈ t.rect, c.shift p ∉ t.rect)
    (hlater : (s :: l).Pairwise fun s t => ∀ p ∈ s.rect, c.shift p ∉ t.rect) :
    OrderOf fb c (s :: l) ↔ ¬ c.Overwrites fb := by
  constructor
  · rintro h ⟨hforward, p, hp, hp₁, hp₂, hvis₁, hvis₂⟩
    exact h.1 s List.mem_cons_self hforward (c.shift p) ((hs p).mpr ⟨hp, hp₁⟩)
      ((hs _).mpr ⟨hp₁, hp₂⟩) hvis₁ hvis₂
  · intro h
    refine ⟨fun t ht hforward p hp hq hvis hvis' => ?_,
      hlater.imp fun h p hp hq => absurd hq (h p hp)⟩
    rcases List.mem_cons.mp ht with rfl | ht
    · -- where `p` was moved from
      obtain ⟨o, rfl⟩ : ∃ o, c.shift o = p :=
        ⟨(p.1 - (c.px - c.x1), p.2 - (c.py - c.y1)), by simp [shift]⟩
      obtain ⟨ho, ho₁⟩ := (hs o).mp hp
      exact h ⟨hforward, o, ho, ho₁, ((hs _).mp hq).2, hvis, hvis'⟩
    · exact hself t ht p hp hq

end Copy

/-! ### The branches -/

/-- When a branch is taken. -/
def Direction.Holds (c : Copy) : Direction → Prop
  | .same => c.px = c.x1 ∧ c.py = c.y1
  | .down => c.px = c.x1 ∧ c.y1 < c.py ∧ c.py ≤ c.y2
  | .up => c.px = c.x1 ∧ c.py < c.y1 ∧ c.y1 ≤ c.py + c.y2 - c.y1
  | .right => c.py = c.y1 ∧ c.x1 < c.px ∧ c.px ≤ c.x2
  | .left => c.py = c.y1 ∧ c.px < c.x1 ∧ c.x1 ≤ c.px + c.x2 - c.x1
  | .rightDown => (c.x1 < c.px ∧ c.px ≤ c.x2) ∧ c.y1 < c.py ∧ c.py ≤ c.y2
  | .rightUp => (c.x1 < c.px ∧ c.px ≤ c.x2) ∧ c.y1 ≤ c.py + c.y2 - c.y1 ∧ c.py < c.y1
  | .leftUp => (c.x1 ≤ c.px + c.x2 - c.x1 ∧ c.px < c.x1) ∧ c.y1 ≤ c.py + c.y2 - c.y1 ∧ c.py < c.y1
  | .leftDown => (c.x1 ≤ c.px + c.x2 - c.x1 ∧ c.px < c.x1) ∧ c.y1 < c.py ∧ c.py ≤ c.y2
  | .apart => ∀ p ∈ c.rect, c.shift p ∉ c.rect

theorem branch_holds (c : Copy) : c.branch.Holds c := by
  unfold Copy.branch direction
  split_ifs
  case neg =>
    rintro p ⟨hx, hx', hy, hy'⟩ ⟨hz, hz', hw, hw'⟩
    simp only [Copy.shift] at hz hz' hw hw'
    omega
  all_goals
    simp only [Direction.Holds]
    omega

namespace Copy

theorem mem_rect {p : ℤ × ℤ} :
    p ∈ c.rect ↔ c.x1 ≤ p.1 ∧ p.1 ≤ c.x2 ∧ c.y1 ≤ p.2 ∧ p.2 ≤ c.y2 := Iff.rfl

/-- The order is right for a branch: every pixel is copied, and none after it was overwritten. -/
def RightOrder (fb : Screen) (c : Copy) : Prop :=
  (∀ p, c.Visible fb p → ((∃ s ∈ c.strips, p ∈ s.rect) ↔ p ∈ c.rect)) ∧ OrderOf fb c c.strips

theorem exists_mem_two {α : Type*} {P : α → Prop} {a b : α} :
    (∃ s ∈ [a, b], P s) ↔ P a ∨ P b := by
  simp

theorem exists_mem_three {α : Type*} {P : α → Prop} {a b d : α} :
    (∃ s ∈ [a, b, d], P s) ↔ P a ∨ P b ∨ P d := by
  simp

theorem pairwise_two {α : Type*} {R : α → α → Prop} {a b : α} : [a, b].Pairwise R ↔ R a b := by
  simp

theorem pairwise_three {α : Type*} {R : α → α → Prop} {a b d : α} :
    [a, b, d].Pairwise R ↔ R a b ∧ R a d ∧ R b d := by
  simp [and_assoc]

/-- To the right or down, in two strips. -/
theorem rightOrder_forward (hd : c.branch = .down ∨ c.branch = .right) :
    c.RightOrder fb ↔ ¬ c.Overwrites fb := by
  have h := branch_holds c
  rcases hd with hd | hd
  all_goals
    rw [hd, Direction.Holds] at h
    rw [RightOrder, strips, hd, SortingLine.Fb.strips, and_iff_right]
    · apply orderOf_iff_of_first
      · intro p
        simp only [mem_rect, shift]
        omega
      · simp only [List.mem_singleton, forall_eq, mem_rect, shift]
        omega
      · refine pairwise_two.mpr ?_
        simp only [mem_rect, shift]
        omega
    · intro p _
      simp only [exists_mem_two, mem_rect]
      omega

/-- Down and to a side, in three strips. -/
theorem rightOrder_sideDown (hd : c.branch = .rightDown ∨ c.branch = .leftDown) :
    c.RightOrder fb ↔ ¬ c.Overwrites fb := by
  have h := branch_holds c
  rcases hd with hd | hd
  all_goals
    rw [hd, Direction.Holds] at h
    rw [RightOrder, strips, hd, SortingLine.Fb.strips, and_iff_right]
    · apply orderOf_iff_of_first
      · intro p
        simp only [mem_rect, shift]
        omega
      · simp only [List.mem_cons, List.not_mem_nil, or_false, forall_eq_or_imp, forall_eq, mem_rect,
          shift]
        exact ⟨by omega, by omega⟩
      · refine pairwise_three.mpr ⟨?_, ?_, ?_⟩
        all_goals
          simp only [mem_rect, shift]
          omega
    · intro p _
      simp only [exists_mem_three, mem_rect]
      omega

theorem rightOrder_left (hd : c.branch = .left) : c.RightOrder fb := by
  have h := branch_holds c
  rw [hd, Direction.Holds] at h
  rw [RightOrder, strips, hd, SortingLine.Fb.strips]
  refine ⟨fun p _ => ?_, orderOf_of_disjoint (fun hforward => ?_) ?_⟩
  · simp only [exists_mem_two, mem_rect]
    omega
  · unfold Forward at hforward
    omega
  · refine pairwise_two.mpr ?_
    simp only [mem_rect, shift]
    omega

/-- Up and to a side, in three strips. -/
theorem rightOrder_sideUp (hd : c.branch = .rightUp ∨ c.branch = .leftUp) : c.RightOrder fb := by
  have h := branch_holds c
  rcases hd with hd | hd
  all_goals
    rw [hd, Direction.Holds] at h
    rw [RightOrder, strips, hd, SortingLine.Fb.strips]
    refine ⟨fun p _ => ?_, orderOf_of_disjoint (fun hforward => ?_) ?_⟩
    · simp only [exists_mem_three, mem_rect]
      omega
    · unfold Forward at hforward
      omega
    · refine pairwise_three.mpr ⟨?_, ?_, ?_⟩
      all_goals
        simp only [mem_rect, shift]
        omega

theorem rightOrder_apart (hd : c.branch = .apart) : c.RightOrder fb := by
  have h := branch_holds c
  rw [hd] at h
  rw [RightOrder, strips, hd, SortingLine.Fb.strips]
  refine ⟨fun p _ => by simp, orderOf_of_disjoint (fun _ => ?_) (List.pairwise_singleton _ _)⟩
  rw [List.forall_mem_singleton]
  exact h

/-- The second strip is right but for its first row. -/
theorem rightOrder_up (hd : c.branch = .up) : c.RightOrder fb ↔ ¬ c.WrongRow fb := by
  have h := branch_holds c
  rw [hd] at h
  obtain ⟨hx, hy, hy'⟩ := h
  rw [RightOrder, strips, hd, SortingLine.Fb.strips]
  constructor
  · rintro ⟨hmem, -, hlater⟩ ⟨-, -, -, x, hx₁, hx₂, hvis, hrow⟩
    rcases hrow with hrow | ⟨hstep, hin⟩
    · -- the row above the source
      have hout := hmem _ hvis
      simp only [exists_mem_two, mem_rect] at hout
      omega
    · -- the row is moved onto by the one below it, which is in the first strip
      have hshift : c.shift (x, c.py + c.y2 - c.y1) = (x, c.py + c.y2 - c.y1 - 1) := by
        simp only [shift, Prod.mk.injEq]
        omega
      have hpair := pairwise_two.mp hlater (x, c.py + c.y2 - c.y1)
      rw [hshift] at hpair
      refine hpair ⟨hx₁, hx₂, hy', le_rfl⟩ ⟨hx₁, hx₂, le_rfl, ?_⟩ ⟨hin, ?_⟩ hvis
      · dsimp only
        omega
      · rw [hshift]
        exact hvis.1
  · intro h
    refine ⟨fun p hvis => ?_, fun s _ hforward => ?_, pairwise_two.mpr ?_⟩
    · by_cases hrow : (c.x1 ≤ p.1 ∧ p.1 ≤ c.x2) ∧ p.2 = c.py + c.y2 - c.y1 - 1 ∧
          c.py + c.y2 - c.y1 = c.y1
      · obtain ⟨⟨hx₁, hx₂⟩, hp, hrow⟩ := hrow
        have hp : p = (p.1, c.py + c.y2 - c.y1 - 1) := Prod.ext rfl hp
        exact absurd ⟨hx, hy, hy', p.1, hx₁, hx₂, hp ▸ hvis, .inl hrow⟩ h
      · simp only [exists_mem_two, mem_rect]
        omega
    · unfold Forward at hforward
      omega
    · intro p hp hq hvis hvis'
      simp only [mem_rect, shift] at hp hq
      have hlast : p.2 = c.py + c.y2 - c.y1 := by omega
      have hshift : c.shift p = (p.1, c.py + c.y2 - c.y1 - 1) := by
        refine Prod.ext ?_ ?_
        · simp only [shift]
          omega
        · simp only [shift]
          omega
      exact h ⟨hx, hy, hy', p.1, hp.1, hp.2.1, hshift ▸ hvis', .inr ⟨by omega, hlast ▸ hvis.1⟩⟩

end Copy

/-! ### All directions -/

open Copy

theorem branch_eq_up (hx : c.px = c.x1) (hy : c.py < c.y1) (hy' : c.y1 ≤ c.py + c.y2 - c.y1) :
    c.branch = .up := by
  unfold Copy.branch direction
  rw [if_neg (by omega), if_neg (by omega), if_pos ⟨hx, hy, hy'⟩]

/-- Only the branch that moves up has a wrong row. -/
theorem not_wrongRow (hd : c.branch ≠ .up) : ¬ c.WrongRow fb :=
  fun ⟨hx, hy, hy', _⟩ => hd (branch_eq_up hx hy hy')

/-- Whether the pixels are copied in an order that is right, for a destination that is not the
source. -/
theorem rightOrder_iff (hne : ¬ (c.px = c.x1 ∧ c.py = c.y1)) :
    c.RightOrder fb ↔ ¬ c.Overwrites fb ∧ ¬ c.WrongRow fb := by
  have h := branch_holds c
  have hback : ¬ c.Forward → ¬ c.Overwrites fb := fun h h' => h h'.1
  unfold Forward at hback
  cases hd : c.branch with
  | same =>
    rw [hd] at h
    exact absurd h hne
  | down => rw [rightOrder_forward (.inl hd), and_iff_left (not_wrongRow (by simp [hd]))]
  | right => rw [rightOrder_forward (.inr hd), and_iff_left (not_wrongRow (by simp [hd]))]
  | rightDown => rw [rightOrder_sideDown (.inl hd), and_iff_left (not_wrongRow (by simp [hd]))]
  | leftDown => rw [rightOrder_sideDown (.inr hd), and_iff_left (not_wrongRow (by simp [hd]))]
  | up =>
    obtain ⟨-, hy, -⟩ := hd ▸ h
    rw [rightOrder_up hd, and_iff_right (hback (by omega))]
  | left =>
    obtain ⟨hy, hx, -⟩ := hd ▸ h
    exact iff_of_true (rightOrder_left hd) ⟨hback (by omega), not_wrongRow (by simp [hd])⟩
  | rightUp =>
    obtain ⟨-, -, hy⟩ := hd ▸ h
    exact iff_of_true (rightOrder_sideUp (.inl hd)) ⟨hback (by omega), not_wrongRow (by simp [hd])⟩
  | leftUp =>
    obtain ⟨-, -, hy⟩ := hd ▸ h
    exact iff_of_true (rightOrder_sideUp (.inr hd)) ⟨hback (by omega), not_wrongRow (by simp [hd])⟩
  | apart =>
    rw [hd] at h
    refine iff_of_true (rightOrder_apart hd) ⟨?_, not_wrongRow (by simp [hd])⟩
    rintro ⟨-, p, hp, hp', -⟩
    exact h p hp hp'

/-- Nothing is done where the destination is the source. -/
theorem copies_same (hx : c.px = c.x1) (hy : c.py = c.y1) : Copies fb c ↔ NoOverflow fb c := by
  have hbranch : c.branch = .same := by
    unfold Copy.branch direction
    rw [if_pos ⟨hx, hy⟩]
  have horder : c.order fb = [] := by
    rw [order, Copy.strips, hbranch]
    rfl
  have hshift : ∀ p, c.shift p = p := by
    intro p
    simp [shift, hx, hy]
  rw [copies_iff, and_iff_left_iff_imp, horder]
  exact fun _ s => ⟨fun p _ => congrArg s (hshift p), fun _ _ => rfl⟩

/-- **Copying a rectangle is a simultaneous copy** of its pixels just when no `int` overflows, no
strip is moved onto itself in its own order, and the branch that moves up has no wrong row. -/
theorem copies_rectangle_iff (fb : Screen) (c : Copy) :
    Copies fb c ↔ NoOverflow fb c ∧ ¬ c.Overwrites fb ∧ ¬ c.WrongRow fb := by
  by_cases hne : c.px = c.x1 ∧ c.py = c.y1
  · obtain ⟨hx, hy⟩ := hne
    have hforward : ¬ c.Forward := by
      unfold Forward
      omega
    have hwrong : ¬ c.WrongRow fb := fun h => absurd h.2.1 (by omega)
    rw [copies_same hx hy, and_iff_left ⟨fun h => hforward h.1, hwrong⟩]
  · rw [copies_iff_order hne, order_iff]
    exact and_congr_right fun _ => rightOrder_iff hne

/-- Three pixels of the first row, one to the right. -/
def threePixels : Copy := ⟨0, 0, 2, 0, 1, 0⟩

/-- The third pixel is overwritten by the second one before it is copied. -/
theorem not_copies_threePixels :
    threePixels.x1 ≤ threePixels.x2 ∧ threePixels.y1 ≤ threePixels.y2 ∧
      NoOverflow lcd threePixels ∧ ¬ Copies lcd threePixels := by
  refine ⟨by decide, by decide, ⟨_, rfl, ?_⟩, fun h => ?_⟩
  · rw [List.forall_mem_cons, List.forall_mem_singleton]
    constructor
    all_goals
      simp only [Fits, InInt, threePixels, lcd]
      exact ⟨by omega, by omega, fun y _ _ =>
        ⟨fun _ => ⟨by omega, fun _ x _ _ => ⟨fun _ => by omega, by omega⟩⟩, by omega⟩⟩
  · have horder := order_iff.mp ((copies_iff_order (by decide)).mp h).2
    have hkept := (rightOrder_forward (c := threePixels) (.inr rfl)).mp horder
    refine hkept ⟨.inr (by decide), (0, 0), ?_⟩
    exact ⟨⟨by decide, by decide, by decide, by decide⟩,
      ⟨by decide, by decide, by decide, by decide⟩,
      ⟨by decide, by decide, by decide, by decide⟩, by decide, by decide⟩

end SortingLine.Fb
