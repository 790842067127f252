import SortingLine.Rtos.Equiv.MemBlocks

/-!
# Joining free blocks

`plug_holes` joins a block that has become free with the free blocks beside it, so that no two free
blocks lie next to each other (`Coalesced`).  What a join leaves alone is a relation between the
states before and after it (`Joins`): the used blocks, all bytes outside of headers, and that
`lfree` is the place of a free block, or of the lowest one.
-/

namespace SortingLine.Heap

open Memory Span

variable {s s' s'' : Heap} {bs bs' bs'' pre post : List Block} {a b : Block} {k l o z : ℕ}

/-- No two free blocks lie next to each other. -/
def Coalesced (bs : List Block) : Prop := bs.IsChain fun a b => a.tag = true ∨ b.tag = true

/-- `lfree` is the place of a free block, or it is `heap_end`. -/
def LfreeAt (l : ℕ) (bs : List Block) : Prop :=
  l = total bs ∨ ∃ b, (l, b) ∈ placed 0 bs ∧ b.tag = false

/-- No free block lies below `lfree`. -/
def Lowest (l : ℕ) (bs : List Block) : Prop := ∀ o b, (o, b) ∈ placed 0 bs → b.tag = false → l ≤ o

/-- The size of the used blocks. -/
def usedTotal (bs : List Block) : ℕ := total (bs.filter Span.tag)

@[simp]
theorem usedTotal_nil : usedTotal [] = 0 := rfl

@[simp]
theorem usedTotal_append (xs ys : List Block) :
    usedTotal (xs ++ ys) = usedTotal xs + usedTotal ys := by
  simp [usedTotal]

theorem usedTotal_cons (b : Block) (bs : List Block) :
    usedTotal (b :: bs) = (if b.tag then b.size else 0) + usedTotal bs := by
  unfold usedTotal
  rw [List.filter_cons]
  split_ifs
  · rw [total_cons]
  · rw [Nat.zero_add]

/-- Free blocks may have been joined. -/
structure Joins (s : Heap) (bs : List Block) (s' : Heap) (bs' : List Block) : Prop where
  tiled : s'.Tiled bs'
  keeps : s.Keeps s' bs
  boundary : ∀ k, Boundary bs' k → Boundary bs k
  used : ∀ o b, b.tag = true → ((o, b) ∈ placed 0 bs' ↔ (o, b) ∈ placed 0 bs)
  usedTotal : usedTotal bs' = usedTotal bs
  lfreeAt : LfreeAt s.lfree bs → LfreeAt s'.lfree bs'
  lfree_le : s'.lfree ≤ s.lfree
  lowest : Lowest s.lfree bs → Lowest s'.lfree bs'
  memSizeAligned : s'.memSizeAligned = s.memSizeAligned
  usedMem : s'.usedMem = s.usedMem
  maxMem : s'.maxMem = s.maxMem

theorem Keeps.trans (h : s.Keeps s' bs) (h' : s'.Keeps s'' bs')
    (hb : ∀ k, Boundary bs' k → Boundary bs k) : s.Keeps s'' bs := fun x hx =>
  (h' x fun k hk => hx k (hb k hk)).trans (h x hx)

theorem Joins.refl (ht : s.Tiled bs) : Joins s bs s bs :=
  ⟨ht, fun _ _ => rfl, fun _ h => h, fun _ _ _ => Iff.rfl, rfl, id, le_rfl, id, rfl, rfl, rfl⟩

theorem Joins.trans (h : Joins s bs s' bs') (h' : Joins s' bs' s'' bs'') : Joins s bs s'' bs'' where
  tiled := h'.tiled
  keeps := h.keeps.trans h'.keeps h.boundary
  boundary k hk := h.boundary k (h'.boundary k hk)
  used o b hb := (h'.used o b hb).trans (h.used o b hb)
  usedTotal := h'.usedTotal.trans h.usedTotal
  lfreeAt hl := h'.lfreeAt (h.lfreeAt hl)
  lfree_le := h'.lfree_le.trans h.lfree_le
  lowest hl := h'.lowest (h.lowest hl)
  memSizeAligned := h'.memSizeAligned.trans h.memSizeAligned
  usedMem := h'.usedMem.trans h.usedMem
  maxMem := h'.maxMem.trans h.maxMem

/-- Two free blocks are joined, and `lfree` is moved with the second one. -/
theorem Tiled.joins {next : ℕ} (ht : s.Tiled (pre ++ a :: b :: post)) (ha : a.tag = false)
    (hb : b.tag = false) (hnext : next = Span.total pre + a.size + b.size) :
    let s₁ := if s.lfree = Span.total pre + a.size then { s with lfree := Span.total pre } else s
    Joins s (pre ++ a :: b :: post)
      ((s₁.modify (Span.total pre) fun h => { h with next }).modify next
        fun h => { h with prev := Span.total pre })
      (pre ++ ⟨a.size + b.size, a.tag⟩ :: post) := by
  intro s₁
  have hs₁ : s₁ = { s with
      lfree := if s.lfree = Span.total pre + a.size then Span.total pre else s.lfree } := by
    simp only [s₁]
    split_ifs <;> rfl
  have ht₁ : s₁.Tiled (pre ++ a :: b :: post) := by
    rw [hs₁]
    exact ⟨ht.walk.congr ht.size fun _ _ _ => rfl, ht.total, ht.size, ht.align, ht.ends, ht.bound⟩
  have hsize := ht.size
  simp only [List.forall_mem_append, List.forall_mem_cons] at hsize
  have hbyte : s₁.byte = s.byte := by rw [hs₁]
  have hlfree : ((s₁.modify (Span.total pre) fun h => { h with next }).modify next
      fun h => { h with prev := Span.total pre }).lfree =
        if s.lfree = Span.total pre + a.size then Span.total pre else s.lfree := by
    rw [modify, lfree_put, modify, lfree_put, hs₁]
  refine ⟨ht₁.join hnext, fun x hx => ?_, fun k hk => by simpa using hk.cut [a, b] (by simp),
    fun o c hc => ?_, ?_, fun hl => ?_, ?_, fun hl => ?_, ?_, ?_, ?_⟩
  · -- both headers are at boundaries
    have hfirst : Boundary (pre ++ a :: b :: post) (Span.total pre) := boundary_total _ _
    have hthird : Boundary (pre ++ a :: b :: post) next :=
      ⟨pre ++ [a, b], post, by simp, by rw [hnext]; simp [Nat.add_assoc]⟩
    rw [modify, byte_put_of_outside (hx _ hthird), modify, byte_put_of_outside (hx _ hfirst), hbyte]
  · have hne : c ≠ ⟨a.size + b.size, a.tag⟩ := by
      rintro rfl
      rw [ha] at hc
      cases hc
    have hnea : c ≠ a := fun h => by simp [h, ha] at hc
    have hneb : c ≠ b := fun h => by simp [h, hb] at hc
    simp only [mem_placed_append_cons, placed, List.mem_cons, Prod.mk.injEq, hne, hnea, hneb,
      and_false, false_or, Nat.add_assoc]
  · simp [usedTotal_cons, ha, hb]
  · rw [hlfree]
    rcases hl with hl | ⟨c, hc, hfree⟩
    · left
      simp only [total_append, total_cons] at hl ⊢
      rw [if_neg (by omega), hl]
      omega
    · right
      split_ifs with hif
      · exact ⟨_, mem_placed_append _ _ _, ha⟩
      · simp only [mem_placed_append_cons, placed, List.mem_cons, Prod.mk.injEq] at hc ⊢
        rcases hc with hc | ⟨hc, -⟩ | ⟨hc, -⟩ | hc
        · exact ⟨c, .inl hc, hfree⟩
        · exact ⟨_, .inr (.inl ⟨hc, rfl⟩), ha⟩
        · exact absurd hc hif
        · exact ⟨c, .inr (.inr (by rwa [← Nat.add_assoc])), hfree⟩
  · rw [hlfree]
    split_ifs <;> omega
  · have hle := hl _ _ (mem_placed_append _ _ _) ha
    rw [hlfree, if_neg (by omega)]
    intro o c hc hfree
    rw [mem_placed_append_cons] at hc
    rcases hc with hc | ⟨rfl, -⟩ | hc
    · exact hl o c (mem_placed_append_cons.mpr (.inl hc)) hfree
    · exact hle
    · have := (bounds_of_mem_placed hc).1
      omega
  · rw [hs₁]; rfl
  · rw [hs₁]; rfl
  · rw [hs₁]; rfl

theorem lastPlace_concat (k p : ℕ) (xs : List Block) (c : Block) :
    lastPlace k p (xs ++ [c]) = k + Span.total xs := by
  induction xs generalizing k p with
  | nil => rfl
  | cons b xs ih =>
    rw [List.cons_append, lastPlace, ih, total_cons]
    omega

/-- Behind the block nothing is free. -/
theorem plugForward_of_used (ht : s.Tiled (pre ++ ⟨z, false⟩ :: post))
    (hhead : ∀ c ∈ post.head?, c.tag = true) : s.plugForward (Span.total pre) = s := by
  have hnext : (s.get (Span.total pre)).next = Span.total pre + z := ht.get_next
  unfold plugForward
  dsimp only
  rw [hnext, if_neg]
  rintro ⟨-, hused, hend⟩
  cases post with
  | nil =>
    have htotal := ht.total
    rw [total_append, total_cons, total_nil] at htotal
    exact hend htotal
  | cons c post =>
    have ht' : s.Tiled ((pre ++ [⟨z, false⟩]) ++ c :: post) := by simpa using ht
    have hplace : Span.total (pre ++ [⟨z, false⟩]) = Span.total pre + z := by simp
    rw [← hplace, ht'.get_used, hhead c rfl] at hused
    cases hused

/-- The block behind is free. -/
theorem plugForward_of_free (ht : s.Tiled (pre ++ ⟨z, false⟩ :: b :: post)) (hb : b.tag = false) :
    Joins s (pre ++ ⟨z, false⟩ :: b :: post) (s.plugForward (Span.total pre))
        (pre ++ ⟨z + b.size, false⟩ :: post) ∧
      (s.plugForward (Span.total pre)).lfree =
        if s.lfree = Span.total pre + z then Span.total pre else s.lfree := by
  have hz : 24 ≤ z := ht.size ⟨z, false⟩ (by simp)
  have hb' : 24 ≤ b.size := ht.size b (by simp)
  have hnext : (s.get (Span.total pre)).next = Span.total pre + z := ht.get_next
  have ht' : s.Tiled ((pre ++ [⟨z, false⟩]) ++ b :: post) := by simpa using ht
  have hplace : Span.total (pre ++ [⟨z, false⟩]) = Span.total pre + z := by simp
  have hused := ht'.get_used
  have hnext' := ht'.get_next
  rw [hplace] at hused hnext'
  have hend : Span.total pre + z ≠ s.heapEnd := by
    have htotal := ht.total
    simp only [total_append, total_cons] at htotal
    omega
  have hkeep : (if s.lfree = Span.total pre + z then { s with lfree := Span.total pre }
      else s).get (Span.total pre + z) = s.get (Span.total pre + z) := by
    split_ifs <;> rfl
  unfold plugForward
  dsimp only
  rw [hnext, if_pos ⟨by omega, hused.mpr hb, hend⟩, hkeep, hnext']
  refine ⟨ht.joins rfl hb rfl, ?_⟩
  rw [modify, lfree_put, modify, lfree_put]
  split_ifs <;> rfl

theorem plugForward_spec (ht : s.Tiled (pre ++ ⟨z, false⟩ :: post)) :
    ∃ z' post', Joins s (pre ++ ⟨z, false⟩ :: post) (s.plugForward (Span.total pre))
        (pre ++ ⟨z', false⟩ :: post') ∧
      (Coalesced post → Coalesced post' ∧ ∀ c ∈ post'.head?, c.tag = true) := by
  by_cases hhead : ∀ c ∈ post.head?, c.tag = true
  · rw [plugForward_of_used ht hhead]
    exact ⟨z, post, Joins.refl ht, fun h => ⟨h, hhead⟩⟩
  · cases post with
    | nil => exact absurd (by simp) hhead
    | cons c post =>
      have hc : c.tag = false := by simpa using hhead
      refine ⟨z + c.size, post, (plugForward_of_free ht hc).1, fun h => ?_⟩
      obtain ⟨hnext, htail⟩ := List.isChain_cons.mp h
      exact ⟨htail, fun d hd => (hnext d hd).resolve_left (by simp [hc])⟩

/-- Before the block nothing is free. -/
theorem plugBackward_of_used (ht : s.Tiled (pre ++ ⟨z, false⟩ :: post))
    (hlast : ∀ c ∈ pre.getLast?, c.tag = true) : s.plugBackward (Span.total pre) = s := by
  have hprev : (s.get (Span.total pre)).prev = lastPlace 0 0 pre := by
    rw [ht.around.get]
    rfl
  unfold plugBackward
  dsimp only
  rw [hprev, if_neg]
  rintro ⟨hne, hused⟩
  rcases List.eq_nil_or_concat pre with rfl | ⟨xs, c, rfl⟩
  · exact hne rfl
  · rw [List.concat_eq_append] at ht hlast hused
    rw [List.append_assoc, List.singleton_append] at ht
    rw [lastPlace_concat, Nat.zero_add, ht.get_used, hlast c (by simp)] at hused
    cases hused

theorem plugBackward_spec (ht : s.Tiled (pre ++ ⟨z, false⟩ :: post)) :
    ∃ bs', Joins s (pre ++ ⟨z, false⟩ :: post) (s.plugBackward (Span.total pre)) bs' ∧
      (Coalesced pre → Coalesced post → (∀ c ∈ post.head?, c.tag = true) → Coalesced bs') := by
  by_cases hlast : ∀ c ∈ pre.getLast?, c.tag = true
  · rw [plugBackward_of_used ht hlast]
    exact ⟨_, Joins.refl ht, fun hpre hpost hhead => List.isChain_append.mpr
      ⟨hpre, List.isChain_cons.mpr ⟨fun c hc => .inr (hhead c hc), hpost⟩,
        fun c hc d _ => .inl (hlast c hc)⟩⟩
  · rcases List.eq_nil_or_concat pre with rfl | ⟨xs, c, rfl⟩
    · exact absurd (by simp) hlast
    rw [List.concat_eq_append] at ht hlast ⊢
    have hctag : c.tag = false := by simpa using hlast
    have hplace : Span.total (xs ++ [c]) = Span.total xs + c.size := by simp
    have hprev : (s.get (Span.total (xs ++ [c]))).prev = Span.total xs := by
      rw [ht.around.get, header, lastPlace_concat, Nat.zero_add]
    have hnext : (s.get (Span.total (xs ++ [c]))).next = Span.total (xs ++ [c]) + z := ht.get_next
    have ht' : s.Tiled (xs ++ c :: ⟨z, false⟩ :: post) := by simpa using ht
    have hc : 24 ≤ c.size := ht'.size c (by simp)
    have hkeep : (if s.lfree = Span.total xs + c.size then { s with lfree := Span.total xs }
        else s).get (Span.total xs + c.size) = s.get (Span.total xs + c.size) := by
      split_ifs <;> rfl
    rw [hplace] at hprev hnext
    have hj := ht'.joins hctag rfl rfl
    rw [List.append_assoc, List.singleton_append]
    unfold plugBackward
    dsimp only
    rw [hplace, hprev, if_pos ⟨by omega, ht'.get_used.mpr hctag⟩, hkeep, hnext]
    refine ⟨_, hj, fun hpre hpost hhead => ?_⟩
    obtain ⟨hxs, -, hfirst⟩ := List.isChain_append.mp hpre
    rw [hctag]
    refine List.isChain_append.mpr ⟨hxs, List.isChain_cons.mpr ⟨fun d hd => .inr (hhead d hd),
      hpost⟩, fun d hd e _ => .inl ?_⟩
    exact (hfirst d hd c (by simp)).resolve_right (by simp [hctag])

theorem plugHoles_eq (ht : s.Tiled (pre ++ ⟨z, false⟩ :: post)) :
    s.plugHoles (Span.total pre) =
      some ((s.plugForward (Span.total pre)).plugBackward (Span.total pre)) := by
  have hz := ht.size ⟨z, false⟩ (by simp)
  have htotal := ht.total
  simp only [total_append, total_cons] at htotal hz
  rw [plugHoles, if_neg]
  rintro (h | h)
  · omega
  · exact h (ht.get_used.mpr rfl)

/-- **`plug_holes`** joins a free block with those beside it. -/
theorem plugHoles_spec (ht : s.Tiled (pre ++ ⟨z, false⟩ :: post)) :
    ∃ s' bs', s.plugHoles (Span.total pre) = some s' ∧
      Joins s (pre ++ ⟨z, false⟩ :: post) s' bs' ∧
      (Coalesced pre → Coalesced post → Coalesced bs') := by
  obtain ⟨z', post', hj, hco⟩ := plugForward_spec ht
  obtain ⟨bs', hj', hco'⟩ := plugBackward_spec hj.tiled
  refine ⟨_, bs', plugHoles_eq ht, hj.trans hj', fun hpre hpost => ?_⟩
  obtain ⟨hpost', hhead⟩ := hco hpost
  exact hco' hpre hpost' hhead

end SortingLine.Heap
