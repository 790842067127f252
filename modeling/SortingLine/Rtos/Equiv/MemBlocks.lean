import SortingLine.Library.Spans
import SortingLine.Rtos.Mem

/-!
# The blocks of the heap

`s.Tiled bs`: the headers in the memory lay out the list of blocks `bs`, each with its size and
whether it is used.  What the functions of `mem.c` do to the headers is done to the list: two
blocks are joined (`Tiled.join`), a block is split (`Tiled.split`) or marked (`Tiled.mark`), and
`plug_holes` joins a free block with the free blocks beside it (`plugHoles_spec`).

No header lies in the part of a block that its user has, so all else in the memory is kept
(`Keeps`).
-/

namespace SortingLine

/-- The fields are within their types. -/
structure HeapMem.Fits (h : HeapMem) : Prop where
  magic : h.magic < 65536
  used : h.used < 65536
  next : h.next < 4294967296
  prev : h.prev < 4294967296

namespace Heap

open Memory Span

/-- A block: its size with the header, and whether it is used. -/
abbrev Block := Span Bool

variable {s s' s'' : Heap} {h : HeapMem} {f : HeapMem → HeapMem} {bs pre post xs ys : List Block}
  {a b : Block} {k k' p q x : ℕ}

/-! ### Headers -/

theorem byte_put_of_outside (hx : Outside k 12 x) : (s.put k h).byte x = s.byte x := by
  have hbyte : (s.put k h).byte = wrLe (wrLe (wrLe (wrLe s.byte k 2 h.magic) (k + 2) 2 h.used)
    (k + 4) 4 h.next) (k + 8) 4 h.prev := rfl
  unfold Outside at hx
  rw [hbyte, wrLe_of_outside (by unfold Outside; omega), wrLe_of_outside (by unfold Outside; omega),
    wrLe_of_outside (by unfold Outside; omega), wrLe_of_outside (by unfold Outside; omega)]

theorem get_congr (hb : ∀ x, k ≤ x → x < k + 12 → s'.byte x = s.byte x) : s'.get k = s.get k := by
  unfold get
  rw [rdLe_congr fun x hx hx' => hb x (by omega) (by omega),
    rdLe_congr (a := k + 2) fun x hx hx' => hb x (by omega) (by omega),
    rdLe_congr (a := k + 4) fun x hx hx' => hb x (by omega) (by omega),
    rdLe_congr (a := k + 8) fun x hx hx' => hb x (by omega) (by omega)]

/-- A header does not change those that it does not overlap. -/
theorem get_put_of_disjoint (hd : k + 12 ≤ k' ∨ k' + 12 ≤ k) : (s.put k h).get k' = s.get k' := by
  refine get_congr fun x hx hx' => byte_put_of_outside ?_
  unfold Outside
  omega

/-- A header is read as it was stored. -/
theorem get_put_self (hf : h.Fits) : (s.put k h).get k = h := by
  unfold get put
  rw [rdLe_wrLe_of_disjoint (by omega), rdLe_wrLe_of_disjoint (by omega),
    rdLe_wrLe_of_disjoint (by omega), rdLe_wrLe_of_lt (by simpa using hf.magic),
    rdLe_wrLe_of_disjoint (by omega), rdLe_wrLe_of_disjoint (by omega),
    rdLe_wrLe_of_lt (by simpa using hf.used), rdLe_wrLe_of_disjoint (by omega),
    rdLe_wrLe_of_lt (by simpa using hf.next), rdLe_wrLe_of_lt (by simpa using hf.prev)]

theorem fits_get (s : Heap) (k : ℕ) : (s.get k).Fits :=
  ⟨rdLe_lt.trans_le (by decide), rdLe_lt.trans_le (by decide), rdLe_lt.trans_le (by decide),
    rdLe_lt.trans_le (by decide)⟩

@[simp]
theorem memSizeAligned_put : (s.put k h).memSizeAligned = s.memSizeAligned := rfl

@[simp]
theorem heapEnd_put : (s.put k h).heapEnd = s.heapEnd := rfl

@[simp]
theorem heapEnd_modify : (s.modify k f).heapEnd = s.heapEnd := rfl

@[simp]
theorem lfree_put : (s.put k h).lfree = s.lfree := rfl

@[simp]
theorem usedMem_put : (s.put k h).usedMem = s.usedMem := rfl

@[simp]
theorem maxMem_put : (s.put k h).maxMem = s.maxMem := rfl

/-! ### The layout -/

/-- The header of a block, at a place and behind another block. -/
def header (b : Block) (k p : ℕ) : HeapMem where
  magic := heapMagic
  used := if b.tag then 1 else 0
  next := k + b.size
  prev := p

/-- The headers of some blocks, from `k` on, where the block before begins at `p`. -/
def Walk (s : Heap) : ℕ → ℕ → List Block → Prop
  | _, _, [] => True
  | k, p, b :: bs => s.get k = header b k p ∧ Walk s (k + b.size) k bs

/-- Where the last block begins. -/
def lastPlace : ℕ → ℕ → List Block → ℕ
  | _, p, [] => p
  | k, _, b :: bs => lastPlace (k + b.size) k bs

/-- `heap_end` is a header that looks like that of a used block and leads to itself. -/
def Ends (s : Heap) : Prop := (s.get s.heapEnd).used ≠ 0 ∧ (s.get s.heapEnd).next = s.heapEnd

/-- The headers lay out the blocks. -/
structure Tiled (s : Heap) (bs : List Block) : Prop where
  walk : s.Walk 0 0 bs
  total : total bs = s.heapEnd
  size : ∀ b ∈ bs, 24 ≤ b.size
  align : ∀ b ∈ bs, b.size % 8 = 0
  ends : s.Ends
  bound : s.heapEnd < 4294967296

/-- The memory has changed in headers only. -/
def Keeps (s s' : Heap) (bs : List Block) : Prop :=
  ∀ x, (∀ k, Boundary bs k → Outside k 12 x) → s'.byte x = s.byte x

theorem walk_append : s.Walk k p (xs ++ ys) ↔
    s.Walk k p xs ∧ s.Walk (k + total xs) (lastPlace k p xs) ys := by
  induction xs generalizing k p with
  | nil => simp [Walk, lastPlace]
  | cons b xs ih =>
    simp only [List.cons_append, Walk, lastPlace, total_cons, ih, and_assoc, Nat.add_assoc]

/-- The headers are as before. -/
theorem Walk.congr_placed (hw : s.Walk k p xs) (hget : ∀ o b, (o, b) ∈ placed k xs →
    s'.get o = s.get o) : s'.Walk k p xs := by
  induction xs generalizing k p with
  | nil => trivial
  | cons b xs ih =>
    refine ⟨(hget k b (List.mem_cons_self ..)).trans hw.1, ?_⟩
    exact ih hw.2 fun o c hc => hget o c (List.mem_cons_of_mem _ hc)

theorem Walk.congr (hw : s.Walk k p xs) (hs : ∀ b ∈ xs, 24 ≤ b.size)
    (hget : ∀ o, k ≤ o → o + 24 ≤ k + Span.total xs → s'.get o = s.get o) : s'.Walk k p xs := by
  refine hw.congr_placed fun o b hb => ?_
  have hsize := hs b (mem_of_mem_placed hb)
  obtain ⟨hle, hle'⟩ := bounds_of_mem_placed hb
  exact hget o hle (by omega)

/-- A header stored elsewhere. -/
theorem Walk.put (hw : s.Walk k p xs) (hs : ∀ b ∈ xs, 24 ≤ b.size)
    (hk : k' + 12 ≤ k ∨ k + Span.total xs ≤ k') : (s.put k' h).Walk k p xs :=
  hw.congr hs fun o ho ho' => get_put_of_disjoint (by omega)

/-- The place of the block before is changed. -/
theorem Walk.relink (hw : s.Walk k p xs) (htotal : k + Span.total xs = s.heapEnd)
    (hs : ∀ b ∈ xs, 24 ≤ b.size) (hend : s.Ends) (hp : q < 4294967296) :
    (s.modify k fun h => { h with prev := q }).Walk k q xs ∧
      (s.modify k fun h => { h with prev := q }).Ends := by
  have hfits := fits_get s k
  have hself : (s.modify k fun h => { h with prev := q }).get k = { s.get k with prev := q } :=
    get_put_self ⟨hfits.magic, hfits.used, hfits.next, hp⟩
  cases xs with
  | nil =>
    refine ⟨trivial, ?_⟩
    rw [total_nil, Nat.add_zero] at htotal
    subst htotal
    rw [Ends, heapEnd_modify, hself]
    exact hend
  | cons b xs =>
    have hb := hs b (List.mem_cons_self ..)
    rw [total_cons] at htotal
    refine ⟨⟨?_, ?_⟩, ?_⟩
    · rw [hself, hw.1]
      rfl
    · exact hw.2.put (fun c hc => hs c (List.mem_cons_of_mem _ hc)) (by omega)
    · rw [Ends, heapEnd_modify, modify, get_put_of_disjoint (by omega)]
      exact hend

/-- A header is stored as it is. -/
theorem fits_header (hk : k + b.size < 4294967296) (hp : p < 4294967296) :
    (header b k p).Fits := by
  refine ⟨(by decide : heapMagic < 65536), ?_, hk, hp⟩
  change (if b.tag then 1 else 0) < 65536
  split_ifs
  · decide
  · decide

/-- Where the blocks around one are. -/
structure Around (s : Heap) (pre : List Block) (b : Block) (post : List Block) : Prop where
  before : s.Walk 0 0 pre
  get : s.get (total pre) = header b (total pre) (lastPlace 0 0 pre)
  after : s.Walk (total pre + b.size) (total pre) post

theorem around_iff : s.Walk 0 0 (pre ++ b :: post) ↔ s.Around pre b post := by
  rw [walk_append, Nat.zero_add]
  exact ⟨fun h => ⟨h.1, h.2.1, h.2.2⟩, fun h => ⟨h.before, h.get, h.after⟩⟩

namespace Tiled

theorem around (ht : s.Tiled (pre ++ b :: post)) : s.Around pre b post := around_iff.mp ht.walk

theorem get_next (ht : s.Tiled (pre ++ b :: post)) :
    (s.get (Span.total pre)).next = Span.total pre + b.size := by
  rw [ht.around.get]
  rfl

theorem get_used (ht : s.Tiled (pre ++ b :: post)) :
    (s.get (Span.total pre)).used = 0 ↔ b.tag = false := by
  rw [ht.around.get, header]
  cases b.tag <;> simp

theorem lastPlace_lt (ht : s.Tiled (pre ++ b :: post)) : lastPlace 0 0 pre < 4294967296 := by
  have hfits := fits_get s (Span.total pre)
  rw [ht.around.get] at hfits
  exact hfits.prev

theorem total_lt (ht : s.Tiled (pre ++ post)) : Span.total pre < 4294967296 := by
  have htotal := ht.total
  have hbound := ht.bound
  rw [total_append] at htotal
  omega

/-- **A block is marked** as used or as free, or its header is written anew. -/
theorem mark {u : Bool} (ht : s.Tiled (pre ++ b :: post))
    (hf : f (s.get (Span.total pre)) =
      header ⟨b.size, u⟩ (Span.total pre) (lastPlace 0 0 pre)) :
    (s.modify (Span.total pre) f).Tiled (pre ++ ⟨b.size, u⟩ :: post) := by
  obtain ⟨hpre, -, hpost⟩ := ht.around
  have htotal := ht.total
  have hbound := ht.bound
  have hsize := ht.size
  have halign := ht.align
  simp only [List.forall_mem_append, List.forall_mem_cons] at hsize halign
  rw [total_append, total_cons] at htotal
  have hfits : (header ⟨b.size, u⟩ (Span.total pre) (lastPlace 0 0 pre)).Fits :=
    fits_header (by change _ + b.size < _; omega) ht.lastPlace_lt
  refine ⟨around_iff.mpr ⟨?_, ?_, ?_⟩, ?_, ?_, ?_, ?_, hbound⟩
  · exact hpre.put hsize.1 (by omega)
  · rw [modify, hf, get_put_self hfits]
  · exact hpost.put hsize.2.2 (by omega)
  · rw [total_append, total_cons]
    exact htotal
  · simpa only [List.forall_mem_append, List.forall_mem_cons] using hsize
  · simpa only [List.forall_mem_append, List.forall_mem_cons] using halign
  · rw [Ends, heapEnd_modify, modify, get_put_of_disjoint (by omega)]
    exact ht.ends

/-- **Two blocks are joined.** -/
theorem join {next : ℕ} (ht : s.Tiled (pre ++ a :: b :: post))
    (hnext : next = Span.total pre + a.size + b.size) :
    ((s.modify (Span.total pre) fun h => { h with next }).modify next
      fun h => { h with prev := Span.total pre }).Tiled
        (pre ++ ⟨a.size + b.size, a.tag⟩ :: post) := by
  obtain ⟨hpre, hget, hpost⟩ := ht.around
  have hpost := hpost.2
  have htotal := ht.total
  have hbound := ht.bound
  have hsize := ht.size
  have halign := ht.align
  simp only [List.forall_mem_append, List.forall_mem_cons] at hsize halign
  rw [total_append, total_cons, total_cons] at htotal
  subst hnext
  have hhead : { s.get (Span.total pre) with next := Span.total pre + a.size + b.size } =
      header ⟨a.size + b.size, a.tag⟩ (Span.total pre) (lastPlace 0 0 pre) := by
    rw [hget]
    simp only [header, Nat.add_assoc]
  have hfits : (header ⟨a.size + b.size, a.tag⟩ (Span.total pre) (lastPlace 0 0 pre)).Fits :=
    fits_header (by change _ + (a.size + b.size) < _; omega) ht.lastPlace_lt
  -- after the first store
  set s₁ := s.modify (Span.total pre) fun h => { h with next := Span.total pre + a.size + b.size }
    with hs₁
  have hends : s₁.Ends := by
    rw [Ends, hs₁, heapEnd_modify, modify, get_put_of_disjoint (by omega)]
    exact ht.ends
  obtain ⟨hrest, hends'⟩ := (hpost.put hsize.2.2.2 (by omega) : s₁.Walk _ _ post).relink
    (by change _ = s.heapEnd; omega) hsize.2.2.2 hends ht.total_lt
  refine ⟨around_iff.mpr ⟨?_, ?_, ?_⟩, ?_, ?_, ?_, hends', hbound⟩
  · exact (hpre.put hsize.1 (by omega) : s₁.Walk 0 0 pre).put hsize.1 (by omega)
  · rw [modify, get_put_of_disjoint (by omega), hs₁, modify, hhead, get_put_self hfits]
  · change Walk _ (Span.total pre + (a.size + b.size)) _ _
    rwa [← Nat.add_assoc]
  · rw [total_append, total_cons]
    change Span.total pre + (a.size + b.size + Span.total post) = s.heapEnd
    omega
  · simp only [List.forall_mem_append, List.forall_mem_cons]
    exact ⟨hsize.1, by omega, hsize.2.2.2⟩
  · simp only [List.forall_mem_append, List.forall_mem_cons]
    exact ⟨halign.1, by omega, halign.2.2.2⟩

/-- **A block is split**; the second part is free. -/
theorem split {w r ptr2 next : ℕ} {u u' : Bool} (ht : s.Tiled (pre ++ ⟨w + r, u⟩ :: post))
    (hw : 24 ≤ w) (hr : 24 ≤ r) (hw8 : w % 8 = 0) (hptr2 : ptr2 = Span.total pre + w)
    (hnext : next = Span.total pre + (w + r))
    (hf : ∀ p, f (header ⟨w + r, u⟩ (Span.total pre) p) = header ⟨w, u'⟩ (Span.total pre) p) :
    let s₂ := (s.put ptr2 { magic := heapMagic, used := 0, next, prev := Span.total pre }).modify
      (Span.total pre) f
    (if next ≠ s.memSizeAligned + sizeofStructMem then
        s₂.modify next fun h => { h with prev := ptr2 }
      else s₂).Tiled (pre ++ ⟨w, u'⟩ :: ⟨r, false⟩ :: post) := by
  intro s₂
  obtain ⟨hpre, hget, hpost⟩ := ht.around
  have htotal := ht.total
  have hbound := ht.bound
  have hsize := ht.size
  have halign := ht.align
  simp only [List.forall_mem_append, List.forall_mem_cons] at hsize halign
  rw [total_append, total_cons] at htotal
  change Span.total pre + (w + r + Span.total post) = s.heapEnd at htotal
  change s.Walk (Span.total pre + (w + r)) _ _ at hpost
  subst hptr2 hnext
  have hfree : HeapMem.mk heapMagic 0 (Span.total pre + (w + r)) (Span.total pre) =
      header ⟨r, false⟩ (Span.total pre + w) (Span.total pre) := by
    rw [header, Nat.add_assoc]
    rfl
  have hfits₁ : (header ⟨r, false⟩ (Span.total pre + w) (Span.total pre)).Fits :=
    fits_header (by change _ + r < _; omega) ht.total_lt
  have hfits₂ : (header ⟨w, u'⟩ (Span.total pre) (lastPlace 0 0 pre)).Fits :=
    fits_header (by change _ + w < _; omega) ht.lastPlace_lt
  -- the two headers, and what is kept
  have hget₁ : s₂.get (Span.total pre) = header ⟨w, u'⟩ (Span.total pre) (lastPlace 0 0 pre) := by
    have hkeep : (s.put (Span.total pre + w) (header ⟨r, false⟩ (Span.total pre + w)
        (Span.total pre))).get (Span.total pre) = s.get (Span.total pre) :=
      get_put_of_disjoint (by omega)
    change ((s.put _ _).modify _ f).get _ = _
    rw [hfree, modify, hkeep, hget, hf, get_put_self hfits₂]
  have hget₂ : s₂.get (Span.total pre + w) =
      header ⟨r, false⟩ (Span.total pre + w) (Span.total pre) := by
    change ((s.put _ _).modify _ f).get _ = _
    rw [modify, get_put_of_disjoint (by omega), hfree, get_put_self hfits₁]
  have hpre₂ : s₂.Walk 0 0 pre :=
    (hpre.put hsize.1 (by omega) : (s.put _ _).Walk 0 0 pre).put hsize.1 (by omega)
  have hpost₂ : s₂.Walk (Span.total pre + (w + r)) (Span.total pre) post :=
    (hpost.put hsize.2.2 (by omega) : (s.put _ _).Walk _ _ post).put hsize.2.2 (by omega)
  have hends₂ : s₂.Ends := by
    change ((s.put _ _).modify _ f).Ends
    rw [Ends, heapEnd_modify, heapEnd_put, modify, get_put_of_disjoint (by omega),
      get_put_of_disjoint (by omega)]
    exact ht.ends
  suffices hlast : ∀ s₃ : Heap, s₃.heapEnd = s.heapEnd → s₃.Ends →
      s₃.Walk (Span.total pre + (w + r)) (Span.total pre + w) post →
      (∀ o, o + 24 ≤ Span.total pre + (w + r) → s₃.get o = s₂.get o) →
      s₃.Tiled (pre ++ ⟨w, u'⟩ :: ⟨r, false⟩ :: post) by
    split_ifs with hne
    · obtain ⟨hrest, hends⟩ := hpost₂.relink (q := Span.total pre + w)
        (by change _ = s.heapEnd; omega) hsize.2.2 hends₂ (by omega)
      exact hlast _ rfl hends hrest fun o ho => get_put_of_disjoint (by omega)
    · refine hlast s₂ rfl hends₂ ?_ fun o _ => rfl
      have hnil : post = [] := by
        cases post with
        | nil => rfl
        | cons c post =>
          have := hsize.2.2 c (List.mem_cons_self ..)
          rw [total_cons] at htotal
          unfold heapEnd at htotal
          omega
      rw [hnil]
      trivial
  intro s₃ hend hends hrest hkeep
  refine ⟨around_iff.mpr ⟨?_, ?_, ?_, ?_⟩, ?_, ?_, ?_, hends, by omega⟩
  · exact hpre₂.congr hsize.1 fun o _ ho => hkeep o (by omega)
  · rw [hkeep _ (by omega), hget₁]
  · change s₃.get (Span.total pre + w) = _
    rw [hkeep _ (by omega), hget₂]
  · change s₃.Walk (Span.total pre + w + r) _ _
    rwa [Nat.add_assoc]
  · simp only [total_append, total_cons]
    omega
  · simp only [List.forall_mem_append, List.forall_mem_cons]
    exact ⟨hsize.1, hw, hr, hsize.2.2⟩
  · have hwr : (w + r) % 8 = 0 := halign.2.1
    simp only [List.forall_mem_append, List.forall_mem_cons]
    exact ⟨halign.1, hw8, by omega, halign.2.2⟩

end Tiled

end Heap

end SortingLine
