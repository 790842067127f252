import SortingLine.Rtos.Equiv.MemCalls
import SortingLine.Rtos.MemUsers

/-!
# The shrinking and the moving `rt_realloc`

A block becomes shorter in place, and what is behind it becomes a free block (`shrink_spec`).  Then
`lfree` is the lowest free block only if it was below, or is moved with the block behind
(`LfreeStays`): `rt_realloc` does not set it.  All other requests for another size allocate, copy
and free.
-/

namespace SortingLine.Heap

open Memory Span

variable {s s' s'' : Heap} {bs bs' bs'' pre post : List Block} {a b : Block} {k l n o x z : ℕ}

/-! ### In place -/

/-- When a block becomes shorter, `lfree` is still the lowest free block: it was lower, or it is
moved because the block behind was free. -/
def LfreeStays (s : Heap) (ptr : ℕ) : Prop :=
  s.lfree < ptr ∨ (s.get (s.get ptr).next).used = 0

instance (s : Heap) (ptr : ℕ) : Decidable (s.LfreeStays ptr) := inferInstanceAs (Decidable (_ ∨ _))

/-- The used block at `o` becomes shorter. -/
structure Shrinks (s : Heap) (bs : List Block) (o n : ℕ) (s' : Heap) (bs' : List Block) : Prop where
  laid : s'.Laid bs'
  data : ∀ k b, b.tag = true → (k, b) ∈ placed 0 bs' → ∀ x, k + 16 ≤ x → x < k + b.size →
    s'.byte x = s.byte x
  used : ∀ k b, b.tag = true → ((k, b) ∈ placed 0 bs' ↔
    (k, b) ∈ placed 0 bs ∧ k ≠ o ∨ k = o ∧ b = ⟨n + 16, true⟩)
  lowest : Lowest s.lfree bs → (Lowest s'.lfree bs' ↔ s.LfreeStays o)
  memSizeAligned : s'.memSizeAligned = s.memSizeAligned

theorem Tiled.lfreeStays_iff (ht : s.Tiled (pre ++ b :: post)) :
    s.LfreeStays (Span.total pre) ↔
      s.lfree < Span.total pre ∨ ∃ c ∈ post.head?, c.tag = false := by
  unfold LfreeStays
  rw [ht.get_next]
  refine or_congr_right ?_
  cases post with
  | nil =>
    have htotal := ht.total
    rw [total_append, total_cons, total_nil, Nat.add_zero] at htotal
    have hend := ht.ends.1
    rw [← htotal] at hend
    simp [hend]
  | cons c post =>
    have ht' : s.Tiled ((pre ++ [b]) ++ c :: post) := by simpa using ht
    have hplace : Span.total (pre ++ [b]) = Span.total pre + b.size := by simp
    rw [← hplace, ht'.get_used]
    simp

theorem shorten_spec {r : ℕ} (ht : s.Tiled (pre ++ ⟨n + 16 + r, true⟩ :: post)) (hn : 8 ≤ n)
    (hn8 : n % 8 = 0) (hr : 24 ≤ r) :
    (s.shorten (Span.total pre) n).Tiled (pre ++ ⟨n + 16, true⟩ :: ⟨r, false⟩ :: post) ∧
      s.Keeps (s.shorten (Span.total pre) n) (pre ++ ⟨n + 16, true⟩ :: ⟨r, false⟩ :: post) ∧
      (s.shorten (Span.total pre) n).memSizeAligned = s.memSizeAligned ∧
      (s.shorten (Span.total pre) n).lfree = s.lfree ∧
      (s.shorten (Span.total pre) n).usedMem = s.usedMem - r ∧
      (s.shorten (Span.total pre) n).maxMem = s.maxMem := by
  have hnext : (s.get (Span.total pre)).next = Span.total pre + (n + 16 + r) := ht.get_next
  have hbound := ht.bound
  have htotal := ht.total
  simp only [total_append, total_cons] at htotal
  have hsub : subSize (Span.total pre + (n + 16 + r)) (Span.total pre) = n + 16 + r := by
    rw [subSize_of_le (by omega) (by omega)]
    omega
  have hsub' : subSize (n + 16 + r) sizeofStructMem = n + r := by
    unfold sizeofStructMem
    rw [subSize_of_le (by omega) (by omega)]
    omega
  have hsub'' : n + r - n = r := by omega
  have hptr2 : Span.total pre + sizeofStructMem + n = Span.total pre + (n + 16) := by
    unfold sizeofStructMem
    omega
  unfold shorten
  dsimp only
  rw [hnext, hsub, hsub', hsub'']
  have ht₀ : ({ s with usedMem := s.usedMem - r } : Heap).Tiled
      (pre ++ ⟨n + 16 + r, true⟩ :: post) := ht.of_byte rfl rfl
  have hhead (p : ℕ) : { header ⟨n + 16 + r, true⟩ (Span.total pre) p with
      next := Span.total pre + sizeofStructMem + n } =
        header ⟨n + 16, true⟩ (Span.total pre) p := by
    rw [hptr2]
    rfl
  obtain ⟨ht', hkeep, heq⟩ := ht₀.splits (f := fun h => { h with
    next := Span.total pre + sizeofStructMem + n }) (by omega) hr (by omega) hptr2 rfl hhead
  refine ⟨ht', hkeep, ?_, ?_, ?_, ?_⟩
  · exact (congrArg memSizeAligned heq :)
  · exact (congrArg lfree heq :)
  · exact (congrArg usedMem heq :)
  · exact (congrArg maxMem heq :)

/-- `lfree` is not at a used block. -/
theorem Laid.lfree_cases (hl : s.Laid (pre ++ ⟨z, true⟩ :: post)) :
    s.lfree < Span.total pre ∨ Span.total pre + z ≤ s.lfree := by
  have hz : 24 ≤ z := hl.tiled.size ⟨z, true⟩ (by simp)
  have hle := le_or_le_of_mem_placed (mem_placed_append pre post ⟨z, true⟩) hl.lfreeAt.boundary
  refine hle.imp_left fun h => lt_of_le_of_ne h fun heq => ?_
  rcases hl.lfreeAt with hend | ⟨b, hb, hfree⟩
  · simp only [total_append, total_cons] at hend
    omega
  · rw [heq] at hb
    have hpos : ∀ c ∈ pre ++ ⟨z, true⟩ :: post, 0 < c.size := fun c hc =>
      Nat.lt_of_lt_of_le (by decide) (hl.tiled.size c hc)
    rw [eq_of_mem_placed hpos hb (mem_placed_append pre post ⟨z, true⟩)] at hfree
    cases hfree

/-- The blocks when the second part of a used block has become free. -/
theorem mem_placed_cut {r : ℕ} :
    (k, b) ∈ placed 0 (pre ++ ⟨n + 16, true⟩ :: ⟨r, false⟩ :: post) ↔
      (k, b) ∈ placed 0 pre ∨ (k = Span.total pre ∧ b = ⟨n + 16, true⟩) ∨
        (k = Span.total pre + (n + 16) ∧ b = ⟨r, false⟩) ∨
          (k, b) ∈ placed (Span.total pre + (n + 16 + r)) post := by
  rw [mem_placed_append_cons, placed, List.mem_cons, Prod.mk.injEq, Nat.add_assoc]

theorem Lowest.cut {r : ℕ} (h : Lowest l (pre ++ ⟨n + 16 + r, true⟩ :: post))
    (hl : l ≤ Span.total pre + (n + 16)) :
    Lowest l (pre ++ ⟨n + 16, true⟩ :: ⟨r, false⟩ :: post) := by
  intro k b hb hfree
  rcases mem_placed_cut.mp hb with hb | ⟨-, rfl⟩ | ⟨rfl, -⟩ | hb
  · exact h k b (mem_placed_append_cons.mpr (.inl hb)) hfree
  · cases hfree
  · exact hl
  · exact h k b (mem_placed_append_cons.mpr (.inr (.inr hb))) hfree

/-- The heap behind `plug_holes`, where the block before is used. -/
structure Cut (s : Heap) (pre : List Block) (n r : ℕ) (post : List Block) (s₁ s' : Heap) (R : ℕ)
    (Q : List Block) : Prop where
  joins : Joins s₁ (pre ++ ⟨n + 16, true⟩ :: ⟨r, false⟩ :: post) s'
    (pre ++ ⟨n + 16, true⟩ :: ⟨R, false⟩ :: Q)
  coalesced : Coalesced Q
  head : ∀ c ∈ Q.head?, c.tag = true
  lowest : Lowest s.lfree (pre ++ ⟨n + 16 + r, true⟩ :: post) →
    (Lowest s'.lfree (pre ++ ⟨n + 16, true⟩ :: ⟨R, false⟩ :: Q) ↔ s.LfreeStays (Span.total pre))

/-- A shorter block leaves a free block, which is joined with the block behind it. -/
theorem cut_spec {r : ℕ} {s₁ : Heap} (hl : s.Laid (pre ++ ⟨n + 16 + r, true⟩ :: post))
    (ht₁ : s₁.Tiled (pre ++ ⟨n + 16, true⟩ :: ⟨r, false⟩ :: post)) (hlfree : s₁.lfree = s.lfree) :
    ∃ s' R Q, s₁.plugHoles (Span.total pre + 16 + n) = some s' ∧
      Cut s pre n r post s₁ s' R Q := by
  have hplace : Span.total (pre ++ [⟨n + 16, true⟩]) = Span.total pre + 16 + n := by
    simp only [total_append, total_cons, total_nil]
    omega
  have ht₂ : s₁.Tiled ((pre ++ [⟨n + 16, true⟩]) ++ ⟨r, false⟩ :: post) := by simpa using ht₁
  obtain ⟨-, hrest, -⟩ := List.isChain_append.mp hl.coalesced
  obtain ⟨-, hpost⟩ := List.isChain_cons.mp hrest
  have hcases : s.lfree < Span.total pre ∨ Span.total pre + (n + 16 + r) ≤ s.lfree :=
    hl.lfree_cases
  have hr : 24 ≤ r := ht₁.size ⟨r, false⟩ (by simp)
  have hstays := hl.tiled.lfreeStays_iff
  have hplug := plugHoles_eq ht₂
  rw [hplace] at hplug
  by_cases hhead : ∀ c ∈ post.head?, c.tag = true
  · have hfwd := plugForward_of_used ht₂ hhead
    have hback := plugBackward_of_used ht₂ (by simp)
    rw [hplace] at hfwd hback
    rw [hfwd, hback] at hplug
    refine ⟨s₁, r, post, hplug, ⟨Joins.refl ht₁, hpost, hhead, fun hlow => ?_⟩⟩
    rw [hlfree, hstays]
    constructor
    · intro h
      have hle := h _ _ (mem_placed_cut.mpr (.inr (.inr (.inl ⟨rfl, rfl⟩)))) rfl
      exact .inl (hcases.resolve_right (by omega))
    · rintro (h | ⟨c, hc, hfree⟩)
      · exact hlow.cut (by omega)
      · rw [hhead c hc] at hfree
        cases hfree
  · cases post with
    | nil => exact absurd (by simp) hhead
    | cons c post =>
      have hc : c.tag = false := by simpa using hhead
      obtain ⟨hj, hl'⟩ := plugForward_of_free ht₂ hc
      have hback := plugBackward_of_used hj.tiled (by simp)
      rw [hplace] at hback hj hl'
      rw [hback] at hplug
      refine ⟨_, r + c.size, post, hplug, ⟨?_, ?_, ?_, fun hlow => ?_⟩⟩
      · simpa using hj
      · exact (List.isChain_cons.mp hpost).2
      · exact fun d hd => ((List.isChain_cons.mp hpost).1 d hd).resolve_left (by simp [hc])
      · refine iff_of_true ?_ (hstays.mpr (.inr ⟨c, rfl, hc⟩))
        have hle : s.lfree ≤ Span.total pre + (n + 16 + r) :=
          hlow _ c (mem_placed_append_cons.mpr (.inr (.inr (List.mem_cons_self ..)))) hc
        rcases hcases with hlt | hge
        · have := hj.lowest
          rw [hlfree] at this
          simpa using this (by simpa using hlow.cut (by omega))
        · -- `lfree` was at the block behind and is moved
          rw [hl', hlfree, if_pos (by omega)]
          intro k b hb hfree
          rcases mem_placed_cut.mp hb with hb | ⟨-, rfl⟩ | ⟨rfl, -⟩ | hb
          · have hlow' := hlow k b (mem_placed_append_cons.mpr (.inl hb)) hfree
            have hsize := hl.tiled.size b (List.mem_append_left _ (mem_of_mem_placed hb))
            have := (bounds_of_mem_placed hb).2
            omega
          · cases hfree
          · omega
          · have := (bounds_of_mem_placed hb).1
            omega

theorem shrink_spec {r : ℕ} (hl : s.Laid (pre ++ ⟨n + 16 + r, true⟩ :: post)) (hn : 8 ≤ n)
    (hn8 : n % 8 = 0) (hr : 24 ≤ r) :
    ∃ s' bs', (s.shorten (Span.total pre) n).plugHoles (Span.total pre + 16 + n) = some s' ∧
      Shrinks s (pre ++ ⟨n + 16 + r, true⟩ :: post) (Span.total pre) n s' bs' := by
  have ht := hl.tiled
  obtain ⟨ht₁, hkeep, hmem, hlfree, hused, hmax⟩ := shorten_spec ht hn hn8 hr
  obtain ⟨s', R, Q, hplug, hc⟩ := cut_spec hl ht₁ hlfree
  have hj := hc.joins
  have hlfreeAt : LfreeAt (s.shorten (Span.total pre) n).lfree
      (pre ++ ⟨n + 16, true⟩ :: ⟨r, false⟩ :: post) := by
    rw [hlfree]
    rcases hl.lfreeAt with h | ⟨b, hb, hfree⟩
    · left
      rw [h]
      simp only [total_append, total_cons]
      omega
    · rw [mem_placed_append_cons] at hb
      refine .inr ⟨b, mem_placed_cut.mpr ?_, hfree⟩
      rcases hb with hb | ⟨-, rfl⟩ | hb
      · exact .inl hb
      · cases hfree
      · exact .inr (.inr (.inr hb))
  refine ⟨s', _, hplug, ⟨hj.tiled, ?_, hj.lfreeAt hlfreeAt, ?_, ?_, ?_⟩, ?_, ?_, hc.lowest,
    hj.memSizeAligned.trans hmem⟩
  · obtain ⟨hpre, -, -⟩ := List.isChain_append.mp hl.coalesced
    refine List.isChain_append.mpr ⟨hpre, ?_, fun d hd e he => ?_⟩
    · exact List.isChain_cons.mpr ⟨fun d _ => .inl rfl,
        List.isChain_cons.mpr ⟨fun d hd => .inr (hc.head d hd), hc.coalesced⟩⟩
    · obtain rfl : e = ⟨n + 16, true⟩ := by simpa using he.symm
      exact .inr rfl
  · have hold := hl.usedMem
    simp only [usedTotal_append, usedTotal_cons] at hold
    rw [hj.usedMem, hused, hj.usedTotal, hold, usedTotal_append, usedTotal_cons, usedTotal_cons]
    simp only [if_true, Bool.false_eq_true, if_false]
    omega
  · have hold := hl.maxMem
    rw [hj.usedMem, hj.maxMem, hused, hmax]
    omega
  · rw [hj.memSizeAligned, hmem]
    exact hl.room
  · intro k b hb hmem x hx hx'
    exact (hkeep.trans hj.keeps fun _ h => h).data ((hj.used k b hb).mp hmem) hx hx'
  · intro k b hb
    have hne : b ≠ ⟨r, false⟩ := by
      rintro rfl
      cases hb
    rw [hj.used k b hb, mem_placed_cut, mem_placed_erase ht]
    simp only [hne, and_false, false_or]
    rw [← or_assoc, or_right_comm]

/-! ### Requests -/

theorem toNat_le_alignSize {size : UInt32} (h : size.toNat ≤ maxRequest) :
    size.toNat ≤ alignSize size ∧ alignSize size ≤ maxRequest := by
  unfold alignSize maxRequest at *
  rw [toNat_rtAlign]
  omega

theorem alignSize_rtAlign {size : UInt32} (h : size.toNat ≤ maxRequest) :
    alignSize (rtAlign size rtAlignSize) = alignSize size := by
  have hle := (toNat_le_alignSize h).2
  unfold alignSize at *
  rw [toNat_rtAlign (rtAlign size rtAlignSize)]
  unfold maxRequest at hle
  have hmod : (rtAlign size rtAlignSize).toNat % 8 = 0 := by rw [toNat_rtAlign, Nat.mul_mod_left]
  omega

theorem alignSize_eq_zero {size : UInt32} (h : size.toNat ≤ maxRequest) :
    alignSize size = 0 ↔ size = 0 := by
  have hle := (toNat_le_alignSize h).1
  constructor
  · intro h0
    rw [h0] at hle
    exact UInt32.toNat_inj.mp (Nat.le_zero.mp hle)
  · rintro rfl
    rfl

/-! ### `rt_realloc` -/

/-- The block is made shorter in place. -/
def Shortens (b : Block) (newsize : UInt32) : Prop :=
  newsize ≠ 0 ∧ alignSize newsize + sizeofStructMem + minSize < b.size - 16

/-- What `rt_realloc` of the used block at `o` can do. -/
inductive Reallocs (s : Heap) (bs : List Block) (o : ℕ) (b : Block) (newsize : UInt32) :
    Option (ℕ × Heap) → Prop
  | fails : newsize ≠ 0 → ¬ Shortens b newsize → Reallocs s bs o b newsize (some (0, s))
  | frees {s' : Heap} {bs' : List Block} : newsize = 0 → Releases s bs o s' bs' →
      Reallocs s bs o b newsize (some (0, s'))
  | stays : newsize.toNat + 16 ≤ b.size → ¬ Shortens b newsize →
      Reallocs s bs o b newsize (some (o + 16, s))
  | shrinks {s' : Heap} {bs' : List Block} {n : ℕ} : newsize.toNat ≤ n → n + 16 ≤ b.size →
      Shortens b newsize → Shrinks s bs o n s' bs' → Reallocs s bs o b newsize (some (o + 16, s'))
  | moves {s₁ s' : Heap} {bs₁ bs' : List Block} {n m o' w : ℕ} :
      Grants s bs n o' w s₁ bs₁ → newsize.toNat ≤ n → m ≤ n →
      min newsize.toNat (b.size - 16) ≤ m → m ≤ b.size - 16 → ¬ Shortens b newsize →
      Releases { s₁ with byte := copyBytes s₁.byte (o' + 16) (o + 16) m } bs₁ o s' bs' →
      Reallocs s bs o b newsize (some (o' + 16, s'))

theorem rtRealloc_spec {newsize : UInt32} (hl : s.Laid bs) (hb : (o, b) ∈ placed 0 bs)
    (hu : b.tag = true) (hreq : newsize.toNat ≤ maxRequest) :
    Reallocs s bs o b newsize (s.rtRealloc (o + 16) newsize) := by
  obtain ⟨hle, hmax⟩ := toNat_le_alignSize hreq
  have hzero := alignSize_eq_zero hreq
  have hsize := hl.tiled.size b (mem_of_mem_placed hb)
  have hend := le_total_of_mem_placed hb
  have hbound := hl.tiled.bound
  have htotal := hl.tiled.total
  have hbsize : subSize (subSize (s.get o).next o) sizeofStructMem = b.size - 16 := by
    have hnext : (s.get o).next = o + b.size := by
      obtain ⟨pre, post, rfl, h⟩ := mem_placed_iff.mp hb
      rw [Nat.zero_add] at h
      rw [h]
      exact hl.tiled.get_next
    have hsub : o + b.size - o = b.size := by omega
    rw [hnext, subSize_of_le (b := o) (by omega) (by omega), hsub]
    exact subSize_of_le (by unfold sizeofStructMem; omega) (by omega)
  have hsub : o + 16 - sizeofStructMem = o := rfl
  rw [rtRealloc]
  dsimp only
  by_cases hlarge : s.memSizeAligned < alignSize newsize
  · rw [if_pos hlarge]
    refine .fails (fun h => ?_) fun h => ?_
    · rw [hzero.mpr h] at hlarge
      omega
    · have hshort := h.2
      unfold heapEnd sizeofStructMem at htotal
      unfold sizeofStructMem minSize at hshort
      omega
  rw [if_neg hlarge]
  by_cases h0 : alignSize newsize = 0
  · obtain ⟨s', bs', hfree, hr⟩ := rtFree_spec hl hb hu
    rw [if_pos h0, hfree]
    exact .frees (hzero.mp h0) hr
  rw [if_neg h0, if_neg (by omega), if_neg (by omega), hsub, hbsize]
  by_cases heq : b.size - 16 = alignSize newsize
  · rw [if_pos heq]
    exact .stays (by omega) fun h => by
      have hshort := h.2
      unfold sizeofStructMem minSize at hshort
      omega
  rw [if_neg heq]
  by_cases hshort : alignSize newsize + sizeofStructMem + minSize < b.size - 16
  · rw [if_pos hshort]
    unfold sizeofStructMem minSize at hshort
    obtain ⟨pre, post, z, rfl, rfl, rfl⟩ := eq_of_used hb hu
    change alignSize newsize + 16 + 12 < z - 16 at hshort
    obtain ⟨r, rfl⟩ : ∃ r, z = alignSize newsize + 16 + r :=
      ⟨z - (alignSize newsize + 16), by omega⟩
    have hmod : alignSize newsize % 8 = 0 := by
      unfold alignSize
      rw [toNat_rtAlign, Nat.mul_mod_left]
    obtain ⟨s', bs', hplug, hs⟩ := shrink_spec hl (by omega) hmod (by omega)
    have heq : (s.shorten (Span.total pre) (alignSize newsize)).plugHoles
        (Span.total pre + sizeofStructMem + alignSize newsize) = some s' := hplug
    rw [heq]
    exact .shrinks hle (by change _ ≤ alignSize newsize + 16 + r; omega)
      ⟨fun h => h0 (hzero.mpr h), by
        unfold sizeofStructMem minSize
        change _ < alignSize newsize + 16 + r - 16
        omega⟩ hs
  · -- the bytes are copied to another block
    rw [if_neg hshort]
    rcases rtMalloc_spec hl (rtAlign newsize rtAlignSize) with ⟨hnull, -⟩ |
      ⟨o', w, s₁, bs₁, hsome, hg⟩
    · rw [hnull]
      exact .fails (fun h => h0 (hzero.mpr h)) fun h => hshort h.2
    · have hblock := (le_blockSize (rtAlign newsize rtAlignSize)).2
      rw [alignSize_rtAlign hreq] at hblock
      have hnew : (o', ⟨w, true⟩) ∈ placed 0 bs₁ := (hg.used _ _ rfl).mpr (.inr ⟨rfl, rfl⟩)
      have hle' := hg.le
      set m := if b.size - 16 < alignSize newsize then b.size - 16 else alignSize newsize with hm
      have hmle : m ≤ alignSize newsize ∧ m ≤ b.size - 16 ∧ min newsize.toNat (b.size - 16) ≤ m := by
        rw [hm]
        split_ifs <;> omega
      have hl₂ : ({ s₁ with byte := copyBytes s₁.byte (o' + 16) (o + 16) m } : Heap).Laid bs₁ := by
        refine hg.laid.store hnew fun x hx => copyBytes_of_outside ?_
        change Outside (o' + 16) (w - 16) x at hx
        unfold Outside at hx ⊢
        omega
      obtain ⟨s', bs', hfree, hr⟩ := rtFree_spec hl₂ ((hg.used o b hu).mpr (.inl hb)) hu
      simp only [hsome, Option.bind_eq_bind, Option.bind_some]
      rw [if_neg (by omega), hfree]
      exact .moves hg (by omega) (by omega) hmle.2.2 hmle.2.1 (fun h => hshort h.2) hr

end SortingLine.Heap
