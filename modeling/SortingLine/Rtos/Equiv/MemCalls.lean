import SortingLine.Rtos.Equiv.MemPlug

/-!
# The calls on the list of blocks

What `rt_malloc` and `rt_free` do to the blocks of a heap whose variables are right (`Laid`):
`rtMalloc_spec`, `rtFree_spec`.  No assertion fails, and no loop goes on for ever.
-/

namespace SortingLine.Heap

open Memory Span

variable {s s' s'' : Heap} {bs bs' bs'' pre post : List Block} {a b : Block} {k l n o x z : ℕ}

/-- The headers and the variables of the heap are right. -/
structure Laid (s : Heap) (bs : List Block) : Prop where
  tiled : s.Tiled bs
  coalesced : Coalesced bs
  lfreeAt : LfreeAt s.lfree bs
  usedMem : s.usedMem = usedTotal bs
  maxMem : s.usedMem ≤ s.maxMem
  room : 16 ≤ s.memSizeAligned

theorem subSize_of_le {a b : ℕ} (h : b ≤ a) (ha : a < 4294967296) : subSize a b = a - b := by
  unfold subSize
  omega

theorem total_mod (h : ∀ b ∈ bs, b.size % 8 = 0) : Span.total bs % 8 = 0 := by
  induction bs with
  | nil => rfl
  | cons b bs ih =>
    have hb := h b (List.mem_cons_self ..)
    have hrest := ih fun c hc => h c (List.mem_cons_of_mem _ hc)
    rw [total_cons]
    omega

theorem length_le (h : ∀ b ∈ bs, 24 ≤ b.size) : bs.length ≤ Span.total bs := by
  induction bs with
  | nil => simp
  | cons b bs ih =>
    have hb := h b (List.mem_cons_self ..)
    have hrest := ih fun c hc => h c (List.mem_cons_of_mem _ hc)
    rw [total_cons, List.length_cons]
    omega

/-- Enough fuel for a loop over the blocks. -/
theorem Tiled.length_lt_fuel (ht : s.Tiled (pre ++ post)) : post.length < s.fuel := by
  have hlen := length_le ht.size
  rw [ht.total, List.length_append] at hlen
  unfold fuel
  omega

/-! ### The loops of `rt_malloc` -/

/-- A free block at this place is found by a search for `n` bytes. -/
def FitsAt (s : Heap) (n o : ℕ) (b : Block) : Prop :=
  b.tag = false ∧ n + 16 ≤ b.size ∧ o + n < s.memSizeAligned

theorem search_spec (ht : s.Tiled (pre ++ post)) (hn : n ≤ s.memSizeAligned) {fuel : ℕ}
    (hfuel : post.length < fuel) :
    (s.search n fuel (Span.total pre) = some none ∧
        ∀ o b, (o, b) ∈ placed (Span.total pre) post → ¬ s.FitsAt n o b) ∨
      ∃ mid b post', post = mid ++ b :: post' ∧ s.FitsAt n (Span.total (pre ++ mid)) b ∧
        s.search n fuel (Span.total pre) = some (some (Span.total (pre ++ mid))) := by
  induction post generalizing pre fuel with
  | nil =>
    obtain ⟨fuel, rfl⟩ : ∃ m, fuel = m + 1 := ⟨fuel - 1, by rw [List.length_nil] at hfuel; omega⟩
    have htotal := ht.total
    have hbound := ht.bound
    unfold heapEnd at htotal hbound
    rw [List.append_nil] at htotal
    left
    refine ⟨?_, by simp [placed]⟩
    rw [search, if_neg]
    rw [subSize_of_le hn (by omega)]
    omega
  | cons b post ih =>
    obtain ⟨fuel, rfl⟩ : ∃ m, fuel = m + 1 := ⟨fuel - 1, by rw [List.length_cons] at hfuel; omega⟩
    rw [List.length_cons] at hfuel
    have htotal := ht.total
    have hbound := ht.bound
    have hsize := ht.size b (by simp)
    unfold heapEnd at htotal hbound
    simp only [total_append, total_cons] at htotal
    have hiff : (s.get (Span.total pre)).used = 0 ∧ n ≤ subSize (s.get (Span.total pre)).next
        (Span.total pre + sizeofStructMem) ↔ b.tag = false ∧ n + 16 ≤ b.size := by
      unfold sizeofStructMem at htotal hbound ⊢
      rw [ht.get_used, ht.get_next, subSize_of_le (by omega) (by omega)]
      exact and_congr_right fun _ => by omega
    unfold sizeofStructMem at htotal hbound
    rw [search, subSize_of_le hn (by omega)]
    by_cases hlt : Span.total pre < s.memSizeAligned - n
    · rw [if_pos hlt]
      by_cases hfit : b.tag = false ∧ n + 16 ≤ b.size
      · right
        rw [if_pos (hiff.mpr hfit)]
        refine ⟨[], b, post, rfl, ⟨hfit.1, hfit.2, ?_⟩, ?_⟩
        · rw [List.append_nil]
          omega
        · rw [List.append_nil]
      · rw [if_neg (hiff.not.mpr hfit), ht.get_next]
        have ht' : s.Tiled ((pre ++ [b]) ++ post) := by simpa using ht
        have hplace : Span.total (pre ++ [b]) = Span.total pre + b.size := by simp
        rw [← hplace]
        rcases ih ht' (Nat.lt_of_succ_lt_succ hfuel) with ⟨hnone, hall⟩ | ⟨mid, c, post', rfl, hc, hsome⟩
        · left
          refine ⟨hnone, fun o c hc => ?_⟩
          rw [placed, List.mem_cons, Prod.mk.injEq] at hc
          rcases hc with ⟨rfl, rfl⟩ | hc
          · exact fun h => hfit ⟨h.1, h.2.1⟩
          · exact hall o c (by rwa [hplace])
        · right
          rw [List.append_assoc] at hc hsome
          exact ⟨b :: mid, c, post', rfl, hc, hsome⟩
    · left
      rw [if_neg hlt]
      refine ⟨rfl, fun o c hc => ?_⟩
      rintro ⟨-, -, hend⟩
      have := (bounds_of_mem_placed hc).1
      omega

theorem nextUnused_spec (ht : s.Tiled (pre ++ post)) {fuel : ℕ} (hfuel : post.length < fuel) :
    ∃ mid post', post = mid ++ post' ∧ (∀ b ∈ mid, b.tag = true) ∧
      (∀ b ∈ post'.head?, b.tag = false) ∧
      s.nextUnused fuel (Span.total pre) = some (Span.total (pre ++ mid)) := by
  induction post generalizing pre fuel with
  | nil =>
    obtain ⟨fuel, rfl⟩ : ∃ m, fuel = m + 1 := ⟨fuel - 1, by rw [List.length_nil] at hfuel; omega⟩
    have htotal := ht.total
    rw [List.append_nil] at htotal
    refine ⟨[], [], rfl, by simp, by simp, ?_⟩
    rw [nextUnused, if_neg (by rintro ⟨-, h⟩; exact h htotal), List.append_nil]
  | cons b post ih =>
    obtain ⟨fuel, rfl⟩ : ∃ m, fuel = m + 1 := ⟨fuel - 1, by rw [List.length_cons] at hfuel; omega⟩
    rw [List.length_cons] at hfuel
    have htotal := ht.total
    have hsize := ht.size b (by simp)
    simp only [total_append, total_cons] at htotal
    rw [nextUnused]
    cases htag : b.tag with
    | false =>
      refine ⟨[], b :: post, rfl, by simp, by simpa using htag, ?_⟩
      rw [if_neg fun h => h.1 (ht.get_used.mpr htag), List.append_nil]
    | true =>
      have ht' : s.Tiled ((pre ++ [b]) ++ post) := by simpa using ht
      have hplace : Span.total (pre ++ [b]) = Span.total pre + b.size := by simp
      have hused : (s.get (Span.total pre)).used ≠ 0 := by
        rw [ne_eq, ht.get_used, htag]
        decide
      rw [if_pos ⟨hused, by omega⟩, ht.get_next, ← hplace]
      obtain ⟨mid, post', rfl, hmid, hhead, heq⟩ := ih ht' (Nat.lt_of_succ_lt_succ hfuel)
      refine ⟨b :: mid, post', rfl, ?_, hhead, ?_⟩
      · simpa [htag] using hmid
      · rw [heq, List.append_assoc, List.singleton_append]

/-! ### `rt_malloc` -/

/-- `RT_ALIGN` adds and then clears the low bits; the sum may wrap. -/
theorem toNat_rtAlign (size : UInt32) :
    (rtAlign size rtAlignSize).toNat = (size.toNat + 7) % 4294967296 / 8 * 8 := by
  have hmask : (~~~(rtAlignSize - 1)).toNat = (2 ^ 29 - 1) * 2 ^ 3 := by decide
  have hadd : (size + rtAlignSize - 1).toNat = (size.toNat + 7) % 4294967296 := by
    have halign : rtAlignSize.toNat = 8 := by decide
    have hone : (1 : UInt32).toNat = 1 := by decide
    have hlt := size.toNat_lt
    rw [UInt32.toNat_sub, UInt32.toNat_add, halign, hone]
    omega
  rw [rtAlign, UInt32.toNat_and, hmask, hadd]
  set x := (size.toNat + 7) % 4294967296
  have hlt : x < 2 ^ 32 := Nat.mod_lt _ (by decide)
  have hpow : x / 8 * 8 = x / 2 ^ 3 * 2 ^ 3 := rfl
  refine Nat.eq_of_testBit_eq fun i => ?_
  rw [hpow, Nat.testBit_and, Nat.testBit_mul_two_pow, Nat.testBit_mul_two_pow,
    Nat.testBit_two_pow_sub_one, Nat.testBit_div_two_pow]
  by_cases h3 : 3 ≤ i
  · rw [Nat.sub_add_cancel h3]
    by_cases h32 : i < 32
    · simp [h3, (by omega : i - 3 < 29)]
    · rw [Nat.testBit_lt_two_pow (hlt.trans_le (Nat.pow_le_pow_right (by decide) (by omega)))]
      simp
  · simp [h3]

/-- The number of bytes that `rt_malloc` looks for. -/
def blockSize (size : UInt32) : ℕ :=
  if alignSize size < minSizeAligned then minSizeAligned else alignSize size

theorem blockSize_mod (size : UInt32) : blockSize size % 8 = 0 := by
  unfold blockSize alignSize
  split_ifs
  · rfl
  · rw [toNat_rtAlign, Nat.mul_mod_left]

theorem le_blockSize (size : UInt32) : 16 ≤ blockSize size ∧ alignSize size ≤ blockSize size := by
  unfold blockSize minSizeAligned
  split_ifs <;> omega

theorem Tiled.of_byte (ht : s.Tiled bs) (hbyte : s'.byte = s.byte)
    (hsize : s'.memSizeAligned = s.memSizeAligned) : s'.Tiled bs := by
  have hget : ∀ o, s'.get o = s.get o := fun o => get_congr fun x _ _ => by rw [hbyte]
  have hend : s'.heapEnd = s.heapEnd := by rw [heapEnd, heapEnd, hsize]
  refine ⟨ht.walk.congr ht.size fun o _ _ => hget o, ht.total.trans hend.symm, ht.size, ht.align,
    ?_, hend ▸ ht.bound⟩
  rw [Ends, hend, hget]
  exact ht.ends

theorem Keeps.refl (s : Heap) (bs : List Block) : s.Keeps s bs := fun _ _ => rfl

theorem Keeps.put {g : HeapMem} (h : s.Keeps s' bs) (hk : Boundary bs k) :
    s.Keeps (s'.put k g) bs := fun x hx => (byte_put_of_outside (hx k hk)).trans (h x hx)

/-- A block is split: besides the headers nothing changes. -/
theorem Tiled.splits {w r ptr2 next : ℕ} {u u' : Bool} {f : HeapMem → HeapMem}
    (ht : s.Tiled (pre ++ ⟨w + r, u⟩ :: post)) (hw : 24 ≤ w) (hr : 24 ≤ r) (hw8 : w % 8 = 0)
    (hptr2 : ptr2 = Span.total pre + w) (hnext : next = Span.total pre + (w + r))
    (hf : ∀ p, f (header ⟨w + r, u⟩ (Span.total pre) p) = header ⟨w, u'⟩ (Span.total pre) p) :
    let s₂ := (s.put ptr2 { magic := heapMagic, used := 0, next, prev := Span.total pre }).modify
      (Span.total pre) f
    let s₃ :=
      if next ≠ s.memSizeAligned + sizeofStructMem then
        s₂.modify next fun h => { h with prev := ptr2 }
      else s₂
    s₃.Tiled (pre ++ ⟨w, u'⟩ :: ⟨r, false⟩ :: post) ∧
      s.Keeps s₃ (pre ++ ⟨w, u'⟩ :: ⟨r, false⟩ :: post) ∧ s₃ = { s with byte := s₃.byte } := by
  intro s₂ s₃
  have hfirst : Boundary (pre ++ ⟨w, u'⟩ :: ⟨r, false⟩ :: post) (Span.total pre) :=
    boundary_total _ _
  have hsecond : Boundary (pre ++ ⟨w, u'⟩ :: ⟨r, false⟩ :: post) ptr2 :=
    ⟨pre ++ [⟨w, u'⟩], ⟨r, false⟩ :: post, by simp, by simp [hptr2]⟩
  have hthird : Boundary (pre ++ ⟨w, u'⟩ :: ⟨r, false⟩ :: post) next :=
    ⟨pre ++ [⟨w, u'⟩, ⟨r, false⟩], post, by simp, by simp [hnext]⟩
  have hkeep : s.Keeps s₂ (pre ++ ⟨w, u'⟩ :: ⟨r, false⟩ :: post) :=
    ((Keeps.refl _ _).put hsecond).put hfirst
  refine ⟨ht.split hw hr hw8 hptr2 hnext hf, ?_, ?_⟩
  · simp only [s₃]
    split_ifs
    · exact hkeep.put hthird
    · exact hkeep
  · simp only [s₃]
    split_ifs <;> rfl

/-- The part of a block behind its header is kept. -/
theorem Keeps.data (h : s.Keeps s' bs) (hb : (k, b) ∈ placed 0 bs) (hx : k + 16 ≤ x)
    (hx' : x < k + b.size) : s'.byte x = s.byte x := by
  refine h x fun k' hk' => ?_
  have := le_or_le_of_mem_placed hb hk'
  unfold Outside
  omega

/-- What `rt_malloc` makes of a free block: `w` bytes are used, the rest stays free. -/
structure Carved (s : Heap) (pre : List Block) (z n : ℕ) (post : List Block) (s' : Heap) (w : ℕ)
    (rest : List Block) : Prop where
  size : z = w + Span.total rest
  le : n + 16 ≤ w
  free : rest = [] ∨ ∃ r, rest = [⟨r, false⟩]
  tiled : s'.Tiled (pre ++ ⟨w, true⟩ :: (rest ++ post))
  keeps : s.Keeps s' (pre ++ ⟨w, true⟩ :: (rest ++ post))
  memSizeAligned : s'.memSizeAligned = s.memSizeAligned
  lfree : s'.lfree = s.lfree
  usedMem : s'.usedMem = s.usedMem + w
  maxMem : s'.usedMem ≤ s'.maxMem

/-- What is left to do when the headers are right. -/
theorem Tiled.carved {w : ℕ} {rest : List Block}
    (ht : s'.Tiled (pre ++ ⟨w, true⟩ :: (rest ++ post)))
    (hkeep : s.Keeps s' (pre ++ ⟨w, true⟩ :: (rest ++ post))) (heq : s' = { s with byte := s'.byte })
    (hsize : z = w + Span.total rest) (hle : n + 16 ≤ w)
    (hfree : rest = [] ∨ ∃ r, rest = [⟨r, false⟩]) :
    Carved s pre z n post
      ((s'.count w).modify (Span.total pre) fun h => { h with magic := heapMagic }) w rest := by
  have ht' : (s'.count w).Tiled (pre ++ ⟨w, true⟩ :: (rest ++ post)) := ht.of_byte rfl rfl
  have hmark : ((s'.count w).modify (Span.total pre) fun h =>
      { h with magic := heapMagic }).Tiled (pre ++ ⟨w, true⟩ :: (rest ++ post)) := by
    refine ht'.mark ?_
    rw [ht'.around.get]
    rfl
  have hkeep' : s.Keeps (s'.count w) (pre ++ ⟨w, true⟩ :: (rest ++ post)) := hkeep
  have hused : s'.usedMem = s.usedMem := by rw [heq]
  have hlfree : s'.lfree = s.lfree := by rw [heq]
  have hmem : s'.memSizeAligned = s.memSizeAligned := by rw [heq]
  refine ⟨hsize, hle, hfree, hmark, hkeep'.put (boundary_total _ _), hmem, hlfree, ?_,
    le_max_right _ _⟩
  rw [modify, usedMem_put, ← hused]
  rfl

theorem claim_spec (ht : s.Tiled (pre ++ ⟨z, false⟩ :: post)) (hn : 16 ≤ n) (hn8 : n % 8 = 0)
    (hz : n + 16 ≤ z) : ∃ w rest, Carved s pre z n post (s.claim (Span.total pre) n) w rest := by
  have hnext : (s.get (Span.total pre)).next = Span.total pre + z := ht.get_next
  have hbound := ht.bound
  have htotal := ht.total
  simp only [total_append, total_cons] at htotal
  unfold claim carve
  dsimp only
  rw [hnext, subSize_of_le (by unfold sizeofStructMem; omega) (by omega)]
  by_cases hlong : n + sizeofStructMem + minSizeAligned ≤
      Span.total pre + z - (Span.total pre + sizeofStructMem)
  · -- what is left becomes a block
    rw [if_pos hlong]
    unfold sizeofStructMem minSizeAligned at hlong
    obtain ⟨r, rfl⟩ : ∃ r, z = n + 16 + r := ⟨z - (n + 16), by omega⟩
    have hptr2 : Span.total pre + sizeofStructMem + n = Span.total pre + (n + 16) := by
      unfold sizeofStructMem
      omega
    have hhead (p : ℕ) : { header ⟨n + 16 + r, false⟩ (Span.total pre) p with
        next := Span.total pre + sizeofStructMem + n, used := 1 } =
        header ⟨n + 16, true⟩ (Span.total pre) p := by
      rw [hptr2]
      rfl
    obtain ⟨ht', hkeep, heq⟩ := ht.splits (f := fun h => { h with
      next := Span.total pre + sizeofStructMem + n, used := 1 }) (by omega) (by omega) (by omega)
      hptr2 rfl hhead
    exact ⟨n + 16, [⟨r, false⟩], ht'.carved hkeep heq rfl le_rfl (.inr ⟨r, rfl⟩)⟩
  · rw [if_neg hlong]
    have ht' : (s.modify (Span.total pre) fun h => { h with used := 1 }).Tiled
        (pre ++ ⟨z, true⟩ :: ([] ++ post)) := by
      refine ht.mark (u := true) ?_
      rw [ht.around.get]
      rfl
    have hsub : Span.total pre + z - Span.total pre = z := by omega
    rw [hsub]
    exact ⟨z, [], ht'.carved ((Keeps.refl _ _).put (boundary_total _ _)) rfl rfl hz (.inl rfl)⟩

/-- The blocks when the first part of a free block has become used. -/
theorem mem_placed_carve {w : ℕ} {rest : List Block} (hz : z = w + Span.total rest) :
    (o, b) ∈ placed 0 (pre ++ ⟨w, true⟩ :: (rest ++ post)) ↔
      (o, b) ∈ placed 0 pre ∨ (o = Span.total pre ∧ b = ⟨w, true⟩) ∨
        (o, b) ∈ placed (Span.total pre + w) rest ∨ (o, b) ∈ placed (Span.total pre + z) post := by
  rw [mem_placed_append_cons, placed_append, List.mem_append, hz, ← Nat.add_assoc]

theorem Coalesced.carve {w : ℕ} {rest : List Block} (h : Coalesced (pre ++ ⟨z, false⟩ :: post))
    (hfree : rest = [] ∨ ∃ r, rest = [⟨r, false⟩]) :
    Coalesced (pre ++ ⟨w, true⟩ :: (rest ++ post)) := by
  obtain ⟨hpre, hrest, hlast⟩ := List.isChain_append.mp h
  obtain ⟨hhead, hpost⟩ := List.isChain_cons.mp hrest
  have hhead' : ∀ c ∈ post.head?, c.tag = true := fun c hc =>
    (hhead c hc).resolve_left (by simp)
  refine List.isChain_append.mpr ⟨hpre, List.isChain_cons.mpr ⟨fun c _ => .inl rfl, ?_⟩, ?_⟩
  · rcases hfree with rfl | ⟨r, rfl⟩
    · exact hpost
    · exact List.isChain_cons.mpr ⟨fun c hc => .inr (hhead' c hc), hpost⟩
  · intro c hc d hd
    obtain rfl : d = ⟨w, true⟩ := by simpa using hd.symm
    exact .inr rfl

theorem LfreeAt.boundary (h : LfreeAt l bs) : Boundary bs l := by
  rcases h with rfl | ⟨b, hb, -⟩
  · exact ⟨bs, [], by simp, rfl⟩
  · exact boundary_of_mem_placed hb

/-- An allocation: of a free block at `o` the first `w` bytes are used. -/
structure Grants (s : Heap) (bs : List Block) (n o w : ℕ) (s' : Heap) (bs' : List Block) :
    Prop where
  laid : s'.Laid bs'
  data : ∀ k b, b.tag = true → (k, b) ∈ placed 0 bs' → ∀ x, k + 16 ≤ x → x < k + b.size →
    s'.byte x = s.byte x
  fits : ∃ b, (o, b) ∈ placed 0 bs ∧ s.FitsAt n o b
  le : n + 16 ≤ w
  used : ∀ k b, b.tag = true →
    ((k, b) ∈ placed 0 bs' ↔ (k, b) ∈ placed 0 bs ∨ (k = o ∧ b = ⟨w, true⟩))
  lowest : Lowest s.lfree bs → Lowest s'.lfree bs'
  memSizeAligned : s'.memSizeAligned = s.memSizeAligned

/-- What is left to do when `lfree` is right. -/
theorem Carved.grants {w : ℕ} {rest : List Block} {s₁ : Heap}
    (hl : s.Laid (pre ++ ⟨z, false⟩ :: post)) (hfit : s.FitsAt n (Span.total pre) ⟨z, false⟩)
    (hc : Carved s pre z n post s₁ w rest)
    (hlfree : LfreeAt l (pre ++ ⟨w, true⟩ :: (rest ++ post)))
    (hlowest : Lowest s.lfree (pre ++ ⟨z, false⟩ :: post) →
      Lowest l (pre ++ ⟨w, true⟩ :: (rest ++ post))) :
    Grants s (pre ++ ⟨z, false⟩ :: post) n (Span.total pre) w { s₁ with lfree := l }
      (pre ++ ⟨w, true⟩ :: (rest ++ post)) where
  laid := by
    refine ⟨hc.tiled.of_byte rfl rfl, hl.coalesced.carve hc.free, hlfree, ?_, hc.maxMem, ?_⟩
    · have hrest : usedTotal rest = 0 := by
        rcases hc.free with h | ⟨r, h⟩
        · rw [h, usedTotal_nil]
        · rw [h, usedTotal_cons, usedTotal_nil]
          rfl
      have hused := hl.usedMem
      rw [usedTotal_append, usedTotal_cons] at hused
      change s₁.usedMem = _
      rw [hc.usedMem, hused, usedTotal_append, usedTotal_cons, usedTotal_append, hrest]
      simp only [if_true, Bool.false_eq_true, if_false]
      omega
    · change 16 ≤ s₁.memSizeAligned
      rw [hc.memSizeAligned]
      exact hl.room
  data _ _ _ hb _ hx hx' := hc.keeps.data hb hx hx'
  fits := ⟨_, mem_placed_append _ _ _, hfit⟩
  le := hc.le
  used k b hb := by
    have hne : b ≠ ⟨z, false⟩ := by
      rintro rfl
      cases hb
    have hrest (q : ℕ) : (k, b) ∉ placed q rest := by
      rcases hc.free with h | ⟨r, h⟩
      · simp [h, placed]
      · rw [h]
        intro hmem
        simp only [placed, List.mem_singleton, Prod.mk.injEq] at hmem
        rw [hmem.2] at hb
        cases hb
    rw [mem_placed_carve hc.size, mem_placed_append_cons]
    simp only [hrest, hne, and_false, false_or]
    tauto
  lowest := hlowest
  memSizeAligned := hc.memSizeAligned

theorem grant_of_moveLfree {ptr : ℕ} (hmove : (s.claim ptr n).moveLfree ptr = some s')
    (hend : ptr + 16 + n ≤ s'.heapEnd) (halign : ptr % 8 = 0) :
    s.grant ptr n = some (ptr + 16, s') := by
  rw [grant, hmove, Option.bind_some]
  exact if_pos ⟨hend, halign⟩

theorem eq_of_lfree (h : s.lfree = l) : s = { s with lfree := l } := by
  cases s
  cases h
  rfl

theorem grant_spec (hl : s.Laid (pre ++ ⟨z, false⟩ :: post)) (hn : 16 ≤ n) (hn8 : n % 8 = 0)
    (hfit : s.FitsAt n (Span.total pre) ⟨z, false⟩) (hlow : s.lfree ≤ Span.total pre) :
    ∃ w s' bs', s.grant (Span.total pre) n = some (Span.total pre + 16, s') ∧
      Grants s (pre ++ ⟨z, false⟩ :: post) n (Span.total pre) w s' bs' := by
  obtain ⟨w, rest, hc⟩ := claim_spec hl.tiled hn hn8 hfit.2.1
  suffices h : ∃ l, (s.claim (Span.total pre) n).moveLfree (Span.total pre) =
      some { s.claim (Span.total pre) n with lfree := l } ∧
      LfreeAt l (pre ++ ⟨w, true⟩ :: (rest ++ post)) ∧
      (Lowest s.lfree (pre ++ ⟨z, false⟩ :: post) →
        Lowest l (pre ++ ⟨w, true⟩ :: (rest ++ post))) by
    obtain ⟨l, hmove, hlfree, hlowest⟩ := h
    have hgrants := hc.grants hl hfit hlfree hlowest
    refine ⟨w, _, _, grant_of_moveLfree hmove ?_ ?_, hgrants⟩
    · have htotal := hl.tiled.total
      have hlen : n + 16 ≤ z := hfit.2.1
      simp only [total_append, total_cons] at htotal
      rw [heapEnd, hgrants.memSizeAligned, ← heapEnd]
      omega
    · have halign := hl.tiled.align
      simp only [List.forall_mem_append] at halign
      exact total_mod halign.1
  generalize s.claim (Span.total pre) n = s₁ at hc ⊢
  rw [moveLfree, hc.lfree]
  by_cases hfirst : Span.total pre = s.lfree
  · -- `lfree` goes on to the next free block
    obtain ⟨mid, post', hsplit, hmid, hhead, hnext⟩ := nextUnused_spec hc.tiled
      hc.tiled.length_lt_fuel
    rw [if_pos hfirst, ← hfirst, hnext]
    refine ⟨_, rfl, ?_, fun hlowest => ?_⟩
    · rw [hsplit, ← List.append_assoc]
      cases post' with
      | nil => exact .inl (by rw [List.append_nil])
      | cons c post' => exact .inr ⟨c, mem_placed_append _ _ _, hhead c rfl⟩
    · rw [hsplit]
      intro o b hb hfree
      rw [placed_append, placed_append, List.mem_append, List.mem_append] at hb
      rcases hb with hb | hb | hb
      · -- before the block nothing is free
        have hle := hlowest o b (mem_placed_append_cons.mpr (.inl hb)) hfree
        have hsize := hl.tiled.size b (List.mem_append_left _ (mem_of_mem_placed hb))
        have := (bounds_of_mem_placed hb).2
        omega
      · rw [hmid b (mem_of_mem_placed hb)] at hfree
        cases hfree
      · have := (bounds_of_mem_placed hb).1
        rw [total_append]
        omega
  · rw [if_neg hfirst]
    refine ⟨s.lfree, ?_, ?_, fun hlowest => ?_⟩
    · exact congrArg some (eq_of_lfree hc.lfree)
    · have hz : n + 16 ≤ z := hfit.2.1
      rcases hl.lfreeAt with h | ⟨b, hb, hfree⟩
      · simp only [total_append, total_cons] at h
        omega
      · rw [mem_placed_append_cons] at hb
        rcases hb with hb | ⟨hb, -⟩ | hb
        · exact .inr ⟨b, (mem_placed_carve hc.size).mpr (.inl hb), hfree⟩
        · exact absurd hb.symm hfirst
        · have := (bounds_of_mem_placed hb).1
          dsimp only at this
          omega
    · intro o b hb hfree
      rw [mem_placed_carve hc.size] at hb
      rcases hb with hb | ⟨-, rfl⟩ | hb | hb
      · exact hlowest o b (mem_placed_append_cons.mpr (.inl hb)) hfree
      · cases hfree
      · have := (bounds_of_mem_placed hb).1
        omega
      · exact hlowest o b (mem_placed_append_cons.mpr (.inr (.inr hb))) hfree

/-- **`rt_malloc`** finds no free block from `lfree` on that is long enough, or it uses one. -/
theorem rtMalloc_spec (hl : s.Laid bs) (size : UInt32) :
    (s.rtMalloc size = some (0, s) ∧ (size ≠ 0 → ∀ o b, (o, b) ∈ placed 0 bs → s.lfree ≤ o →
        ¬ s.FitsAt (blockSize size) o b)) ∨
      ∃ o w s' bs', s.rtMalloc size = some (o + 16, s') ∧
        Grants s bs (blockSize size) o w s' bs' := by
  have ht := hl.tiled
  obtain ⟨hn, hle⟩ := le_blockSize size
  rw [rtMalloc]
  by_cases hsize : size = 0
  · exact .inl ⟨if_pos hsize, fun h => absurd hsize h⟩
  rw [if_neg hsize]
  dsimp only
  by_cases hlarge : s.memSizeAligned < alignSize size
  · refine .inl ⟨if_pos hlarge, fun _ o b _ _ h => ?_⟩
    have := h.2.2
    omega
  have hblock : (if alignSize size < minSizeAligned then minSizeAligned else alignSize size) =
      blockSize size := rfl
  rw [if_neg hlarge, hblock]
  have hmem : blockSize size ≤ s.memSizeAligned := by
    have hroom := hl.room
    unfold blockSize minSizeAligned
    split_ifs <;> omega
  obtain ⟨xs, ys, rfl, hplace⟩ := hl.lfreeAt.boundary
  have hsearch := search_spec ht hmem ht.length_lt_fuel
  rw [← hplace] at hsearch
  rcases hsearch with ⟨hnone, hall⟩ | ⟨mid, ⟨z, u⟩, post, rfl, hfit, hsome⟩
  · left
    rw [hnone]
    refine ⟨rfl, fun _ o b hb hlow => hall o b ?_⟩
    rw [placed_append, List.mem_append, Nat.zero_add, ← hplace] at hb
    refine hb.resolve_left fun h => ?_
    have hsize := ht.size b (List.mem_append_left _ (mem_of_mem_placed h))
    have := (bounds_of_mem_placed h).2
    omega
  · right
    obtain rfl : u = false := hfit.1
    rw [← List.append_assoc] at hl ⊢
    obtain ⟨w, s', bs', hgrant, hg⟩ := grant_spec hl hn (blockSize_mod size) hfit (by
      rw [hplace, total_append]
      exact Nat.le_add_right _ _)
    refine ⟨_, w, s', bs', ?_, hg⟩
    rw [hsome]
    exact hgrant

/-! ### `rt_free` -/

/-- A release: the block at `o` is not used any more. -/
structure Releases (s : Heap) (bs : List Block) (o : ℕ) (s' : Heap) (bs' : List Block) : Prop where
  laid : s'.Laid bs'
  data : ∀ k b, b.tag = true → (k, b) ∈ placed 0 bs' → ∀ x, k + 16 ≤ x → x < k + b.size →
    s'.byte x = s.byte x
  used : ∀ k b, b.tag = true → ((k, b) ∈ placed 0 bs' ↔ (k, b) ∈ placed 0 bs ∧ k ≠ o)
  lfree_le : s'.lfree ≤ o
  lowest : Lowest s.lfree bs → Lowest s'.lfree bs'
  memSizeAligned : s'.memSizeAligned = s.memSizeAligned

/-- The header of a used block as `rt_free` finds it. -/
theorem Tiled.get_of_used (ht : s.Tiled (pre ++ ⟨z, true⟩ :: post)) :
    s.get (Span.total pre) =
      { magic := heapMagic, used := 1, next := Span.total pre + z, prev := lastPlace 0 0 pre } :=
  ht.around.get

/-- The blocks besides one. -/
theorem mem_placed_erase (ht : s.Tiled (pre ++ a :: post)) :
    (o, b) ∈ placed 0 (pre ++ a :: post) ∧ o ≠ Span.total pre ↔
      (o, b) ∈ placed 0 pre ∨ (o, b) ∈ placed (Span.total pre + a.size) post := by
  rw [mem_placed_append_cons]
  constructor
  · rintro ⟨h | ⟨h, -⟩ | h, hne⟩
    · exact .inl h
    · exact absurd h hne
    · exact .inr h
  · have ha := ht.size a (by simp)
    rintro (h | h)
    · have hb := ht.size b (List.mem_append_left _ (mem_of_mem_placed h))
      have := (bounds_of_mem_placed h).2
      exact ⟨.inl h, by omega⟩
    · have := (bounds_of_mem_placed h).1
      exact ⟨.inr (.inr h), by omega⟩

/-- The blocks around a used one. -/
theorem eq_of_used (hb : (o, b) ∈ placed 0 bs) (hu : b.tag = true) :
    ∃ pre post z, bs = pre ++ ⟨z, true⟩ :: post ∧ o = Span.total pre ∧ b = ⟨z, true⟩ := by
  obtain ⟨pre, post, rfl, rfl⟩ := mem_placed_iff.mp hb
  obtain ⟨z, u⟩ := b
  obtain rfl : u = true := hu
  exact ⟨pre, post, z, rfl, Nat.zero_add _, rfl⟩

/-- The variables, and the header, when `rt_free` calls `plug_holes`. -/
theorem release_spec (ht : s.Tiled (pre ++ ⟨z, true⟩ :: post)) :
    (s.release (Span.total pre)).Tiled (pre ++ ⟨z, false⟩ :: post) ∧
      s.Keeps (s.release (Span.total pre)) (pre ++ ⟨z, true⟩ :: post) ∧
      (s.release (Span.total pre)).memSizeAligned = s.memSizeAligned ∧
      (s.release (Span.total pre)).lfree = min (Span.total pre) s.lfree ∧
      (s.release (Span.total pre)).usedMem = s.usedMem - z ∧
      (s.release (Span.total pre)).maxMem = s.maxMem := by
  have hget := ht.get_of_used
  set s₁ := s.modify (Span.total pre) fun h => { h with used := 0, magic := heapMagic } with hs₁
  have ht₁ : s₁.Tiled (pre ++ ⟨z, false⟩ :: post) := by
    refine ht.mark (u := false) ?_
    rw [hget]
    rfl
  have hkeep : s.Keeps s₁ (pre ++ ⟨z, true⟩ :: post) :=
    (Keeps.refl s _).put (boundary_total _ _)
  have hnext : (s₁.get (Span.total pre)).next = Span.total pre + z := ht₁.get_next
  unfold release
  dsimp only
  rw [← hs₁]
  have hsub : Span.total pre + z - Span.total pre = z := by omega
  have hused : s₁.usedMem = s.usedMem := rfl
  have hlfree : s₁.lfree = s.lfree := rfl
  split_ifs with hif
  · have hget' : ({ s₁ with lfree := Span.total pre } : Heap).get (Span.total pre) =
        s₁.get (Span.total pre) := rfl
    refine ⟨ht₁.of_byte rfl rfl, hkeep, rfl, ?_, ?_, rfl⟩
    · rw [hlfree] at hif
      exact (min_eq_left hif.le).symm
    · rw [hget', hnext, hsub]
      exact congrArg (· - z) hused
  · refine ⟨ht₁.of_byte rfl rfl, hkeep, rfl, ?_, ?_, rfl⟩
    · rw [hlfree] at hif
      exact (min_eq_right (not_lt.mp hif)).symm
    · rw [hnext, hsub]
      exact congrArg (· - z) hused

/-- **`rt_free`** of a used block makes it free. -/
theorem rtFree_spec (hl : s.Laid bs) (hb : (o, b) ∈ placed 0 bs) (hu : b.tag = true) :
    ∃ s' bs', s.rtFree (o + 16) = some s' ∧ Releases s bs o s' bs' := by
  obtain ⟨pre, post, z, rfl, rfl, rfl⟩ := eq_of_used hb hu
  have ht := hl.tiled
  have hz : 24 ≤ z := ht.size ⟨z, true⟩ (by simp)
  have htotal := ht.total
  have halign := ht.align
  simp only [total_append, total_cons] at htotal
  simp only [List.forall_mem_append] at halign
  have hplace := total_mod halign.1
  have hsub : Span.total pre + 16 - sizeofStructMem = Span.total pre := rfl
  have hget := ht.get_of_used
  obtain ⟨ht₁, hkeep, hmem, hlfree, hused, hmax⟩ := release_spec ht
  obtain ⟨s', bs', hplug, hj, hco⟩ := plugHoles_spec ht₁
  obtain ⟨hpre, hrest, -⟩ := List.isChain_append.mp hl.coalesced
  obtain ⟨-, hpost⟩ := List.isChain_cons.mp hrest
  have hboundary : ∀ k, Boundary (pre ++ ⟨z, false⟩ :: post) k →
      Boundary (pre ++ ⟨z, true⟩ :: post) k := fun k hk =>
    hk.cut [⟨z, true⟩] (by simp)
  have hlfreeAt : LfreeAt (s.release (Span.total pre)).lfree (pre ++ ⟨z, false⟩ :: post) := by
    rw [hlfree]
    rcases Nat.le_total (Span.total pre) s.lfree with hle | hle
    · rw [min_eq_left hle]
      exact .inr ⟨_, mem_placed_append _ _ _, rfl⟩
    · rw [min_eq_right hle]
      rcases hl.lfreeAt with h | ⟨b, hb, hfree⟩
      · simp only [total_append, total_cons] at h
        omega
      · rw [mem_placed_append_cons] at hb
        refine .inr ⟨b, mem_placed_append_cons.mpr ?_, hfree⟩
        rcases hb with hb | ⟨-, rfl⟩ | hb
        · exact .inl hb
        · cases hfree
        · exact .inr (.inr hb)
  have hmarked : ∀ k b, b.tag = true → ((k, b) ∈ placed 0 bs' ↔
      (k, b) ∈ placed 0 (pre ++ ⟨z, true⟩ :: post) ∧ k ≠ Span.total pre) := fun k b hb => by
    have hne : b ≠ ⟨z, false⟩ := by
      rintro rfl
      cases hb
    rw [hj.used k b hb, mem_placed_erase ht, mem_placed_append_cons]
    simp only [hne, and_false, false_or]
  refine ⟨s', bs', ?_, ⟨hj.tiled, hco hpre hpost, hj.lfreeAt hlfreeAt, ?_, ?_, ?_⟩, ?_, hmarked, ?_, ?_,
    hj.memSizeAligned.trans hmem⟩
  · rw [rtFree, if_neg (by omega), if_neg (by omega), hsub]
    dsimp only
    rw [if_neg (by rw [hget]; simp), hplug]
  · have hold := hl.usedMem
    simp only [usedTotal_append, usedTotal_cons] at hold
    rw [hj.usedMem, hused, hj.usedTotal, hold, usedTotal_append, usedTotal_cons]
    simp only [if_true, Bool.false_eq_true, if_false]
    omega
  · have hold := hl.maxMem
    rw [hj.usedMem, hj.maxMem, hused, hmax]
    omega
  · rw [hj.memSizeAligned, hmem]
    exact hl.room
  · intro k b hb hmem x hx hx'
    exact (hkeep.trans hj.keeps hboundary).data ((hmarked k b hb).mp hmem).1 hx hx'
  · have hle := hj.lfree_le
    rw [hlfree] at hle
    exact hle.trans (min_le_left _ _)
  · intro hlow
    refine hj.lowest fun k b hb hfree => ?_
    rw [hlfree]
    rw [mem_placed_append_cons] at hb
    rcases hb with hb | ⟨rfl, -⟩ | hb
    · exact (min_le_right _ _).trans (hlow k b (mem_placed_append_cons.mpr (.inl hb)) hfree)
    · exact min_le_left _ _
    · exact (min_le_right _ _).trans (hlow k b (mem_placed_append_cons.mpr (.inr (.inr hb))) hfree)

/-- What is stored behind a header changes no header. -/
theorem Laid.store {m : Memory} (hl : s.Laid bs) (hb : (o, b) ∈ placed 0 bs)
    (hm : ∀ x, Outside (o + 16) (b.size - 16) x → m x = s.byte x) :
    ({ s with byte := m } : Heap).Laid bs := by
  have ht := hl.tiled
  have hget {k : ℕ} (hk : Boundary bs k) : ({ s with byte := m } : Heap).get k = s.get k := by
    refine get_congr fun x hx hx' => hm x ?_
    have := le_or_le_of_mem_placed hb hk
    unfold Outside
    omega
  have hend : ({ s with byte := m } : Heap).get s.heapEnd = s.get s.heapEnd :=
    hget (ht.total ▸ ⟨bs, [], by simp, rfl⟩)
  refine ⟨⟨ht.walk.congr_placed fun k c hc => hget (boundary_of_mem_placed hc), ht.total, ht.size,
    ht.align, ?_, ht.bound⟩, hl.coalesced, hl.lfreeAt, hl.usedMem, hl.maxMem, hl.room⟩
  have hends := ht.ends
  unfold Ends at hends ⊢
  exact hend ▸ hends

end SortingLine.Heap
