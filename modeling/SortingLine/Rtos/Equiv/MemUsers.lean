import SortingLine.Rtos.Equiv.MemRealloc

/-!
# What the users of the heap can rely on

In every run of legal calls (`HeapUse.step`) from a heap that `rt_system_heap_init` has made, the
used blocks are those that are held (`Kept`).  So no call fails an assertion or goes on for ever
(`call_isSome`); what is held is inside the heap, aligned and apart from all else that is held, and
it has the bytes that its holder relies on (`held_intact`); and when all is given back, the heap is
as it was at the start (`all_free`).

That `rt_malloc` returns `RT_NULL` only if no free block is long enough rests on `lfree` being the
lowest free block.  This is so just as long as no block becomes shorter above it without a free
block behind (`lfree_lowest_iff`).
-/

namespace SortingLine.HeapUse

open Memory Span Heap

variable {heap : Heap} {u u' : HeapUse} {bs bs' : List Block} {b : Block} {c : HeapCall}
  {d data : List UInt8} {k n o p q w x : ℕ} {tr : List (HeapUse × HeapCall)}

theorem held_give : (u.give p d).held q = if q = p then some d else u.held q :=
  Function.update_apply ..

theorem held_takeBack : (u.takeBack p).held q = if q = p then none else u.held q :=
  Function.update_apply ..

/-! ### The invariant -/

/-- The used blocks are those that are held. -/
structure Kept (u : HeapUse) (bs : List Block) : Prop where
  laid : u.heap.Laid bs
  held : ∀ p d, u.held p = some d → ∃ o b, p = o + 16 ∧ b.tag = true ∧ (o, b) ∈ placed 0 bs ∧
    d.length + 16 ≤ b.size ∧ bytesAt u.heap.byte p d.length = d
  owned : ∀ o b, b.tag = true → (o, b) ∈ placed 0 bs → (u.held (o + 16)).isSome
  lfree_lt : (∀ p, u.held p = none) → u.heap.lfree < Span.total bs

/-- A place has one used block. -/
theorem Kept.eq (hk : u.Kept bs) {b' : Block} (hb : (o, b) ∈ placed 0 bs)
    (hb' : (o, b') ∈ placed 0 bs) : b = b' :=
  eq_of_mem_placed (fun _ hc => Nat.lt_of_lt_of_le (by decide) (hk.laid.tiled.size _ hc)) hb hb'

/-- A pointer that is held. -/
theorem Kept.of_isSome (hk : u.Kept bs) (hp : (u.held p).isSome) :
    ∃ o b, p = o + 16 ∧ u.held p = some (u.dataAt p) ∧ b.tag = true ∧ (o, b) ∈ placed 0 bs ∧
      (u.dataAt p).length + 16 ≤ b.size ∧
      bytesAt u.heap.byte p (u.dataAt p).length = u.dataAt p := by
  obtain ⟨d, hd⟩ := Option.isSome_iff_exists.mp hp
  have hdata : u.dataAt p = d := by rw [dataAt, hd, Option.getD_some]
  obtain ⟨o, b, hpo, hu, hb, hlen, hbytes⟩ := hk.held p d hd
  exact ⟨o, b, hpo, by rw [hd, hdata], hu, hb, by rwa [hdata], by rwa [hdata]⟩

theorem Kept.held_zero (hk : u.Kept bs) : u.held 0 = none := by
  cases h : u.held 0 with
  | none => rfl
  | some d =>
    obtain ⟨o, b, hp, -⟩ := hk.held 0 d h
    cases hp

/-- What is held is kept where the used blocks are, and their bytes. -/
theorem Kept.held_of_data (hk : u.Kept bs) (hd : u.held p = some d) {heap' : Heap}
    (hsub : ∀ k b, b.tag = true → (k, b) ∈ placed 0 bs → k + 16 = p → (k, b) ∈ placed 0 bs')
    (hdata : ∀ k b, b.tag = true → (k, b) ∈ placed 0 bs' → k + 16 = p →
      ∀ x, k + 16 ≤ x → x < k + b.size → heap'.byte x = u.heap.byte x) :
    ∃ o b, p = o + 16 ∧ b.tag = true ∧ (o, b) ∈ placed 0 bs' ∧ d.length + 16 ≤ b.size ∧
      bytesAt heap'.byte p d.length = d := by
  obtain ⟨o, b, rfl, hu, hb, hlen, hbytes⟩ := hk.held p d hd
  have hb' := hsub o b hu hb rfl
  refine ⟨o, b, rfl, hu, hb', hlen, ?_⟩
  conv_rhs => rw [← hbytes]
  exact bytesAt_congr fun x hx hx' => hdata o b hu hb' rfl x hx (by omega)

/-- A block is given to a user. -/
theorem Kept.grants {heap' : Heap} (hk : u.Kept bs) (hg : Grants u.heap bs n o w heap' bs')
    (hlen : d.length ≤ n) (hbytes : bytesAt heap'.byte (o + 16) d.length = d) :
    ({ u with heap := heap' }.give (o + 16) d).Kept bs' where
  laid := hg.laid
  held p d' hd' := by
    have hle := hg.le
    rw [held_give] at hd'
    split_ifs at hd' with hp
    · obtain rfl := Option.some.inj hd'
      exact ⟨o, ⟨w, true⟩, hp, rfl, (hg.used _ _ rfl).mpr (.inr ⟨rfl, rfl⟩), by
        change d.length + 16 ≤ w
        omega, hp ▸ hbytes⟩
    · exact hk.held_of_data hd' (fun k b hu hb _ => (hg.used k b hu).mpr (.inl hb))
        fun k b hu hb _ => hg.data k b hu hb
  owned k b hu hb := by
    rw [held_give]
    split_ifs with hp
    · rfl
    · rcases (hg.used k b hu).mp hb with hb | ⟨rfl, -⟩
      · exact hk.owned k b hu hb
      · exact absurd rfl hp
  lfree_lt hfree := by
    have h := hfree (o + 16)
    rw [held_give, if_pos rfl] at h
    cases h

/-- A block is given back. -/
theorem Kept.releases {heap' : Heap} (hk : u.Kept bs) (hb : (o, b) ∈ placed 0 bs)
    (hr : Releases u.heap bs o heap' bs') :
    ({ u with heap := heap' }.takeBack (o + 16)).Kept bs' where
  laid := hr.laid
  held p d' hd' := by
    rw [held_takeBack] at hd'
    split_ifs at hd' with hp
    exact hk.held_of_data hd' (fun k b hu hb hkp => (hr.used k b hu).mpr ⟨hb, by omega⟩)
      fun k b hu hb _ => hr.data k b hu hb
  owned k b hu hb := by
    obtain ⟨hb, hne⟩ := (hr.used k b hu).mp hb
    rw [held_takeBack, if_neg (by omega)]
    exact hk.owned k b hu hb
  lfree_lt _ := by
    have htotal := hr.laid.tiled.total
    have hle := le_total_of_mem_placed hb
    have heq : heap'.heapEnd = u.heap.heapEnd := by rw [heapEnd, heapEnd, hr.memSizeAligned]
    have hsize := hk.laid.tiled.size b (mem_of_mem_placed hb)
    rw [hk.laid.tiled.total] at hle
    exact lt_of_le_of_lt hr.lfree_le (by omega)

/-- A block becomes shorter. -/
theorem Kept.shrinks {heap' : Heap} (hk : u.Kept bs) (hs : Shrinks u.heap bs o n heap' bs')
    (hlen : d.length ≤ n) (hbytes : bytesAt heap'.byte (o + 16) d.length = d) :
    ({ u with heap := heap' }.give (o + 16) d).Kept bs' where
  laid := hs.laid
  held p d' hd' := by
    rw [held_give] at hd'
    split_ifs at hd' with hp
    · obtain rfl := Option.some.inj hd'
      exact ⟨o, ⟨n + 16, true⟩, hp, rfl, (hs.used _ _ rfl).mpr (.inr ⟨rfl, rfl⟩), by
        change d.length + 16 ≤ n + 16
        omega, hp ▸ hbytes⟩
    · exact hk.held_of_data hd' (fun k b hu hb hkp => (hs.used k b hu).mpr (.inl ⟨hb, by omega⟩))
        fun k b hu hb _ => hs.data k b hu hb
  owned k b hu hb := by
    rw [held_give]
    split_ifs with hp
    · rfl
    · rcases (hs.used k b hu).mp hb with ⟨hb, -⟩ | ⟨rfl, -⟩
      · exact hk.owned k b hu hb
      · exact absurd rfl hp
  lfree_lt hfree := by
    have h := hfree (o + 16)
    rw [held_give, if_pos rfl] at h
    cases h

/-- A user stores to a block that is held. -/
theorem Kept.store {m : Memory} (hk : u.Kept bs) (hu : b.tag = true) (hb : (o, b) ∈ placed 0 bs)
    (hm : ∀ x, Outside (o + 16) (b.size - 16) x → m x = u.heap.byte x)
    (hlen : d.length + 16 ≤ b.size) (hbytes : bytesAt m (o + 16) d.length = d) :
    ({ u with heap := { u.heap with byte := m } }.give (o + 16) d).Kept bs where
  laid := hk.laid.store hb hm
  held p d' hd' := by
    rw [held_give] at hd'
    split_ifs at hd' with hp
    · obtain rfl := Option.some.inj hd'
      exact ⟨o, b, hp, hu, hb, hlen, hp ▸ hbytes⟩
    · refine hk.held_of_data hd' (fun k b _ hb _ => hb) fun k c hc hmem hkp x hx hx' => hm x ?_
      have hle := le_or_le_of_mem_placed hb (boundary_of_mem_placed hmem)
      have hle' := le_or_le_of_mem_placed hmem (boundary_of_mem_placed hb)
      have := hk.laid.tiled.size c (mem_of_mem_placed hmem)
      have := hk.laid.tiled.size b (mem_of_mem_placed hb)
      unfold Outside
      omega
  owned k c hc hmem := by
    rw [held_give]
    split_ifs
    · rfl
    · exact hk.owned k c hc hmem
  lfree_lt hfree := by
    have h := hfree (o + 16)
    rw [held_give, if_pos rfl] at h
    cases h

/-! ### The calls -/

/-- Only the last bytes that are given count. -/
theorem give_give : ({ u.give p d with heap } : HeapUse).give p data =
    ({ u with heap } : HeapUse).give p data := by
  simp [give]

theorem give_takeBack : (u.takeBack p).give p d = u.give p d := by
  simp [give, takeBack]

theorem takeBack_give (h : p ≠ q) : ({ u.give p d with heap } : HeapUse).takeBack q =
    (({ u with heap } : HeapUse).takeBack q).give p d := by
  simp [give, takeBack, Function.update_comm h]

theorem takeBack_of_none (h : u.held p = none) : u.takeBack p = u := by
  simp [takeBack, ← h]

theorem length_resized (heap : Heap) (p n : ℕ) (data : List UInt8) :
    (resized heap p n data).length = n := by
  rw [resized, List.length_append, List.length_take, length_bytesAt]
  omega

/-- What is kept by `rt_realloc` is in the memory, and the rest is what is there. -/
theorem bytesAt_resized (h : bytesAt heap.byte p (min n data.length) = data.take n) :
    bytesAt heap.byte p (resized heap p n data).length = resized heap p n data := by
  rw [length_resized, resized]
  rcases Nat.le_total n data.length with hle | hle
  · rw [min_eq_left hle] at h
    rw [h, Nat.sub_eq_zero_of_le hle]
    exact (List.append_nil _).symm
  · rw [min_eq_right hle] at h
    conv_lhs => rw [← Nat.add_sub_cancel' hle, bytesAt_add, h]

/-- What holds after a call; `lfree` is still the lowest free block if it `stays` so. -/
def Next (u : HeapUse) (bs : List Block) (stays : Prop) (u' : HeapUse) : Prop :=
  ∃ bs', u'.Kept bs' ∧ u'.heap.memSizeAligned = u.heap.memSizeAligned ∧
    (Lowest u.heap.lfree bs → (Lowest u'.heap.lfree bs' ↔ stays))

theorem malloc_spec {size : UInt32} (hk : u.Kept bs) (hreq : size.toNat ≤ maxRequest) :
    ∃ u', u.call (.malloc size) = some u' ∧ u.Next bs True u' := by
  have hle := (toNat_le_alignSize hreq).1
  have hle' := (le_blockSize size).2
  rcases rtMalloc_spec hk.laid size with ⟨hnull, -⟩ | ⟨o, w, heap, bs', hsome, hg⟩
  · refine ⟨u, ?_, bs, hk, rfl, fun h => iff_of_true h trivial⟩
    rw [call, hnull]
    rfl
  · refine ⟨_, ?_, bs', hk.grants hg (d := bytesAt heap.byte (o + 16) size.toNat) ?_ ?_,
      hg.memSizeAligned, fun h => iff_of_true (hg.lowest h) trivial⟩
    · rw [call, hsome]
      rfl
    · rw [length_bytesAt]
      omega
    · rw [length_bytesAt]

theorem calloc_spec {count size : UInt32} (hk : u.Kept bs)
    (hreq : count.toNat * size.toNat ≤ maxRequest) :
    ∃ u', u.call (.calloc count size) = some u' ∧ u.Next bs True u' := by
  have hmul : (count * size).toNat = count.toNat * size.toNat := by
    rw [UInt32.toNat_mul, Nat.mod_eq_of_lt]
    unfold maxRequest at hreq
    omega
  have hle := (toNat_le_alignSize (hmul ▸ hreq)).1
  have hle' := (le_blockSize (count * size)).2
  rcases rtMalloc_spec hk.laid (count * size) with ⟨hnull, -⟩ | ⟨o, w, heap, bs', hsome, hg⟩
  · refine ⟨u, ?_, bs, hk, rfl, fun h => iff_of_true h trivial⟩
    rw [call, Heap.rtCalloc, hnull]
    rfl
  · have hgle := hg.le
    have hk₁ := hk.grants hg (d := []) (Nat.zero_le _) rfl
    have hnew : (o, ⟨w, true⟩) ∈ placed 0 bs' := (hg.used _ _ rfl).mpr (.inr ⟨rfl, rfl⟩)
    have hk₂ := hk₁.store (m := zeroBytes heap.byte (o + 16) (count * size).toNat)
      (d := List.replicate (count.toNat * size.toNat) 0) rfl hnew ?_ ?_ ?_
    · refine ⟨_, ?_, bs', give_give ▸ hk₂, hg.memSizeAligned, fun h => iff_of_true (hg.lowest h) trivial⟩
      rw [call, Heap.rtCalloc, hsome]
      rfl
    · intro x hx
      refine zeroBytes_of_outside ?_
      change Outside (o + 16) (w - 16) x at hx
      unfold Outside at hx ⊢
      omega
    · rw [List.length_replicate]
      change _ ≤ w
      omega
    · rw [List.length_replicate, hmul, bytesAt_zeroBytes]

theorem free_spec (hk : u.Kept bs) (hp : p = 0 ∨ (u.held p).isSome) :
    ∃ u', u.call (.free p) = some u' ∧ u.Next bs True u' := by
  rcases hp with rfl | hp
  · refine ⟨u, ?_, bs, hk, rfl, fun h => iff_of_true h trivial⟩
    rw [call, Heap.rtFree, if_pos rfl, Option.map_some, takeBack_of_none hk.held_zero]
  · obtain ⟨o, b, rfl, -, hu, hb, -⟩ := hk.of_isSome hp
    obtain ⟨heap, bs', hfree, hr⟩ := rtFree_spec hk.laid hb hu
    refine ⟨_, ?_, bs', hk.releases hb hr, hr.memSizeAligned,
      fun h => iff_of_true (hr.lowest h) trivial⟩
    rw [call, hfree, Option.map_some]

theorem store_spec {i : ℕ} {value : UInt8} (hk : u.Kept bs) (hi : i < (u.dataAt p).length) :
    ∃ u', u.call (.store p i value) = some u' ∧ u.Next bs True u' := by
  have hp : (u.held p).isSome := by
    rw [Option.isSome_iff_ne_none]
    intro h
    rw [dataAt, h] at hi
    exact absurd hi (Nat.not_lt_zero _)
  obtain ⟨o, b, rfl, -, hu, hb, hlen, hbytes⟩ := hk.of_isSome hp
  refine ⟨_, rfl, bs, hk.store hu hb ?_ ?_ ?_, rfl, fun h => iff_of_true h trivial⟩
  · intro x hx
    refine Function.update_of_ne ?_ _ _
    unfold Outside at hx
    omega
  · rwa [List.length_set]
  · rw [List.length_set, bytesAt_update hi, hbytes]

/-- A call that makes a block shorter leaves `lfree` at the lowest free block. -/
def LfreeKept (u : HeapUse) : HeapCall → Prop
  | .realloc rmem newsize =>
    rmem ≠ 0 → newsize ≠ 0 →
      rmem + alignSize newsize + sizeofStructMem + minSize <
        (u.heap.get (rmem - sizeofStructMem)).next →
      u.heap.LfreeStays (rmem - sizeofStructMem)
  | _ => True

instance (u : HeapUse) (c : HeapCall) : Decidable (u.LfreeKept c) :=
  match c with
  | .realloc rmem newsize =>
    decidable_of_iff (¬ (rmem ≠ 0 ∧ newsize ≠ 0 ∧
      rmem + alignSize newsize + sizeofStructMem + minSize <
        (u.heap.get (rmem - sizeofStructMem)).next ∧
      ¬ u.heap.LfreeStays (rmem - sizeofStructMem))) <| by
        simp only [LfreeKept, not_and, not_not]
  | .malloc _ | .calloc _ _ | .free _ | .store _ _ _ => .isTrue trivial

/-- What is kept by `rt_realloc` is in the memory. -/
theorem take_of_bytesAt {m m' : Memory} (hbytes : bytesAt m p data.length = data)
    (h : ∀ i < min n data.length, m' (q + i) = m (p + i)) :
    bytesAt m' q (min n data.length) = data.take n := by
  rw [bytesAt_eq_of_shift h, ← take_bytesAt, hbytes]

/-- `rt_realloc` of `RT_NULL` is `rt_malloc`. -/
theorem realloc_zero_spec {newsize : UInt32} (hk : u.Kept bs) (hreq : newsize.toNat ≤ maxRequest) :
    ∃ u', u.call (.realloc 0 newsize) = some u' ∧ u.Next bs True u' := by
  have hzero := alignSize_eq_zero hreq
  have hdata : u.dataAt 0 = [] := by rw [dataAt, hk.held_zero, Option.getD_none]
  have hsame : (if newsize = 0 then u.takeBack 0 else u) = u := by
    rw [takeBack_of_none hk.held_zero, ite_self]
  suffices h : u.heap.rtRealloc 0 newsize = some (0, u.heap) ∨ ∃ o w heap bs' n,
      u.heap.rtRealloc 0 newsize = some (o + 16, heap) ∧ newsize.toNat ≤ n ∧
        Grants u.heap bs n o w heap bs' by
    rcases h with hnull | ⟨o, w, heap, bs', n, hsome, hle, hg⟩
    · refine ⟨u, ?_, bs, hk, rfl, fun h => iff_of_true h trivial⟩
      rw [call, hnull, Option.map_some]
      exact congrArg some hsame
    · have hk' := hk.grants hg (d := resized heap (o + 16) newsize.toNat []) ?_ ?_
      · refine ⟨_, ?_, bs', hk', hg.memSizeAligned, fun h => iff_of_true (hg.lowest h) trivial⟩
        have htake : ({ u with heap } : HeapUse).takeBack 0 = { u with heap } :=
          takeBack_of_none hk.held_zero
        rw [call, hsome, Option.map_some, hdata]
        dsimp only
        rw [htake, if_pos (Nat.succ_ne_zero _)]
      · rwa [length_resized]
      · exact bytesAt_resized (by simp [bytesAt])
  rw [Heap.rtRealloc]
  dsimp only
  by_cases hlarge : u.heap.memSizeAligned < alignSize newsize
  · exact .inl (if_pos hlarge)
  rw [if_neg hlarge]
  by_cases h0 : alignSize newsize = 0
  · left
    rw [if_pos h0, Heap.rtFree, if_pos rfl, Option.map_some]
  rw [if_neg h0, if_pos rfl]
  rcases rtMalloc_spec hk.laid (rtAlign newsize rtAlignSize) with ⟨hnull, -⟩ |
    ⟨o, w, heap, bs', hsome, hg⟩
  · exact .inl hnull
  · have hle := (toNat_le_alignSize hreq).1
    have hblock := (le_blockSize (rtAlign newsize rtAlignSize)).2
    rw [alignSize_rtAlign hreq] at hblock
    exact .inr ⟨o, w, heap, bs', _, hsome, by omega, hg⟩

theorem realloc_spec {newsize : UInt32} (hk : u.Kept bs) (hp : p = 0 ∨ (u.held p).isSome)
    (hreq : newsize.toNat ≤ maxRequest) :
    ∃ u', u.call (.realloc p newsize) = some u' ∧
      u.Next bs (u.LfreeKept (.realloc p newsize)) u' := by
  rcases hp with rfl | hp
  · obtain ⟨u', hcall, bs', hk', hmem, hlow⟩ := realloc_zero_spec hk hreq
    exact ⟨u', hcall, bs', hk', hmem, fun h => (hlow h).trans
      (iff_of_true trivial fun h0 => absurd rfl h0)⟩
  obtain ⟨o, b, rfl, -, hu, hb, hlen, hbytes⟩ := hk.of_isSome hp
  have hnext : (u.heap.get o).next = o + b.size := by
    obtain ⟨pre, post, rfl, h⟩ := mem_placed_iff.mp hb
    rw [Nat.zero_add] at h
    rw [h]
    exact hk.laid.tiled.get_next
  have hsize := hk.laid.tiled.size b (mem_of_mem_placed hb)
  have hsub : o + 16 - sizeofStructMem = o := rfl
  have hkept : u.LfreeKept (.realloc (o + 16) newsize) ↔
      (Shortens b newsize → u.heap.LfreeStays o) := by
    rw [LfreeKept, hsub, hnext, Shortens]
    unfold sizeofStructMem minSize
    constructor
    · exact fun h hs => h (Nat.succ_ne_zero _) hs.1 (by omega)
    · exact fun h _ h0 hlt => h ⟨h0, by omega⟩
  rw [call, hkept]
  have hspec := rtRealloc_spec hk.laid hb hu hreq
  generalize u.heap.rtRealloc (o + 16) newsize = r at hspec ⊢
  cases hspec with
  | fails h0 hs =>
    refine ⟨u, ?_, bs, hk, rfl, fun h => iff_of_true h fun h' => absurd h' hs⟩
    simp [h0]
  | @frees heap bs' h0 hr =>
    refine ⟨_, ?_, bs', hk.releases hb hr, hr.memSizeAligned,
      fun h => iff_of_true (hr.lowest h) fun h' => absurd h0 h'.1⟩
    simp [h0]
  | stays hle hs =>
    have hk' := hk.store (d := resized u.heap (o + 16) newsize.toNat (u.dataAt (o + 16))) hu hb
      (fun _ _ => rfl) ?_ ?_
    · refine ⟨_, ?_, bs, hk', rfl, fun h => iff_of_true h fun h' => absurd h' hs⟩
      simp [give_takeBack]
    · rwa [length_resized]
    · exact bytesAt_resized (take_of_bytesAt hbytes fun _ _ => rfl)
  | @shrinks heap bs' n hle hle' hs hshr =>
    have hk' := hk.shrinks (d := resized heap (o + 16) newsize.toNat (u.dataAt (o + 16))) hshr
      ?_ ?_
    · refine ⟨_, ?_, bs', hk', hshr.memSizeAligned,
        fun h => (hshr.lowest h).trans ⟨fun h' _ => h', fun h' => h' hs⟩⟩
      simp [give_takeBack]
    · rwa [length_resized]
    · refine bytesAt_resized (take_of_bytesAt hbytes fun i hi => ?_)
      have hnew : (o, ⟨n + 16, true⟩) ∈ placed 0 bs' := (hshr.used _ _ rfl).mpr (.inr ⟨rfl, rfl⟩)
      exact hshr.data _ _ rfl hnew _ (by omega) (by change _ < o + (n + 16); omega)
  | @moves s₁ heap bs₁ bs' n m o' w hg hle hmn hmin hmb hs hr =>
    have hgle := hg.le
    have hnew : (o', ⟨w, true⟩) ∈ placed 0 bs₁ := (hg.used _ _ rfl).mpr (.inr ⟨rfl, rfl⟩)
    have hold : (o, b) ∈ placed 0 bs₁ := (hg.used _ _ hu).mpr (.inl hb)
    have hne : o' ≠ o := by
      rintro rfl
      obtain ⟨c, hc, hfit⟩ := hg.fits
      have hfree := hfit.1
      rw [hk.eq hc hb, hu] at hfree
      cases hfree
    -- the new block, the bytes copied to it, and then the old block
    have hk₁ := hk.grants hg (d := []) (Nat.zero_le _) rfl
    have hk₂ := hk₁.store (m := copyBytes s₁.byte (o' + 16) (o + 16) m) (d := []) rfl hnew ?_
      (by change 16 ≤ w; omega) rfl
    · have hk₃ := hk₂.releases hold hr
      have hnew' : (o', ⟨w, true⟩) ∈ placed 0 bs' := (hr.used _ _ rfl).mpr ⟨hnew, hne⟩
      have hk₄ := hk₃.store (m := heap.byte)
        (d := resized heap (o' + 16) newsize.toNat (u.dataAt (o + 16))) rfl hnew'
        (fun _ _ => rfl) ?_ ?_
      · refine ⟨_, ?_, bs', hk₄, hr.memSizeAligned.trans hg.memSizeAligned, fun h =>
          iff_of_true (hr.lowest (hg.lowest h)) fun h' => absurd h' hs⟩
        have hne' : o + 16 ≠ o' + 16 := by omega
        simp [give, takeBack, Function.update_comm hne']
      · rw [length_resized]
        change _ ≤ w
        omega
      · refine bytesAt_resized (take_of_bytesAt hbytes fun i hi => ?_)
        have hcopy : heap.byte (o' + 16 + i) = copyBytes s₁.byte (o' + 16) (o + 16) m (o' + 16 + i) :=
          hr.data _ _ rfl hnew' _ (by omega) (by change _ < o' + w; omega)
        have hsame := hg.data o b hu hold (o + 16 + i) (by omega) (by omega)
        rw [hcopy, copyBytes, if_pos (by omega), Nat.add_sub_cancel_left, hsame]
    · intro x hx
      refine copyBytes_of_outside ?_
      change Outside (o' + 16) (w - 16) x at hx
      unfold Outside at hx ⊢
      omega

/-- **A legal call** keeps the invariant. -/
theorem call_spec (hk : u.Kept bs) (hc : u.Legal c) :
    ∃ u', u.call c = some u' ∧ u.Next bs (u.LfreeKept c) u' := by
  cases c with
  | malloc size => exact malloc_spec hk hc
  | calloc count size => exact calloc_spec hk hc
  | realloc p newsize => exact realloc_spec hk hc.1 hc.2
  | free p => exact free_spec hk hc
  | store p i value => exact store_spec hk hc

/-! ### Runs -/

/-- Two headers make a heap of one free block. -/
theorem laid_put {s : Heap} (hlfree : s.lfree = 0) (hused : s.usedMem = 0)
    (h8 : s.memSizeAligned % 8 = 0) (hroom : 16 ≤ s.memSizeAligned)
    (hbound : s.heapEnd < 4294967296) :
    ((s.put 0 { magic := heapMagic, used := 0, next := s.heapEnd, prev := 0 }).put s.heapEnd
      { magic := heapMagic, used := 1, next := s.heapEnd, prev := s.heapEnd }).Laid
        [⟨s.heapEnd, false⟩] := by
  have hheapEnd : s.heapEnd = s.memSizeAligned + 16 := rfl
  have hhead : HeapMem.mk heapMagic 0 s.heapEnd 0 = header ⟨s.heapEnd, false⟩ 0 0 := by
    rw [header, Nat.zero_add]
    rfl
  have hfits : (header ⟨s.heapEnd, false⟩ 0 0).Fits :=
    fits_header (by change 0 + s.heapEnd < _; omega) (by decide)
  have hfits' : (HeapMem.mk heapMagic 1 s.heapEnd s.heapEnd).Fits :=
    ⟨(by decide : heapMagic < 65536), (by decide : 1 < 65536), hbound, hbound⟩
  refine ⟨⟨⟨?_, trivial⟩, ?_, ?_, ?_, ?_, hbound⟩, List.isChain_singleton _, ?_, ?_, ?_, hroom⟩
  · rw [get_put_of_disjoint (by omega), hhead, get_put_self hfits]
  · rw [total_cons, total_nil]
    rfl
  · intro b hb
    rw [List.mem_singleton.mp hb]
    change 24 ≤ s.heapEnd
    omega
  · intro b hb
    rw [List.mem_singleton.mp hb]
    change s.heapEnd % 8 = 0
    omega
  · rw [Ends, heapEnd_put, heapEnd_put, get_put_self hfits']
    exact ⟨Nat.one_ne_zero, rfl⟩
  · rw [lfree_put, lfree_put, hlfree]
    exact .inr ⟨_, List.mem_singleton_self _, rfl⟩
  · exact hused
  · rw [usedMem_put, usedMem_put, hused]
    exact Nat.zero_le _

/-- Right after `rt_system_heap_init` the heap is one free block. -/
theorem start_kept {byte : Memory} {beginAddr endAddr : ℕ}
    (hinit : rtSystemHeapInit byte beginAddr endAddr = some heap) (hend : endAddr < 4294967296)
    (hroom : 16 ≤ heap.memSizeAligned) :
    (start heap).Kept [⟨heap.heapEnd, false⟩] ∧ Lowest heap.lfree [⟨heap.heapEnd, false⟩] := by
  unfold rtSystemHeapInit at hinit
  dsimp only at hinit
  rw [Option.ite_none_right_eq_some] at hinit
  obtain ⟨⟨hlt, hle⟩, hheap⟩ := hinit
  obtain rfl := Option.some.inj hheap
  unfold sizeofStructMem at hlt hle
  refine ⟨⟨laid_put rfl rfl ?_ hroom ?_, ?_, ?_, fun _ => ?_⟩, fun o b _ _ => Nat.zero_le o⟩
  · change (endAddr / 8 * 8 - (beginAddr + 7) / 8 * 8 - 2 * 16) % 8 = 0
    omega
  · change endAddr / 8 * 8 - (beginAddr + 7) / 8 * 8 - 2 * 16 + 16 < 4294967296
    omega
  · intro p d hd
    cases hd
  · intro o b hu hb
    rw [placed, placed, List.mem_singleton] at hb
    obtain ⟨-, rfl⟩ := Prod.mk.inj hb
    cases hu
  · rw [total_cons]
    exact Nat.lt_of_lt_of_le (Nat.zero_lt_succ _) (Nat.le_add_right _ _)

/-- A layout is determined by the headers. -/
theorem Walk.unique {s : Heap} {p p' : ℕ} (hw : s.Walk k p bs) (hw' : s.Walk k p' bs')
    (htotal : Span.total bs = Span.total bs') (hpos : ∀ b ∈ bs, 24 ≤ b.size)
    (hpos' : ∀ b ∈ bs', 24 ≤ b.size) : bs = bs' := by
  induction bs generalizing bs' k p p' with
  | nil =>
    cases bs' with
    | nil => rfl
    | cons b' bs' =>
      have := hpos' b' (List.mem_cons_self ..)
      rw [total_nil, total_cons] at htotal
      omega
  | cons b bs ih =>
    cases bs' with
    | nil =>
      have := hpos b (List.mem_cons_self ..)
      rw [total_nil, total_cons] at htotal
      omega
    | cons b' bs' =>
      have hhead := hw.1.symm.trans hw'.1
      have hsize : b.size = b'.size := by
        have hnext : k + b.size = k + b'.size := congrArg HeapMem.next hhead
        omega
      have htag : b.tag = b'.tag := by
        have hused : (if b.tag then 1 else 0) = if b'.tag then 1 else 0 :=
          congrArg HeapMem.used hhead
        revert hused
        cases b.tag <;> cases b'.tag <;> simp
      obtain rfl : b = b' := by
        cases b
        cases b'
        simp_all
      rw [total_cons, total_cons] at htotal
      rw [ih hw.2 hw'.2 (by omega) (fun c hc => hpos c (List.mem_cons_of_mem _ hc))
        fun c hc => hpos' c (List.mem_cons_of_mem _ hc)]

theorem Laid.unique {s : Heap} (hl : s.Laid bs) (hl' : s.Laid bs') : bs = bs' :=
  Walk.unique hl.tiled.walk hl'.tiled.walk (hl.tiled.total.trans hl'.tiled.total.symm)
    hl.tiled.size hl'.tiled.size

/-- A heap of 256 bytes, for the witnesses. -/
def smallHeap : Heap := (rtSystemHeapInit (fun _ => 0) 4096 4384).get (by decide)

theorem smallHeap_eq : rtSystemHeapInit (fun _ => 0) 4096 4384 = some smallHeap :=
  (Option.some_get _).symm

theorem exists_run_smallHeap (calls : List HeapCall) (p : List (HeapUse × HeapCall) × HeapUse → Prop)
    [DecidablePred p] (h : (exec step (start smallHeap) calls).any (fun r => p r) = true) :
    ∃ tr u, Run step (start smallHeap) tr u ∧ tr.map Prod.snd = calls ∧ p (tr, u) :=
  exists_run_of_exec calls p h

section Runs

variable {byte : Memory} {beginAddr endAddr : ℕ}

/-- **The invariant** holds in every run. -/
theorem kept_of_run (hinit : rtSystemHeapInit byte beginAddr endAddr = some heap)
    (hend : endAddr < 4294967296) (hroom : 16 ≤ heap.memSizeAligned)
    (hr : Run step (start heap) tr u) :
    ∃ bs, u.Kept bs ∧ u.heap.memSizeAligned = heap.memSizeAligned := by
  refine hr.invariant (I := fun u => ∃ bs, u.Kept bs ∧
    u.heap.memSizeAligned = heap.memSizeAligned) ⟨_, (start_kept hinit hend hroom).1, rfl⟩ ?_
  rintro u c u' ⟨bs, hk, hmem⟩ hstep
  rw [step, Option.ite_none_right_eq_some] at hstep
  obtain ⟨u₁, hcall, bs', hk', hmem', -⟩ := call_spec hk hstep.1
  rw [hstep.2] at hcall
  obtain rfl := Option.some.inj hcall
  exact ⟨bs', hk', hmem'.trans hmem⟩

/-- **What is held is intact**: in every run, each pointer that is held is aligned, its bytes are
inside the heap and are those that its holder relies on, and the bytes of another one are elsewhere,
with at least a header between them. -/
theorem held_intact (hinit : rtSystemHeapInit byte beginAddr endAddr = some heap)
    (hend : endAddr < 4294967296) (hroom : 16 ≤ heap.memSizeAligned)
    (hr : Run step (start heap) tr u) :
    (∀ p d, u.held p = some d → p % 8 = 0 ∧ sizeofStructMem ≤ p ∧
      p + d.length ≤ heap.heapEnd ∧ bytesAt u.heap.byte p d.length = d) ∧
    ∀ p q d e, u.held p = some d → u.held q = some e → p < q →
      p + d.length + sizeofStructMem ≤ q := by
  obtain ⟨bs, hk, hmem⟩ := kept_of_run hinit hend hroom hr
  have ht := hk.laid.tiled
  constructor
  · intro p d hd
    obtain ⟨o, b, rfl, -, hb, hlen, hbytes⟩ := hk.held p d hd
    have hle := le_total_of_mem_placed hb
    have htotal := ht.total
    have heq : u.heap.heapEnd = heap.heapEnd := by rw [heapEnd, heapEnd, hmem]
    refine ⟨?_, Nat.le_add_left _ _, by omega, hbytes⟩
    obtain ⟨pre, post, rfl, rfl⟩ := mem_placed_iff.mp hb
    have hmod := total_mod fun c hc => ht.align c (List.mem_append_left _ hc)
    omega
  · intro p q d e hd he hlt
    obtain ⟨o, b, rfl, -, hb, hlen, -⟩ := hk.held p d hd
    obtain ⟨o', b', rfl, -, hb', -, -⟩ := hk.held q e he
    have := disjoint_of_mem_placed hb hb' (by omega)
    unfold sizeofStructMem
    omega

theorem held_intact_small : ∃ tr u, Run step (start smallHeap) tr u ∧
    u.held 128 = some (0 :: 0 :: 7 :: List.replicate 37 0) ∧
      bytesAt u.heap.byte 128 40 = 0 :: 0 :: 7 :: List.replicate 37 0 := by
  obtain ⟨tr, u, hr, -, hheld⟩ := exists_run_smallHeap
    [.malloc 5, .malloc 60, .store 16 2 7, .realloc 16 40, .free 48, .calloc 3 4]
    (fun r =>
      r.2.held 128 = some (0 :: 0 :: 7 :: List.replicate 37 0)) (by decide +kernel)
  exact ⟨tr, u, hr, hheld,
    ((held_intact smallHeap_eq (by decide) (by decide) hr).1 128 _ hheld).2.2.2⟩

/-- **When all is given back, the heap is as at the start**: one free block, from which the next
search begins, and nothing is counted as used. -/
theorem all_free (hinit : rtSystemHeapInit byte beginAddr endAddr = some heap)
    (hend : endAddr < 4294967296) (hroom : 16 ≤ heap.memSizeAligned)
    (hr : Run step (start heap) tr u) (hfree : ∀ p < heap.heapEnd, u.held p = none) :
    u.heap.get 0 = heap.get 0 ∧ u.heap.lfree = heap.lfree ∧ u.heap.usedMem = heap.usedMem := by
  obtain ⟨bs, hk, hmem⟩ := kept_of_run hinit hend hroom hr
  obtain ⟨hk₀, hlow₀⟩ := start_kept hinit hend hroom
  have ht := hk.laid.tiled
  have heq : u.heap.heapEnd = heap.heapEnd := by rw [heapEnd, heapEnd, hmem]
  have hfree' : ∀ p, u.held p = none := fun p => by
    by_contra h
    obtain ⟨d, hd⟩ := Option.ne_none_iff_exists'.mp h
    obtain ⟨o, b, rfl, -, hb, hlen, -⟩ := hk.held p d hd
    have hle := le_total_of_mem_placed hb
    have hsize := ht.size b (mem_of_mem_placed hb)
    rw [ht.total, heq] at hle
    exact h (hfree _ (by omega))
  have hnone : ∀ o b, (o, b) ∈ placed 0 bs → b.tag = false := fun o b hb => by
    by_contra hu
    have := hk.owned o b (by simpa using hu) hb
    rw [hfree'] at this
    cases this
  -- no two free blocks lie next to each other, so there is one
  have hone : bs = [⟨heap.heapEnd, false⟩] := by
    cases bs with
    | nil =>
      have htotal := ht.total
      rw [total_nil] at htotal
      cases htotal
    | cons b bs =>
      have hb := hnone 0 b (List.mem_cons_self ..)
      cases bs with
      | nil =>
        have htotal := ht.total
        rw [total_cons, total_nil, heq, Nat.add_zero] at htotal
        obtain ⟨z, t⟩ := b
        rw [show z = heap.heapEnd from htotal, show t = false from hb]
      | cons c bs =>
        have hc := hnone b.size c (by simp [placed])
        have hadj := (List.isChain_cons.mp hk.laid.coalesced).1 c rfl
        simp [hb, hc] at hadj
  have hvars : ∀ u : HeapUse, u.Kept [⟨heap.heapEnd, false⟩] → (∀ p, u.held p = none) →
      u.heap.get 0 = header ⟨heap.heapEnd, false⟩ 0 0 ∧ u.heap.lfree = 0 ∧ u.heap.usedMem = 0 := by
    intro u hk hfree
    refine ⟨hk.laid.tiled.walk.1, ?_, hk.laid.usedMem⟩
    rcases hk.laid.lfreeAt with h | ⟨b, hb, -⟩
    · exact absurd h (hk.lfree_lt hfree).ne
    · exact (Prod.mk.inj (List.mem_singleton.mp hb)).1
  obtain ⟨h₁, h₂, h₃⟩ := hvars u (hone ▸ hk) hfree'
  obtain ⟨h₁', h₂', h₃'⟩ := hvars _ hk₀ fun _ => rfl
  exact ⟨h₁.trans h₁'.symm, h₂.trans h₂'.symm, h₃.trans h₃'.symm⟩

theorem all_free_small : ∃ tr u, Run step (start smallHeap) tr u ∧ tr.length = 5 ∧
    u.heap.get 0 = smallHeap.get 0 := by
  obtain ⟨tr, u, hr, hl, hfree⟩ := exists_run_smallHeap
    [.malloc 5, .calloc 3 4, .free 16, .realloc 48 70, .free 80]
    (fun r => ∀ p < smallHeap.heapEnd, r.2.held p = none)
    (by decide +kernel)
  exact ⟨tr, u, hr, by rw [← List.length_map (f := Prod.snd), hl]; rfl,
    (all_free smallHeap_eq (by decide) (by decide) hr hfree).1⟩

/-- The blocks are laid out, and none below `lfree` is free. -/
def LfreeLowest (s : Heap) : Prop := ∃ bs, s.Laid bs ∧ Lowest s.lfree bs

/-- **`lfree` is the lowest free block in all states of a run just when every call that makes a
block shorter finds it below, or finds the block behind free**: `rt_realloc` does not set it. -/
theorem lfree_lowest_iff (hinit : rtSystemHeapInit byte beginAddr endAddr = some heap)
    (hend : endAddr < 4294967296) (hroom : 16 ≤ heap.memSizeAligned)
    (hr : Run step (start heap) tr u) :
    ((∀ x ∈ tr, LfreeLowest x.1.heap) ∧ LfreeLowest u.heap) ↔ ∀ x ∈ tr, x.1.LfreeKept x.2 := by
  obtain ⟨hk₀, hlow₀⟩ := start_kept hinit hend hroom
  refine hr.forall_iff (C := fun x => x.1.LfreeKept x.2) (I := fun u => LfreeLowest u.heap)
    ⟨_, hk₀.laid, hlow₀⟩ ?_
  rintro tr u c u' hr ⟨bs₀, hl₀, hlow⟩ hstep
  rw [step, Option.ite_none_right_eq_some] at hstep
  obtain ⟨bs, hk, -⟩ := kept_of_run hinit hend hroom hr
  obtain rfl := Laid.unique hl₀ hk.laid
  obtain ⟨u₁, hcall, bs', hk', -, hiff⟩ := call_spec hk hstep.1
  rw [hstep.2] at hcall
  obtain rfl := Option.some.inj hcall
  refine Iff.trans ⟨?_, fun h => ⟨bs', hk'.laid, h⟩⟩ (hiff hlow)
  rintro ⟨bs'', hl'', hlow'⟩
  exact Laid.unique hl'' hk'.laid ▸ hlow'

theorem lfree_lowest_iff_small : ∃ tr u, Run step (start smallHeap) tr u ∧
    ¬ ((∀ x ∈ tr, LfreeLowest x.1.heap) ∧ LfreeLowest u.heap) := by
  obtain ⟨tr, u, hr, -, hnot⟩ := exists_run_smallHeap
    [.malloc 100, .malloc 5, .realloc 16 8]
    (fun r => ¬ ∀ x ∈ r.1, x.1.LfreeKept x.2)
    (by decide +kernel)
  exact ⟨tr, u, hr, (lfree_lowest_iff smallHeap_eq (by decide) (by decide) hr).not.mpr hnot⟩

end Runs

end SortingLine.HeapUse
