import SortingLine.Flash.Tags
import SortingLine.Library.Parity

/-!
# Which flips of packed tags are seen

`yaffsUnpackTags2TagsOnly_eq_iff` says when two packed tags give the same tags, and
`unpack_flip_iff` which flips do not change them: those of an erased chunk that leave its sequence
number alone, and the one bit of an object header's `chunk_id` that nothing reads.
-/

namespace SortingLine.Flash

/-! ### In memory -/

/-- Word by word. -/
def PackedTags2.flip (p m : PackedTags2) : PackedTags2 where
  seqNumber := p.seqNumber ^^^ m.seqNumber
  objId := p.objId ^^^ m.objId
  chunkId := p.chunkId ^^^ m.chunkId
  nBytes := p.nBytes ^^^ m.nBytes

theorem getWord_flip (buf e : Buf) (off : ℕ) :
    getWord (fun k => buf k ^^^ e k) off = getWord buf off ^^^ getWord e off := by
  unfold getWord
  rw [← BitVec.xor_append, ← BitVec.xor_append, ← BitVec.xor_append]

theorem getPacked_flip (buf e : Buf) (off : ℕ) :
    getPacked (fun k => buf k ^^^ e k) off = (getPacked buf off).flip (getPacked e off) := by
  unfold getPacked PackedTags2.flip
  rw [getWord_flip, getWord_flip, getWord_flip, getWord_flip]

theorem getWord_congr {buf buf' : Buf} {off : ℕ} (h : ∀ k < 4, buf' (off + k) = buf (off + k)) :
    getWord buf' off = getWord buf off := by
  have h0 := h 0 (by decide)
  rw [Nat.add_zero] at h0
  unfold getWord
  rw [h0, h 1 (by decide), h 2 (by decide), h 3 (by decide)]

theorem getPacked_congr {buf buf' : Buf} {off : ℕ}
    (h : ∀ k < 16, buf' (off + k) = buf (off + k)) : getPacked buf' off = getPacked buf off := by
  have hw {i : ℕ} (hi : i ≤ 12) : getWord buf' (off + i) = getWord buf (off + i) := by
    apply getWord_congr
    intro k hk
    rw [Nat.add_assoc]
    exact h _ (by omega)
  have h0 := hw (Nat.zero_le 12)
  rw [Nat.add_zero] at h0
  unfold getPacked
  rw [h0, hw (by decide), hw (by decide), hw (by decide)]

/-- The bytes of a word, put together again. -/
theorem wordByte_append (w : BitVec 32) :
    wordByte w 3 ++ wordByte w 2 ++ wordByte w 1 ++ wordByte w 0 = w := by
  have h3 : wordByte w 3 ++ wordByte w 2 = w.extractLsb' 16 16 :=
    BitVec.extractLsb'_append_extractLsb'_eq_extractLsb' rfl
  have h2 : w.extractLsb' 16 16 ++ wordByte w 1 = w.extractLsb' 8 24 :=
    BitVec.extractLsb'_append_extractLsb'_eq_extractLsb' rfl
  have h1 : w.extractLsb' 8 24 ++ wordByte w 0 = w.extractLsb' 0 32 :=
    BitVec.extractLsb'_append_extractLsb'_eq_extractLsb' rfl
  rw [h3, h2, h1]
  exact BitVec.extractLsb'_eq_self

/-- What has been packed is read back. -/
theorem getPacked_putPacked (buf : Buf) (off : ℕ) (p : PackedTags2) :
    getPacked (putPacked buf off p) off = p := by
  have hbytes {k : ℕ} (hk : k < 16) : putPacked buf off p (off + k) = p.bytes k := by
    unfold putPacked copyAt
    rw [if_pos ⟨Nat.le_add_right off k, Nat.add_lt_add_left hk off⟩, Nat.add_sub_cancel_left]
  have h0 := hbytes (by decide : 0 < 16)
  rw [Nat.add_zero] at h0
  unfold getPacked getWord
  simp only [Nat.add_assoc, Nat.reduceAdd]
  rw [h0, hbytes (by decide), hbytes (by decide), hbytes (by decide), hbytes (by decide),
    hbytes (by decide), hbytes (by decide), hbytes (by decide), hbytes (by decide),
    hbytes (by decide), hbytes (by decide), hbytes (by decide), hbytes (by decide),
    hbytes (by decide), hbytes (by decide), hbytes (by decide)]
  show PackedTags2.mk (wordByte _ 3 ++ wordByte _ 2 ++ wordByte _ 1 ++ wordByte _ 0)
    (wordByte _ 3 ++ wordByte _ 2 ++ wordByte _ 1 ++ wordByte _ 0)
    (wordByte _ 3 ++ wordByte _ 2 ++ wordByte _ 1 ++ wordByte _ 0)
    (wordByte _ 3 ++ wordByte _ 2 ++ wordByte _ 1 ++ wordByte _ 0) = p
  rw [wordByte_append, wordByte_append, wordByte_append, wordByte_append]

/-! ### Unpacking -/

/-- The chunk has been written. -/
def PackedTags2.Used (p : PackedTags2) : Prop := p.seqNumber ≠ 0xffffffff

/-- The chunk is an object header with the extra information. -/
def PackedTags2.Header (p : PackedTags2) : Prop := p.chunkId &&& extraHeaderInfoFlag ≠ 0

/-- The bits of `chunk_id` that are read from a header. -/
def headerMask : BitVec 32 := ~~~ extraSpareFlags

theorem unpack_of_not_used {p : PackedTags2} (h : ¬ p.Used) : yaffsUnpackTags2TagsOnly p = {} :=
  if_pos (Decidable.not_not.mp h)

theorem unpack_of_not_header {p : PackedTags2} (h : p.Used) (hh : ¬ p.Header) :
    yaffsUnpackTags2TagsOnly p =
      { chunkUsed := 1
        objId := p.objId
        chunkId := p.chunkId
        nBytes := p.nBytes
        seqNumber := p.seqNumber } := by
  unfold yaffsUnpackTags2TagsOnly
  rw [if_neg h]
  exact if_neg hh

theorem unpack_of_header {p : PackedTags2} (h : p.Used) (hh : p.Header) :
    yaffsUnpackTags2TagsOnly p =
      { chunkUsed := 1
        objId := p.objId &&& ~~~ extraObjectTypeMask
        seqNumber := p.seqNumber
        extraAvailable := 1
        extraParentId := p.chunkId &&& ~~~ allExtraFlags
        extraIsShrink := if p.chunkId &&& extraShrinkFlag ≠ 0 then 1 else 0
        extraShadows := if p.chunkId &&& extraShadowsFlag ≠ 0 then 1 else 0
        extraObjType := p.objId >>> extraObjectTypeShift
        extraLength :=
          if p.objId >>> extraObjectTypeShift = yaffsObjectTypeHardlink then 0 else p.nBytes
        extraEquivId :=
          if p.objId >>> extraObjectTypeShift = yaffsObjectTypeHardlink then p.nBytes else 0 } := by
  unfold yaffsUnpackTags2TagsOnly
  rw [if_neg h]
  refine (if_pos hh).trans ?_
  unfold unpackExtra
  dsimp only
  split_ifs <;> rfl

/-- An unused chunk, a chunk with extra information and one without can be told apart. -/
theorem chunkUsed_unpack (p : PackedTags2) :
    (yaffsUnpackTags2TagsOnly p).chunkUsed = 1 ↔ p.Used := by
  by_cases h : p.Used
  · refine iff_of_true ?_ h
    by_cases hh : p.Header
    · rw [unpack_of_header h hh]
    · rw [unpack_of_not_header h hh]
  · rw [unpack_of_not_used h]
    exact iff_of_false (by decide) h

theorem extraAvailable_unpack {p : PackedTags2} (h : p.Used) :
    (yaffsUnpackTags2TagsOnly p).extraAvailable = 1 ↔ p.Header := by
  by_cases hh : p.Header
  · rw [unpack_of_header h hh]
    exact iff_of_true rfl hh
  · rw [unpack_of_not_header h hh]
    refine iff_of_false ?_ hh
    show ¬ (0 : BitVec 32) = 1
    decide

/-- An object id is its upper four and its lower 28 bits. -/
theorem eq_of_objectType {a b : BitVec 32}
    (hlo : a &&& ~~~ extraObjectTypeMask = b &&& ~~~ extraObjectTypeMask)
    (hhi : a >>> extraObjectTypeShift = b >>> extraObjectTypeShift) : a = b := by
  have hmask : ~~~ extraObjectTypeMask = BitVec.ofNat 32 (2 ^ 28 - 1) := by decide
  have hmod (c : BitVec 32) : (c &&& ~~~ extraObjectTypeMask).toNat = c.toNat % 2 ^ 28 := by
    rw [hmask, BitVec.toNat_and]
    exact Nat.and_two_pow_sub_one_eq_mod c.toNat 28
  have hdiv (c : BitVec 32) : (c >>> extraObjectTypeShift).toNat = c.toNat / 2 ^ 28 := by
    rw [BitVec.toNat_ushiftRight, Nat.shiftRight_eq_div_pow]
    rfl
  have hlo' := congrArg BitVec.toNat hlo
  have hhi' := congrArg BitVec.toNat hhi
  rw [hmod, hmod] at hlo'
  rw [hdiv, hdiv] at hhi'
  apply BitVec.eq_of_toNat_eq
  omega

/-- A flag is clear or set. -/
theorem and_flag_eq_iff {a b : BitVec 32} (k : ℕ) :
    a &&& BitVec.twoPow 32 k = b &&& BitVec.twoPow 32 k ↔
      (a &&& BitVec.twoPow 32 k ≠ 0 ↔ b &&& BitVec.twoPow 32 k ≠ 0) := by
  constructor
  · intro h
    rw [h]
  · intro h
    rw [BitVec.and_twoPow, BitVec.and_twoPow] at *
    split_ifs at h ⊢ with ha hb hb
    · rfl
    · by_contra hne
      exact absurd (h.mp hne) (by simp)
    · by_contra hne
      exact absurd (h.mpr fun h0 => hne h0.symm) (by simp)
    · rfl

/-- The flags of a header that are read. -/
theorem and_headerMask_eq_iff {a b : BitVec 32} (ha : a &&& extraHeaderInfoFlag ≠ 0)
    (hb : b &&& extraHeaderInfoFlag ≠ 0) :
    a &&& headerMask = b &&& headerMask ↔
      a &&& ~~~ allExtraFlags = b &&& ~~~ allExtraFlags ∧
        (a &&& extraShrinkFlag ≠ 0 ↔ b &&& extraShrinkFlag ≠ 0) ∧
        (a &&& extraShadowsFlag ≠ 0 ↔ b &&& extraShadowsFlag ≠ 0) := by
  have hinfo : a &&& extraHeaderInfoFlag = b &&& extraHeaderInfoFlag :=
    (and_flag_eq_iff 31).mpr (iff_of_true ha hb)
  have hunion : headerMask =
      ~~~ allExtraFlags ||| extraHeaderInfoFlag ||| extraShrinkFlag ||| extraShadowsFlag := by
    decide
  constructor
  · intro h
    -- Each mask that is read lies within `headerMask`.
    have hwithin {m : BitVec 32} (hm : headerMask &&& m = m) : a &&& m = b &&& m := by
      rw [← hm, ← BitVec.and_assoc, h, BitVec.and_assoc]
    exact ⟨hwithin (by decide), (and_flag_eq_iff 30).mp (hwithin (by decide)),
      (and_flag_eq_iff 29).mp (hwithin (by decide))⟩
  · rintro ⟨hparent, hshrink, hshadows⟩
    have hshrink' : a &&& extraShrinkFlag = b &&& extraShrinkFlag :=
      (and_flag_eq_iff 30).mpr hshrink
    have hshadows' : a &&& extraShadowsFlag = b &&& extraShadowsFlag :=
      (and_flag_eq_iff 29).mpr hshadows
    rw [hunion]
    simp only [BitVec.and_or_distrib_left]
    rw [hparent, hinfo, hshrink', hshadows']

theorem ite_one_zero_eq_iff {P Q : Prop} [Decidable P] [Decidable Q] :
    (if P then (1 : BitVec 32) else 0) = (if Q then 1 else 0) ↔ (P ↔ Q) := by
  split_ifs with hP hQ hQ <;> simp [hP, hQ]

/-- When two headers give the same tags. -/
theorem unpack_header_eq_iff {p q : PackedTags2} (hp : p.Used) (hq : q.Used) (hph : p.Header)
    (hqh : q.Header) :
    yaffsUnpackTags2TagsOnly q = yaffsUnpackTags2TagsOnly p ↔
      q.seqNumber = p.seqNumber ∧ q.objId = p.objId ∧ q.nBytes = p.nBytes ∧
        q.chunkId &&& headerMask = p.chunkId &&& headerMask := by
  rw [unpack_of_header hp hph, unpack_of_header hq hqh, and_headerMask_eq_iff hqh hph]
  constructor
  · intro h
    have hobj : q.objId = p.objId :=
      eq_of_objectType (congrArg YaffsExtTags.objId h) (congrArg YaffsExtTags.extraObjType h)
    have hlen := congrArg YaffsExtTags.extraLength h
    have hequiv := congrArg YaffsExtTags.extraEquivId h
    have hshrink := congrArg YaffsExtTags.extraIsShrink h
    have hshadows := congrArg YaffsExtTags.extraShadows h
    dsimp only at hlen hequiv hshrink hshadows
    rw [hobj] at hlen hequiv
    refine ⟨congrArg YaffsExtTags.seqNumber h, hobj, ?_, congrArg YaffsExtTags.extraParentId h,
      ite_one_zero_eq_iff.mp hshrink, ite_one_zero_eq_iff.mp hshadows⟩
    -- The third word is in one of two fields, by the object type.
    by_cases ht : p.objId >>> extraObjectTypeShift = yaffsObjectTypeHardlink
    · rwa [if_pos ht, if_pos ht] at hequiv
    · rwa [if_neg ht, if_neg ht] at hlen
  · rintro ⟨hseq, hobj, hn, hparent, hshrink, hshadows⟩
    rw [hseq, hobj, hn, hparent, ite_one_zero_eq_iff.mpr hshrink,
      ite_one_zero_eq_iff.mpr hshadows]

/-- **When two packed tags give the same tags.** -/
theorem yaffsUnpackTags2TagsOnly_eq_iff (p q : PackedTags2) :
    yaffsUnpackTags2TagsOnly q = yaffsUnpackTags2TagsOnly p ↔
      (¬ p.Used ∧ ¬ q.Used) ∨
      (q.seqNumber = p.seqNumber ∧ q.objId = p.objId ∧ q.nBytes = p.nBytes ∧
        (q.chunkId = p.chunkId ∨
          p.Header ∧ q.Header ∧ q.chunkId &&& headerMask = p.chunkId &&& headerMask)) := by
  by_cases hp : p.Used
  · by_cases hq : q.Used
    · rw [or_iff_right fun h => h.1 hp]
      by_cases hph : p.Header
      · by_cases hqh : q.Header
        · rw [unpack_header_eq_iff hp hq hph hqh]
          constructor
          · rintro ⟨hs, ho, hn, hc⟩
            exact ⟨hs, ho, hn, .inr ⟨hph, hqh, hc⟩⟩
          · rintro ⟨hs, ho, hn, hc | ⟨-, -, hc⟩⟩
            · exact ⟨hs, ho, hn, by rw [hc]⟩
            · exact ⟨hs, ho, hn, hc⟩
        · refine iff_of_false (fun h => hqh ?_) ?_
          · rw [← extraAvailable_unpack hq, h, extraAvailable_unpack hp]
            exact hph
          · rintro ⟨-, -, -, hc | ⟨-, h, -⟩⟩
            · exact hqh (by unfold PackedTags2.Header; rw [hc]; exact hph)
            · exact hqh h
      · by_cases hqh : q.Header
        · refine iff_of_false (fun h => hph ?_) ?_
          · rw [← extraAvailable_unpack hp, ← h, extraAvailable_unpack hq]
            exact hqh
          · rintro ⟨-, -, -, hc | ⟨h, -⟩⟩
            · exact hph (by unfold PackedTags2.Header; rw [← hc]; exact hqh)
            · exact hph h
        · rw [unpack_of_not_header hp hph, unpack_of_not_header hq hqh]
          constructor
          · intro h
            exact ⟨congrArg YaffsExtTags.seqNumber h, congrArg YaffsExtTags.objId h,
              congrArg YaffsExtTags.nBytes h, .inl (congrArg YaffsExtTags.chunkId h)⟩
          · rintro ⟨hs, ho, hn, hc | ⟨h, -⟩⟩
            · rw [hs, ho, hn, hc]
            · exact absurd h hph
    · refine iff_of_false (fun h => hq ?_) ?_
      · rw [← chunkUsed_unpack, h, chunkUsed_unpack]
        exact hp
      · rintro (⟨h, -⟩ | ⟨hs, -⟩)
        · exact h hp
        · exact hq (by unfold PackedTags2.Used; rw [hs]; exact hp)
  · by_cases hq : q.Used
    · refine iff_of_false (fun h => hp ?_) ?_
      · rw [← chunkUsed_unpack, ← h, chunkUsed_unpack]
        exact hq
      · rintro (⟨-, h⟩ | ⟨hs, -⟩)
        · exact h hq
        · exact hp (by unfold PackedTags2.Used; rw [← hs]; exact hq)
    · rw [unpack_of_not_used hp, unpack_of_not_used hq]
      exact iff_of_true rfl (.inl ⟨hp, hq⟩)

/-- Flips of packed tags that unpacking does not see. -/
def Harmless (p m : PackedTags2) : Prop :=
  (p.seqNumber = 0xffffffff ∧ m.seqNumber = 0) ∨
  (m.seqNumber = 0 ∧ m.objId = 0 ∧ m.nBytes = 0 ∧
    (m.chunkId = 0 ∨ p.chunkId &&& extraHeaderInfoFlag ≠ 0 ∧ m.chunkId = extraSpareFlags))

instance (p m : PackedTags2) : Decidable (Harmless p m) := inferInstanceAs (Decidable (_ ∨ _))

theorem xor_eq_left_iff {w : ℕ} {a m : BitVec w} : a ^^^ m = a ↔ m = 0 := by
  constructor
  · intro h
    have h' : a ^^^ (a ^^^ m) = a ^^^ a := by rw [h]
    rwa [← BitVec.xor_assoc, BitVec.xor_self, BitVec.zero_xor] at h'
  · rintro rfl
    exact BitVec.xor_zero

/-- Flips outside the bits that are read from a header. -/
theorem xor_and_headerMask_iff {c m : BitVec 32} :
    (c ^^^ m) &&& headerMask = c &&& headerMask ↔ m = 0 ∨ m = extraSpareFlags := by
  rw [xor_and_distrib, xor_eq_left_iff]
  constructor
  · intro h
    have hm : m = m &&& extraSpareFlags := by
      calc m = m &&& (headerMask ||| extraSpareFlags) := by
            rw [show headerMask ||| extraSpareFlags = BitVec.allOnes 32 by decide,
              BitVec.and_allOnes]
        _ = m &&& headerMask ||| m &&& extraSpareFlags := BitVec.and_or_distrib_left
        _ = m &&& extraSpareFlags := by rw [h]; exact BitVec.zero_or
    rw [show extraSpareFlags = BitVec.twoPow 32 28 by decide, BitVec.and_twoPow] at hm
    split_ifs at hm
    · exact .inr hm
    · exact .inl hm
  · rintro (rfl | rfl) <;> decide

/-- **Which flips do not change the tags.** -/
theorem unpack_flip_iff (p m : PackedTags2) :
    yaffsUnpackTags2TagsOnly (p.flip m) = yaffsUnpackTags2TagsOnly p ↔ Harmless p m := by
  rw [yaffsUnpackTags2TagsOnly_eq_iff]
  unfold PackedTags2.flip PackedTags2.Used PackedTags2.Header Harmless
  simp only [xor_eq_left_iff, not_not]
  apply or_congr
  · constructor
    · rintro ⟨hp, hm⟩
      exact ⟨hp, xor_eq_left_iff.mp (hm.trans hp.symm)⟩
    · rintro ⟨hp, hm⟩
      exact ⟨hp, by rw [hm]; exact BitVec.xor_zero.trans hp⟩
  · refine and_congr_right fun _ => and_congr_right fun _ => and_congr_right fun _ => ?_
    constructor
    · rintro (h | ⟨hh, -, h⟩)
      · exact .inl h
      · rcases xor_and_headerMask_iff.mp h with h | h
        · exact .inl h
        · exact .inr ⟨hh, h⟩
    · rintro (h | ⟨hh, h⟩)
      · exact .inl h
      · refine .inr ⟨hh, ?_, xor_and_headerMask_iff.mpr (.inr h)⟩
        rw [h, xor_and_distrib, show extraSpareFlags &&& extraHeaderInfoFlag = 0 by decide]
        intro h0
        exact hh (BitVec.xor_zero.symm.trans h0)

end SortingLine.Flash
