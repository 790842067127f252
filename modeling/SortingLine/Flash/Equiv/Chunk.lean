import SortingLine.Flash.Chunk
import SortingLine.Flash.Equiv.Ecc
import SortingLine.Flash.Equiv.Tags

/-!
# Chunks under bit errors

A chunk is read back from a page with a few flipped bits.  The data come back as they were written,
since the ECC covers the whole main area, the tags at its end included.  But the tags are unpacked
before the correction, from the bytes as they were read, so a flip in these changes the tags unless
unpacking does not see it (`roundTrip_iff`).

With inband tags `ecc_result` is never `YAFFS_ECC_RESULT_NO_ERROR` when the result of the check is
reported, so nothing is reported (`eccReported_iff`).
-/

namespace SortingLine.Flash

variable {nEccFixed nEccUnfixed : BitVec 32} {fullpage : Bool} {rt : NandReturns}
  {page page₀ data e : Buf} {tags : YaffsExtTags}

/-! ### The configured device -/

/-- `&data[pt2_offset]` -/
def tagsOffset : ℕ := bytesOfPage - sizeofPackedTags2

/-- The spare bytes of a page from the ECCs on. -/
def storedEcc (page : Buf) : Buf := fun k => page (bytesOfPage + (eccOffset + k))

/-- `nand_correct_page_swecc` on the page that has been read. -/
def checked (page : Buf) : Swecc :=
  nandCorrectPageSwecc page (storedEcc page) bytesOfPage 0 0

/-- All transfers of a read or write of a whole page return their sizes. -/
def Transferred (fullpage : Bool) (rt : NandReturns) : Prop :=
  match fullpage with
  | true => rt .mainSpare (bytesOfPage + oobbytesOfPage) = (bytesOfPage + oobbytesOfPage : ℕ)
  | false => rt .main bytesOfPage = bytesOfPage ∧ rt .spare oobbytesOfPage = oobbytesOfPage

theorem transferred_faithful : Transferred fullpage faithful := by
  cases fullpage with
  | true => rfl
  | false => exact ⟨rfl, rfl⟩

theorem eccResult_unpack (p : PackedTags2) :
    (yaffsUnpackTags2TagsOnly p).eccResult = .unknown := by
  by_cases h : p.Used
  · by_cases hh : p.Header
    · rw [unpack_of_header h hh]
    · rw [unpack_of_not_header h hh]
  · rw [unpack_of_not_used h]

/-- Nothing is reported in tags whose `ecc_result` is unknown. -/
theorem reportEcc_of_unknown {dev : YaffsDev} {t : YaffsExtTags} (h : t.eccResult = .unknown)
    (eccFixed eccUnfixed : ℕ) : reportEcc dev t eccFixed eccUnfixed = (t, dev) := by
  have hne : t.eccResult ≠ .noError := by
    rw [h]
    decide
  unfold reportEcc
  simp only [hne, and_false, if_false]

theorem nandRead_main_zero : nandRead page .main 0 = page := by
  funext i
  show page (0 + 0 + i) = page i
  rw [Nat.add_zero, Nat.zero_add]

theorem readTransfers_configured (h : Transferred fullpage rt) :
    readTransfers (.configured nEccFixed nEccUnfixed) fullpage true true rt page =
      some (some page, fun k => page (bytesOfPage + k)) := by
  unfold readTransfers
  cases fullpage with
  | true =>
    have hfull : rt .mainSpare (bytesOfPage + oobbytesOfPage) = bytesOfPage + oobbytesOfPage := h
    rw [if_pos rfl, if_pos rfl, if_pos hfull]
    show some (some (nandRead page .main 0), fun i => nandRead page .main 0 (bytesOfPage + i)) = _
    rw [nandRead_main_zero]
  | false =>
    obtain ⟨hmain, hspare⟩ := h
    rw [if_pos rfl, if_neg Bool.false_ne_true, if_pos hmain, if_pos hspare, nandRead_main_zero]
    rfl

theorem readTransfers_eq_none (h : ¬ Transferred fullpage rt) :
    readTransfers (.configured nEccFixed nEccUnfixed) fullpage true true rt page = none := by
  unfold readTransfers
  rw [if_pos rfl]
  cases fullpage with
  | true =>
    rw [if_pos rfl]
    exact if_neg h
  | false =>
    rw [if_neg Bool.false_ne_true]
    by_cases hmain : rt .main bytesOfPage = bytesOfPage
    · rw [if_pos hmain]
      exact if_neg fun hspare => h ⟨hmain, hspare⟩
    · exact if_neg hmain

/-- What a successful read of a page gives. -/
def readBack (page : Buf) : ChunkAndTags where
  data := some (checked page).buf
  tags := some (yaffsUnpackTags2TagsOnly (getPacked page tagsOffset))

/-- **A read of the configured device**: the tags of the page as it was read, its data corrected,
and nothing reported. -/
theorem read_configured (h : Transferred fullpage rt) :
    ls1xReadChunkAndTags (.configured nEccFixed nEccUnfixed) fullpage true true rt page =
      (some (readBack page), .configured nEccFixed nEccUnfixed) := by
  let r := reportEcc (.configured nEccFixed nEccUnfixed)
    (yaffsUnpackTags2TagsOnly (getPacked page tagsOffset))
    (checked page).eccFixed (checked page).eccUnfixed
  have hr : r = _ := reportEcc_of_unknown (eccResult_unpack _) _ _
  unfold ls1xReadChunkAndTags
  rw [readTransfers_configured h]
  show (some { data := some (checked page).buf, tags := some r.1 }, r.2) = (some (readBack page), _)
  rw [hr]
  rfl

theorem read_eq_none (h : ¬ Transferred fullpage rt) :
    ls1xReadChunkAndTags (.configured nEccFixed nEccUnfixed) fullpage true true rt page =
      (none, .configured nEccFixed nEccUnfixed) := by
  unfold ls1xReadChunkAndTags
  rw [readTransfers_eq_none h]

/-! ### Writing -/

/-- The caller's buffer with the tags packed into its end, which is what is written. -/
def packedData (data : Buf) (tags : YaffsExtTags) : Buf :=
  putPacked data tagsOffset (yaffsPackTags2TagsOnly tags)

/-- The spare bytes that are written. -/
def packedSpare (data : Buf) (tags : YaffsExtTags) : Buf :=
  putEcc (packedData data tags) fun _ => 0xff

/-- A page that holds these data and their ECCs. -/
structure Holds (page data : Buf) (tags : YaffsExtTags) : Prop where
  main : ∀ k < bytesOfPage, page k = packedData data tags k
  spare : ∀ k < oobbytesOfPage, page (bytesOfPage + k) = packedSpare data tags k

theorem copyAt_of_mem (buf src : Buf) (off : ℕ) {len k : ℕ} (h : k < len) :
    copyAt buf off len src (off + k) = src k := by
  unfold copyAt
  rw [if_pos ⟨Nat.le_add_right off k, Nat.add_lt_add_left h off⟩, Nat.add_sub_cancel_left]

theorem copyAt_of_lt {buf src : Buf} {off len k : ℕ} (h : k < off) :
    copyAt buf off len src k = buf k :=
  if_neg fun hk => Nat.not_le.mpr h hk.1

theorem copyAt_zero {buf src : Buf} {len k : ℕ} (h : k < len) : copyAt buf 0 len src k = src k := by
  have := copyAt_of_mem buf src 0 h
  rwa [Nat.zero_add] at this

/-- A successful write, in either mode, leaves the data and their ECCs in the page. -/
theorem holds_of_write
    (h : ls1xWriteChunkAndTags (.configured nEccFixed nEccUnfixed) fullpage rt page₀ data tags =
      some page) : Holds page data tags := by
  cases fullpage with
  | true =>
    let full := copyAt (packedData data tags) bytesOfPage oobbytesOfPage (packedSpare data tags)
    change (if rt .mainSpare (bytesOfPage + oobbytesOfPage) = bytesOfPage + oobbytesOfPage then
      some (copyAt page₀ 0 (bytesOfPage + oobbytesOfPage) full) else none) = some page at h
    split_ifs at h
    obtain rfl := Option.some.inj h
    constructor
    · intro k hk
      rw [copyAt_zero (Nat.lt_add_right oobbytesOfPage hk)]
      exact copyAt_of_lt hk
    · intro k hk
      rw [copyAt_zero (Nat.add_lt_add_left hk bytesOfPage)]
      exact copyAt_of_mem _ _ _ hk
  | false =>
    change (if rt .main bytesOfPage = bytesOfPage then
      if rt .spare oobbytesOfPage = oobbytesOfPage then
        some (copyAt (copyAt page₀ 0 bytesOfPage (packedData data tags)) bytesOfPage oobbytesOfPage
          (packedSpare data tags))
      else none else none) = some page at h
    split_ifs at h
    obtain rfl := Option.some.inj h
    constructor
    · intro k hk
      rw [copyAt_of_lt hk, copyAt_zero hk]
    · intro k hk
      exact copyAt_of_mem _ _ _ hk

theorem exists_page_of_transferred (h : Transferred fullpage rt) (page₀ data : Buf)
    (tags : YaffsExtTags) :
    ∃ page, ls1xWriteChunkAndTags (.configured nEccFixed nEccUnfixed) fullpage rt page₀ data tags =
      some page := by
  unfold ls1xWriteChunkAndTags
  cases fullpage with
  | true => exact ⟨_, if_pos h⟩
  | false => exact ⟨_, (if_pos h.1).trans (if_pos h.2)⟩

/-- The tags are found where they were packed. -/
theorem Holds.getPacked_eq (h : Holds page data tags) :
    getPacked page tagsOffset = yaffsPackTags2TagsOnly tags := by
  have hcongr : getPacked page tagsOffset = getPacked (packedData data tags) tagsOffset := by
    apply getPacked_congr
    intro k hk
    apply h.main
    unfold tagsOffset bytesOfPage sizeofPackedTags2
    omega
  rw [hcongr]
  exact getPacked_putPacked data tagsOffset _

/-- The stored ECC of a sector is the ECC of the sector. -/
theorem Holds.eccAt_eq (h : Holds page data tags) {i : ℕ} (hi : i < bytesOfPage / 256) :
    eccAt (storedEcc page) i = nandCalculateEcc (sector page i) := by
  have hsector : nandCalculateEcc (sector page i) =
      nandCalculateEcc (sector (packedData data tags) i) := by
    apply nandCalculateEcc_congr
    intro j hj
    apply h.main
    unfold bytesOfPage at *
    omega
  rw [hsector, ← eccAt_nandCalculatePageSwecc (packedData data tags) (fun _ => 0xff) hi]
  apply eccAt_congr
  intro k hk
  have hlt : 3 * i + k < eccLen := by
    unfold eccLen
    omega
  have hspare : eccOffset + (3 * i + k) < oobbytesOfPage := by
    have : eccOffset + eccLen = oobbytesOfPage := by decide
    omega
  show page (bytesOfPage + (eccOffset + (3 * i + k))) = _
  rw [h.spare _ hspare]
  unfold packedSpare putEcc
  rw [copyAt_of_mem _ _ _ hlt]

/-! ### Flips -/

/-- A page with the bits of a mask flipped. -/
def flipped (page e : Buf) : Buf := fun k => page k ^^^ e k

/-- At most one bit is flipped in each sector together with the bits of its ECC that are used. -/
def SingleFlips (e : Buf) : Prop :=
  ∀ i < bytesOfPage / 256,
    ∑ j ∈ Finset.range 256, bitCount (sector e i j) + (eccAt (storedEcc e) i).usedFlips ≤ 1

instance : DecidablePred SingleFlips := fun _ => inferInstanceAs (Decidable (∀ i < _, _ ≤ _))

/-- The data that are read are the data that were written. -/
theorem Holds.checked_flipped (h : Holds page data tags) (he : SingleFlips e) {k : ℕ}
    (hk : k < bytesOfPage) : (checked (flipped page e)).buf k = packedData data tags k := by
  have hi : k / 256 < bytesOfPage / 256 := by
    unfold bytesOfPage at *
    omega
  have hecc : eccAt (storedEcc (flipped page e)) (k / 256) =
      (nandCalculateEcc (sector page (k / 256))).flip (eccAt (storedEcc e) (k / 256)) := by
    rw [← h.eccAt_eq hi]
    rfl
  have hkeep : 256 * (k / 256) + k % 256 = k := Nat.div_add_mod k 256
  have hcorr := corrected_of_le_one (d := sector page (k / 256)) (he _ hi)
    (Nat.mod_lt k (by decide : 256 > 0))
  unfold checked
  rw [nandCorrectPageSwecc_buf, if_pos hi, hecc]
  unfold sector at hcorr
  rw [hkeep] at hcorr
  rw [← h.main k hk]
  exact hcorr

/-- Equal in all fields but `ecc_result`. -/
def SameTags (t t₀ : YaffsExtTags) : Prop := { t with eccResult := t₀.eccResult } = t₀

instance (t t₀ : YaffsExtTags) : Decidable (SameTags t t₀) := inferInstanceAs (Decidable (_ = _))

/-- Reading the page with the flips of `e` returns `YAFFS_OK`, the data that were written, and the
tags that reading the page without the flips returns. -/
def RoundTrip (dev : YaffsDev) (fullpage : Bool) (data page e : Buf) : Prop :=
  ∃ c c₀ d t t₀,
    (ls1xReadChunkAndTags dev fullpage true true faithful (flipped page e)).1 = some c ∧
    (ls1xReadChunkAndTags dev fullpage true true faithful page).1 = some c₀ ∧
    c.data = some d ∧ (∀ k < bytesOfPage, d k = data k) ∧
    c.tags = some t ∧ c₀.tags = some t₀ ∧ SameTags t t₀

theorem sameTags_unpack_iff (p q : PackedTags2) :
    SameTags (yaffsUnpackTags2TagsOnly q) (yaffsUnpackTags2TagsOnly p) ↔
      yaffsUnpackTags2TagsOnly q = yaffsUnpackTags2TagsOnly p := by
  unfold SameTags
  rw [eccResult_unpack p, ← eccResult_unpack q]

/-- A round trip with faithful transfers: the correction restores the data, and the flips do not
change what the tags unpack to. -/
theorem roundTrip_configured_iff :
    RoundTrip (.configured nEccFixed nEccUnfixed) fullpage data page e ↔
      (∀ k < bytesOfPage, (checked (flipped page e)).buf k = data k) ∧
        yaffsUnpackTags2TagsOnly (getPacked (flipped page e) tagsOffset) =
          yaffsUnpackTags2TagsOnly (getPacked page tagsOffset) := by
  unfold RoundTrip
  rw [read_configured transferred_faithful, read_configured transferred_faithful]
  constructor
  · rintro ⟨c, c₀, d, t, t₀, hc, hc₀, hd, hdata, ht, ht₀, hsame⟩
    obtain rfl := Option.some.inj hc
    obtain rfl := Option.some.inj hc₀
    obtain rfl := Option.some.inj hd
    obtain rfl := Option.some.inj ht
    obtain rfl := Option.some.inj ht₀
    exact ⟨hdata, sameTags_unpack_iff _ _ |>.mp hsame⟩
  · rintro ⟨hdata, htags⟩
    exact ⟨_, _, _, _, _, rfl, rfl, rfl, hdata, rfl, rfl, (sameTags_unpack_iff _ _).mpr htags⟩

/-- The tags that are read with flips are the stored tags with the flips among them. -/
theorem Holds.getPacked_flipped (h : Holds page data tags) :
    getPacked (flipped page e) tagsOffset =
      (yaffsPackTags2TagsOnly tags).flip (getPacked e tagsOffset) := by
  rw [← h.getPacked_eq]
  exact getPacked_flip page e tagsOffset

/-- **Round trip under bit errors**: after a successful write, and with at most one flipped bit in
each sector, the chunk is read back if and only if the flips in its tags are harmless. -/
theorem roundTrip_iff
    (hw : ls1xWriteChunkAndTags (.configured nEccFixed nEccUnfixed) fullpage rt page₀ data tags =
      some page) (he : SingleFlips e) :
    RoundTrip (.configured nEccFixed nEccUnfixed) fullpage (packedData data tags) page e ↔
      Harmless (yaffsPackTags2TagsOnly tags) (getPacked e tagsOffset) := by
  have hh := holds_of_write hw
  rw [roundTrip_configured_iff, hh.getPacked_flipped, hh.getPacked_eq, unpack_flip_iff]
  exact and_iff_right fun k hk => hh.checked_flipped he hk

/-- The tags of a full data chunk. -/
def dataTags : YaffsExtTags :=
  { chunkUsed := 1, objId := 257, chunkId := 1, nBytes := 2032, seqNumber := 4096 }

theorem roundTrip_flip_in_data :
    ∃ page, ls1xWriteChunkAndTags (.configured 0 0) false faithful (fun _ => 0xff) (fun _ => 0)
        dataTags = some page ∧
      RoundTrip (.configured 0 0) false (packedData (fun _ => 0) dataTags) page
        (fun k => if k = 300 then 1 else 0) := by
  obtain ⟨page, hw⟩ := exists_page_of_transferred transferred_faithful (fun _ => 0xff)
    (fun _ => 0) dataTags
  exact ⟨page, hw, (roundTrip_iff hw (by decide +kernel)).mpr (by decide +kernel)⟩

/-- A flipped bit of the stored object id. -/
theorem not_roundTrip_flip_in_tags :
    ¬ ∀ (nEccFixed nEccUnfixed : BitVec 32) (fullpage : Bool) (rt : NandReturns)
      (page₀ data page e : Buf) (tags : YaffsExtTags),
      ls1xWriteChunkAndTags (.configured nEccFixed nEccUnfixed) fullpage rt page₀ data tags =
        some page → SingleFlips e →
      RoundTrip (.configured nEccFixed nEccUnfixed) fullpage (packedData data tags) page e := by
  intro h
  obtain ⟨page, hw⟩ := exists_page_of_transferred transferred_faithful (fun _ => 0xff)
    (fun _ => 0) dataTags
  have hround := h 0 0 false faithful _ _ page (fun k => if k = 2036 then 1 else 0) _ hw
    (by decide +kernel)
  have htags := (roundTrip_configured_iff.mp hround).2
  rw [(holds_of_write hw).getPacked_flipped, (holds_of_write hw).getPacked_eq] at htags
  revert htags
  decide +kernel

/-! ### Reporting -/

/-- What a call that returns `YAFFS_OK` reports of `eccFixed` corrected sectors and `eccUnfixed`
uncorrectable ones. -/
structure Reports (dev dev' : YaffsDev) (t : YaffsExtTags) (eccFixed eccUnfixed : ℕ) : Prop where
  unfixed : 0 < eccUnfixed → t.eccResult = .unfixed ∧
    dev' = { dev with nEccUnfixed := dev.nEccUnfixed + BitVec.ofNat 32 eccUnfixed }
  fixed : eccUnfixed = 0 → 0 < eccFixed → t.eccResult = .fixed ∧
    dev' = { dev with nEccFixed := dev.nEccFixed + BitVec.ofNat 32 eccFixed }
  good : eccUnfixed = 0 → eccFixed = 0 →
    t.eccResult ≠ .unfixed ∧ t.eccResult ≠ .fixed ∧ dev' = dev

/-- A read of the page fails and counts nothing, or returns tags and reports what the check of the
page has found. -/
def EccReported (dev : YaffsDev) (fullpage : Bool) (rt : NandReturns) (page : Buf) : Prop :=
  let r := ls1xReadChunkAndTags dev fullpage true true rt page
  match r.1 with
  | none => r.2 = dev
  | some c => ∃ t, c.tags = some t ∧
    Reports dev r.2 t (checked page).eccFixed (checked page).eccUnfixed

/-- **Reports**: what the check has found is reported if and only if it has not been made or has
found nothing. -/
theorem eccReported_iff (nEccFixed nEccUnfixed : BitVec 32) (fullpage : Bool) (rt : NandReturns)
    (page : Buf) :
    EccReported (.configured nEccFixed nEccUnfixed) fullpage rt page ↔
      ¬ Transferred fullpage rt ∨
        (checked page).eccFixed = 0 ∧ (checked page).eccUnfixed = 0 := by
  unfold EccReported
  by_cases ht : Transferred fullpage rt
  · rw [read_configured ht, or_iff_right (not_not.mpr ht)]
    have hunknown := eccResult_unpack (getPacked page tagsOffset)
    constructor
    · rintro ⟨t, htags, hr⟩
      obtain rfl := Option.some.inj htags
      have hu : (checked page).eccUnfixed = 0 := by
        by_contra hu
        have := (hr.unfixed (Nat.pos_of_ne_zero hu)).1
        rw [hunknown] at this
        cases this
      refine ⟨?_, hu⟩
      by_contra hf
      have := (hr.fixed hu (Nat.pos_of_ne_zero hf)).1
      rw [hunknown] at this
      cases this
    · rintro ⟨hf, hu⟩
      refine ⟨_, rfl, ?_⟩
      rw [hf, hu]
      refine ⟨fun h => absurd h (Nat.lt_irrefl 0), fun _ h => absurd h (Nat.lt_irrefl 0),
        fun _ _ => ⟨?_, ?_, rfl⟩⟩ <;>
      · rw [hunknown]
        decide
  · rw [read_eq_none ht]
    exact iff_of_true rfl (.inl ht)

/-- A page of zeros, with the ECCs of no sector. -/
theorem not_eccReported_zeros :
    ¬ ∀ (nEccFixed nEccUnfixed : BitVec 32) (fullpage : Bool) (rt : NandReturns) (page : Buf),
      (getPacked page tagsOffset).seqNumber ≠ 0xffffffff →
      EccReported (.configured nEccFixed nEccUnfixed) fullpage rt page := by
  intro h
  have hr := h 0 0 false faithful (fun _ => 0) (by decide +kernel)
  unfold EccReported at hr
  rw [read_configured transferred_faithful] at hr
  obtain ⟨t, htags, hr⟩ := hr
  obtain rfl := Option.some.inj htags
  have := (hr.unfixed (by decide +kernel)).1
  rw [eccResult_unpack] at this
  cases this

end SortingLine.Flash
