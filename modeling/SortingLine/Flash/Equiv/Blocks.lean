import SortingLine.Flash.Blocks
import SortingLine.Flash.Equiv.Tags
import SortingLine.Flash.Equiv.Transfer

/-!
# Do block operations tell the truth?

`isBadblock_spec` reads off the four answers of the test for bad blocks: an error, which is not 0
or 1, or whether a marker is set.  `erase_block` takes every answer but 1 for a good block, and
returns 0 for a bad one like for one that it has erased; the query does not look at what the read of
the tags returns.

`blocks_truthful_iff` says when, in spite of this, what the two functions report is true.
-/

namespace SortingLine.Nand

open Flash

/-- The bad-block marker of a page. -/
def BlockHw.marker (hw : BlockHw) (page : ℕ) : BitVec 8 := hw.page page 2048

/-- A marker is set in the first two pages of the block that begins at page `p`. -/
def BlockHw.MarkerSet (hw : BlockHw) (p : ℕ) : Prop := hw.marker p ≠ 0xFF ∨ hw.marker (p + 1) ≠ 0xFF

/-- The read of one of the markers times out. -/
def BlockHw.MarkerUnreadable (hw : BlockHw) : Prop :=
  TimedOut (hw.during .firstMarker) 40 ∨ TimedOut (hw.during .secondMarker) 40

instance (hw : BlockHw) (p : ℕ) : Decidable (hw.MarkerSet p) :=
  inferInstanceAs (Decidable (_ ∨ _))

instance (hw : BlockHw) : Decidable hw.MarkerUnreadable := inferInstanceAs (Decidable (_ ∨ _))

/-! ### The test for bad blocks -/

/-- The first page of a block, if the chip has it. -/
theorem toNat_blockToPage {blkNum : BitVec 32} (h : blkNum.toNat < 1024) :
    (blockToPage blkNum).toNat = blkNum.toNat * 64 := by
  rw [blockToPage]
  bv_omega

/-- A page of the chip that a block number leads to is the first of a block. -/
theorem toNat_blockToPage_succ {blkNum : BitVec 32} (h : (blockToPage blkNum).toNat < 65536) :
    (blockToPage blkNum + 1).toNat = (blockToPage blkNum).toNat + 1 := by
  bv_omega

/-- The read of one marker, from a page of the chip. -/
theorem readMarker (hw : Hw) (dev : Dev) {pageNum : BitVec 32} (hpage : pageNum.toNat < 65536) :
    let r := readPage hw dev pageNum 0 .dmaBuf 8 opSpare
    r.rt = (if TimedOut hw 40 then etimedout else 0) ∧
      (¬ TimedOut hw 40 → r.dev.dmaBuf 0 = hw.page pageNum.toNat 2048) ∧
      ∃ c, r.dev.commands = dev.commands ++ [c] ∧ ∀ p, c.op ≠ .erase p := by
  have ha : area opSpare = some ⟨2048, 64⟩ := rfl
  have hc : (0 : BitVec 32).toNat < (⟨2048, 64⟩ : Area).size := by decide
  have hn : (calcRwSize 8 0 opSpare cmdRead).rwsize ≠ 0 := by decide
  have hsize : (calcRwSize 8 0 opSpare cmdRead).rwsize.toNat = 8 := by decide
  have hpos : 0 < (8 : BitVec 32).toNat := by decide
  obtain ⟨hpg, hcol, hop⟩ := transferRegs_of_area dev.regs hpage ha hc hpos (by decide)
    (Or.inl rfl : cmdRead = cmdRead ∨ _)
  have hbuf : Target.dmaBuf ≠ .null := fun h => Target.noConfusion h
  intro r
  by_cases ht : TimedOut hw 40
  · obtain ⟨hrt, hcmds⟩ := readPage_of_timedOut dev hbuf hpage hn ht
    rw [if_pos ht]
    exact ⟨hrt, fun h => absurd ht h, _, hcmds, fun p h => Op.noConfusion h⟩
  · obtain ⟨hrt, hdma, hcmds, -⟩ := readPage_of_done dev hbuf hpage hn ht
    rw [if_neg ht]
    refine ⟨hrt, fun _ => ?_, _, hcmds, fun p h => Op.noConfusion h⟩
    rw [hdma, hpg, hcol, hop, hsize]
    rfl

/-- The commands of one state are those of an earlier one and some that erase nothing. -/
def NoErase (dev dev' : Dev) : Prop :=
  ∃ cs, dev'.commands = dev.commands ++ cs ∧ ∀ c ∈ cs, ∀ p, c.op ≠ .erase p

theorem NoErase.of_command {dev dev' : Dev} {c : Command}
    (h : dev'.commands = dev.commands ++ [c]) (hc : ∀ p, c.op ≠ .erase p) : NoErase dev dev' :=
  ⟨[c], h, fun c' hc' => by rw [List.mem_singleton.mp hc']; exact hc⟩

theorem NoErase.trans {dev dev' dev'' : Dev} (h : NoErase dev dev') (h' : NoErase dev' dev'') :
    NoErase dev dev'' := by
  obtain ⟨cs, he, hcs⟩ := h
  obtain ⟨cs', he', hcs'⟩ := h'
  refine ⟨cs ++ cs', by rw [he', he, List.append_assoc], fun c hc => ?_⟩
  rcases List.mem_append.mp hc with hc | hc
  · exact hcs c hc
  · exact hcs' c hc

/-- The answer that the test gives for a block that begins at page `p`. -/
def badblockAnswer (hw : BlockHw) (p : ℕ) : Int :=
  if 65536 ≤ p then -einval
  else if hw.MarkerUnreadable then etimedout
  else if hw.MarkerSet p then 1
  else 0

theorem isBadblock_spec (hw : BlockHw) (dev : Dev) (blkNum : BitVec 32) :
    let r := isBadblock hw dev blkNum
    r.1 = badblockAnswer hw (blockToPage blkNum).toNat ∧ NoErase dev r.2 := by
  intro r
  by_cases hp : 65536 ≤ (blockToPage blkNum).toNat
  · have hle : pagesOfChip ≤ blockToPage blkNum := by
      simpa [pagesOfChip, BitVec.le_def] using hp
    have hneg : -einval ≠ 0 := by decide
    simp only [r, isBadblock, readPage, if_pos hle, if_pos hneg, badblockAnswer, if_pos hp]
    exact ⟨trivial, [], (List.append_nil _).symm, fun c hc => absurd hc List.not_mem_nil⟩
  have hlt := Nat.not_le.mp hp
  obtain ⟨hrt₀, hch₀, c₀, hcmds₀, hc₀⟩ := readMarker (hw.during .firstMarker) dev hlt
  have hno₀ := NoErase.of_command hcmds₀ hc₀
  rw [badblockAnswer, if_neg hp]
  by_cases ht₀ : TimedOut (hw.during .firstMarker) 40
  · rw [if_pos (show hw.MarkerUnreadable from Or.inl ht₀)]
    rw [if_pos ht₀] at hrt₀
    have hne : etimedout ≠ 0 := by decide
    simp only [r, isBadblock, hrt₀, if_pos hne]
    exact ⟨trivial, hno₀⟩
  rw [if_neg ht₀] at hrt₀
  have hlt' : (blockToPage blkNum + 1).toNat < 65536 := by
    have := toNat_blockToPage_succ hlt
    rw [blockToPage] at this hlt ⊢
    bv_omega
  obtain ⟨hrt₁, hch₁, c₁, hcmds₁, hc₁⟩ := readMarker (hw.during .secondMarker)
    (readPage (hw.during .firstMarker) dev (blockToPage blkNum) 0 .dmaBuf 8 opSpare).dev hlt'
  have hno₁ := hno₀.trans (NoErase.of_command hcmds₁ hc₁)
  by_cases ht₁ : TimedOut (hw.during .secondMarker) 40
  · rw [if_pos (show hw.MarkerUnreadable from Or.inr ht₁)]
    rw [if_pos ht₁] at hrt₁
    have hne : etimedout ≠ 0 := by decide
    simp only [r, isBadblock, hrt₀, hrt₁, if_pos hne, ne_eq, not_true_eq_false, if_false]
    exact ⟨trivial, hno₁⟩
  rw [if_neg (show ¬ hw.MarkerUnreadable from not_or.mpr ⟨ht₀, ht₁⟩)]
  rw [if_neg ht₁] at hrt₁
  have hmarker :
      (readPage (hw.during .firstMarker) dev (blockToPage blkNum) 0 .dmaBuf 8
          opSpare).dev.dmaBuf 0 ≠ 0xFF ∨
        (readPage (hw.during .secondMarker)
          (readPage (hw.during .firstMarker) dev (blockToPage blkNum) 0 .dmaBuf 8 opSpare).dev
          (blockToPage blkNum + 1) 0 .dmaBuf 8 opSpare).dev.dmaBuf 0 ≠ 0xFF ↔
      hw.MarkerSet (blockToPage blkNum).toNat := by
    rw [hch₀ ht₀, hch₁ ht₁, toNat_blockToPage_succ hlt]
    rfl
  by_cases hm : hw.MarkerSet (blockToPage blkNum).toNat
  · simp only [r, isBadblock, hrt₀, hrt₁, ne_eq, not_true_eq_false, if_false, if_pos hm]
    rw [if_pos (hmarker.mpr hm)]
    exact ⟨rfl, hno₁⟩
  · simp only [r, isBadblock, hrt₀, hrt₁, ne_eq, not_true_eq_false, if_false, if_neg hm]
    rw [if_neg (mt hmarker.mp hm)]
    exact ⟨rfl, hno₁⟩

/-! ### Erasing -/

/-- The erase of a block of the chip: it is of that block, and 0 says that it was complete. -/
theorem sendErase_spec (hw : Hw) (dev : Dev) {blkNum : BitVec 32} (h : blkNum.toNat < 1024) :
    (sendErase hw dev blkNum).1 = (if TimedOut hw 1000 then etimedout else 0) ∧
      (sendErase hw dev blkNum).2.commands =
        dev.commands ++ [⟨.erase (blkNum.toNat * 64), decide (¬ TimedOut hw 1000)⟩] := by
  have hrt : -waitdone hw.cmd 10000 = if TimedOut hw 1000 then etimedout else 0 := by
    rw [waitdone_eq]
    split_ifs <;> rfl
  have hdone : decide ((if TimedOut hw 1000 then etimedout else 0) = 0) =
      decide (¬ TimedOut hw 1000) := by
    split_ifs with h <;> simp [h, etimedout]
  let regs := cmdStarted
    { opnum := 1
      addrH := mainAddrH (blockToPage blkNum)
      addrL := mainAddrL (blockToPage blkNum)
      cmd := cmdErase1 }
  have hshift : regs.shift = 11 := if_neg (by decide : ¬ cmdSpare &&& (cmdErase1 ||| cmdStart) ≠ 0)
  have haddr : regs.address = blkNum.toNat * 64 * 2 ^ regs.shift + 0 := by
    rw [hshift]
    simp only [Regs.address, regs, cmdStarted, mainAddrH, mainAddrL, blockToPage]
    bv_omega
  have hpage : regs.page = blkNum.toNat * 64 :=
    (regs.page_column haddr (Nat.two_pow_pos _)).1
  refine ⟨hrt, ?_⟩
  simp only [sendErase, hrt, hdone, ← hpage]
  rfl

/-- What is promised of erasing a block: `YAFFS_OK` means that it was erased, and no block is erased
whose marker is set or could not be read. -/
def EraseTruthful (hw : BlockHw) (dev : Dev) (flashBlock : BitVec 32) : Prop :=
  let r := ls1xNandEraseBlock hw dev flashBlock
  ∃ cs, r.2.commands = dev.commands ++ cs ∧
    (r.1 = true → ⟨.erase (flashBlock.toNat * 64), true⟩ ∈ cs) ∧
    (hw.MarkerSet (flashBlock.toNat * 64) ∨ hw.MarkerUnreadable →
      ∀ c ∈ cs, ∀ p, c.op ≠ .erase p)

section Erase

variable {hw : BlockHw} {dev : Dev} {flashBlock : BitVec 32}

theorem not_blocksOfChip_le (h : flashBlock.toNat < 1024) : ¬ blocksOfChip ≤ flashBlock := by
  simpa [blocksOfChip, BitVec.le_def] using h

/-- For a block that the chip does not have, nothing is sent. -/
theorem ls1xNandEraseBlock_of_beyond (h : 1024 ≤ flashBlock.toNat) :
    ls1xNandEraseBlock hw dev flashBlock = (false, dev) := by
  have hle : blocksOfChip ≤ flashBlock := by simpa [blocksOfChip, BitVec.le_def] using h
  simp only [ls1xNandEraseBlock, eraseBlock, if_pos hle]
  rfl

/-- A block that is found bad is skipped, and this is reported like an erase. -/
theorem ls1xNandEraseBlock_of_bad (h : flashBlock.toNat < 1024)
    (hbad : (isBadblock hw dev flashBlock).1 = 1) :
    ls1xNandEraseBlock hw dev flashBlock = (true, (isBadblock hw dev flashBlock).2) := by
  simp only [ls1xNandEraseBlock, eraseBlock, if_neg (not_blocksOfChip_le h), if_true, if_pos hbad]
  rfl

/-- Any other block is erased. -/
theorem ls1xNandEraseBlock_of_not_bad (h : flashBlock.toNat < 1024)
    (hbad : (isBadblock hw dev flashBlock).1 ≠ 1) :
    ls1xNandEraseBlock hw dev flashBlock =
      (decide ((sendErase (hw.during .final) (isBadblock hw dev flashBlock).2 flashBlock).1 = 0),
        (sendErase (hw.during .final) (isBadblock hw dev flashBlock).2 flashBlock).2) := by
  simp only [ls1xNandEraseBlock, eraseBlock, if_neg (not_blocksOfChip_le h), if_true, if_neg hbad]

theorem eraseTruthful_of_beyond (h : 1024 ≤ flashBlock.toNat) :
    EraseTruthful hw dev flashBlock := by
  have heq : ls1xNandEraseBlock hw dev flashBlock = (false, dev) := ls1xNandEraseBlock_of_beyond h
  refine ⟨[], ?_, ?_, ?_⟩
  · rw [heq, List.append_nil]
  · rw [heq]
    exact fun h => absurd h Bool.false_ne_true
  · exact fun _ c hc => absurd hc List.not_mem_nil

/-- What `is_badblock` answers for a block of the chip is 1 just when its markers were read and one
is set. -/
theorem isBadblock_eq_one_iff (h : flashBlock.toNat < 1024) :
    (isBadblock hw dev flashBlock).1 = 1 ↔
      ¬ hw.MarkerUnreadable ∧ hw.MarkerSet (flashBlock.toNat * 64) := by
  obtain ⟨hans, -⟩ := isBadblock_spec hw dev flashBlock
  rw [hans, toNat_blockToPage h, badblockAnswer, if_neg (by omega)]
  split_ifs with hu hs
  · exact iff_of_false (by decide) fun h => h.1 hu
  · exact iff_of_true rfl ⟨hu, hs⟩
  · exact iff_of_false (by decide) fun h => hs h.2

theorem not_eraseTruthful_of_bad (h : flashBlock.toNat < 1024)
    (hbad : (isBadblock hw dev flashBlock).1 = 1) : ¬ EraseTruthful hw dev flashBlock := by
  obtain ⟨-, cs, hcs, hno⟩ := isBadblock_spec hw dev flashBlock
  have heq := ls1xNandEraseBlock_of_bad h hbad
  rintro ⟨cs', hcs', hok, -⟩
  rw [heq, hcs] at hcs'
  have herase := hok (by rw [heq])
  rw [← List.append_cancel_left hcs'] at herase
  exact absurd rfl (hno _ herase _)

theorem eraseTruthful_of_not_bad_iff (h : flashBlock.toNat < 1024)
    (hbad : (isBadblock hw dev flashBlock).1 ≠ 1) :
    EraseTruthful hw dev flashBlock ↔
      ¬ hw.MarkerUnreadable ∧ ¬ hw.MarkerSet (flashBlock.toNat * 64) := by
  obtain ⟨-, cs, hcs, -⟩ := isBadblock_spec hw dev flashBlock
  obtain ⟨hrt, hcmds⟩ := sendErase_spec (hw.during .final) (isBadblock hw dev flashBlock).2 h
  rw [hcs, List.append_assoc] at hcmds
  have heq := ls1xNandEraseBlock_of_not_bad h hbad
  constructor
  · rintro ⟨cs', hcs', -, hkept⟩
    rw [heq, hcmds] at hcs'
    have hmem : ⟨.erase (flashBlock.toNat * 64), _⟩ ∈ cs' :=
      List.append_cancel_left hcs' ▸ List.mem_append_right cs (List.mem_singleton.mpr rfl)
    exact ⟨fun hu => hkept (Or.inr hu) _ hmem _ rfl, fun hs => hkept (Or.inl hs) _ hmem _ rfl⟩
  · rintro ⟨hread, hunset⟩
    refine ⟨_, by rw [heq, hcmds], fun hok => ?_, fun h => ?_⟩
    · rw [heq, decide_eq_true_iff, hrt] at hok
      have ht : ¬ TimedOut (hw.during .final) 1000 := by
        intro ht
        rw [if_pos ht] at hok
        exact absurd hok (by decide)
      rw [decide_eq_true ht]
      exact List.mem_append_right cs (List.mem_singleton.mpr rfl)
    · rcases h with h | h
      · exact absurd h hunset
      · exact absurd h hread

end Erase

theorem eraseTruthful_iff (hw : BlockHw) (dev : Dev) (flashBlock : BitVec 32) :
    EraseTruthful hw dev flashBlock ↔ 1024 ≤ flashBlock.toNat ∨
      (¬ hw.MarkerUnreadable ∧ ¬ hw.MarkerSet (flashBlock.toNat * 64)) := by
  rcases Nat.lt_or_ge flashBlock.toNat 1024 with hlt | hge
  · rw [or_iff_right (Nat.not_le.mpr hlt)]
    by_cases hbad : (isBadblock hw dev flashBlock).1 = 1
    · obtain ⟨-, hset⟩ := (isBadblock_eq_one_iff hlt).mp hbad
      exact iff_of_false (not_eraseTruthful_of_bad hlt hbad) fun h => h.2 hset
    · exact eraseTruthful_of_not_bad_iff hlt hbad
  · exact iff_of_true (eraseTruthful_of_beyond hge) (Or.inl hge)

/-! ### Querying -/

/-- Where the tags of a page are. -/
def tagsColumn : ℕ := 2032

/-- The tags of a page. -/
def BlockHw.tags (hw : BlockHw) (page : ℕ) : YaffsExtTags :=
  yaffsUnpackTags2 (getPacked (hw.page page) tagsColumn)

/-- The read of the tags that is complete. -/
def tagsCommand (hw : BlockHw) (page : ℕ) : Command :=
  ⟨.read page tagsColumn ((hw.during .final).bytesOf page tagsColumn sizeofPackedTags2), true⟩

section Query

variable (hw : BlockHw) (dev : Dev) (nEccFixed nEccUnfixed : BitVec 32) (tempbuf : Buf)
  (t : YaffsExtTags)

/-- The tags are those of the page when their read is complete; else they are what was there. -/
theorem readChunkTags_configured {nandChunk : BitVec 32} (hpage : nandChunk.toNat < 65536) :
    let r := readChunkTags (hw.during .final) dev (.configured nEccFixed nEccUnfixed) tempbuf t
      nandChunk
    (TimedOut (hw.during .final) 40 → r.1 = t ∧
      ∃ op, r.2.commands = dev.commands ++ [⟨op, false⟩]) ∧
    (¬ TimedOut (hw.during .final) 40 → r.1 = hw.tags nandChunk.toNat ∧
      r.2.commands = dev.commands ++ [tagsCommand hw nandChunk.toNat]) := by
  let param : NandParam := ⟨nandChunk, 2032, opMain⟩
  have h4 : (16 : BitVec 32) &&& 0x03 = 0 := by decide
  obtain ⟨htimed, hdone⟩ := nandRead_of_area (hw.during .final) dev tempbuf (p := param) hpage rfl
    (by decide : (2032 : BitVec 32).toNat < 2048) h4 (by decide) (by decide)
  intro r
  have hr : r = if (nandRead (hw.during .final) dev (some tempbuf) 16 (some param)).1 = 16 then
      (yaffsUnpackTags2 (getPacked ((nandRead (hw.during .final) dev (some tempbuf) 16
        (some param)).2.1.getD tempbuf) 0),
        (nandRead (hw.during .final) dev (some tempbuf) 16 (some param)).2.2)
      else (t, (nandRead (hw.during .final) dev (some tempbuf) 16 (some param)).2.2) := rfl
  constructor
  · intro ht
    obtain ⟨hrt, hcmds⟩ := htimed ht
    rw [hr, hrt, if_neg (by decide)]
    exact ⟨rfl, _, hcmds⟩
  · intro ht
    obtain ⟨hrt, hbuf, hcmds⟩ := hdone ht
    rw [hr, if_pos (by rw [hrt]; rfl), hbuf]
    have hsize : min (16 : BitVec 32).toNat (2048 - param.colAddr.toNat) = 16 :=
      (by decide : min (16 : BitVec 32).toNat (2048 - (2032 : BitVec 32).toNat) = 16)
    have hstart : 0 + param.colAddr.toNat = 2032 :=
      (by decide : 0 + (2032 : BitVec 32).toNat = 2032)
    dsimp only at hcmds ⊢
    rw [hsize, hstart] at hcmds ⊢
    refine ⟨congrArg yaffsUnpackTags2 ?_, hcmds⟩
    have hcongr : getPacked (copyAt tempbuf 0 16 fun i => hw.page nandChunk.toNat (2032 + i)) 0 =
        getPacked (fun i => hw.page nandChunk.toNat (2032 + i)) 0 := by
      apply getPacked_congr
      intro k hk
      rw [copyAt, if_pos (by omega), Nat.sub_zero]
    exact hcongr

/-- `ls1xReadChunkAndTags` without `data`. -/
theorem ls1xReadChunkAndTags_tagsOnly (fullpage : Bool) (rt : NandReturns) (page : Buf) :
    (ls1xReadChunkAndTags (.configured nEccFixed nEccUnfixed) fullpage false true rt page).1 =
      if rt .main sizeofPackedTags2 = sizeofPackedTags2 then
        some { data := none, tags := some (yaffsUnpackTags2 (getPacked page tagsColumn)) }
      else none := by
  have hshift : getPacked (Flash.nandRead page .main tagsColumn) 0 = getPacked page tagsColumn := by
    simp only [getPacked, getWord, Flash.nandRead, NandOp.start, Nat.zero_add]
    rfl
  have htransfers :
      readTransfers (.configured nEccFixed nEccUnfixed) fullpage false true rt page =
        if rt .main sizeofPackedTags2 = sizeofPackedTags2 then
          some (none, Flash.nandRead page .main tagsColumn)
        else none := rfl
  rw [ls1xReadChunkAndTags, htransfers, ← hshift]
  by_cases h : rt .main sizeofPackedTags2 = sizeofPackedTags2
  · rw [if_pos h, if_pos h]
    rfl
  · rw [if_neg h, if_neg h]

/-- The read of the tags is the one of `ls1xReadChunkAndTags` with what the driver returns, a
failure leaving the tags as they were. -/
theorem readChunkTags_refines (fullpage : Bool) {nandChunk : BitVec 32}
    (hpage : nandChunk.toNat < 65536) :
    let rt : NandReturns := fun _ size => (nandRead (hw.during .final) dev (some tempbuf)
      (BitVec.ofNat 32 size) (some ⟨nandChunk, BitVec.ofNat 32 tagsColumn, opMain⟩)).1
    (readChunkTags (hw.during .final) dev (.configured nEccFixed nEccUnfixed) tempbuf t
        nandChunk).1 =
      ((ls1xReadChunkAndTags (.configured nEccFixed nEccUnfixed) fullpage false true rt
        (hw.page nandChunk.toNat)).1.bind ChunkAndTags.tags).getD t := by
  obtain ⟨htimed, hdone⟩ :=
    readChunkTags_configured hw dev nEccFixed nEccUnfixed tempbuf t hpage
  have h4 : (16 : BitVec 32) &&& 0x03 = 0 := by decide
  obtain ⟨htimed', hdone'⟩ := nandRead_of_area (hw.during .final) dev tempbuf
    (p := ⟨nandChunk, 2032, opMain⟩) hpage rfl (by decide : (2032 : BitVec 32).toNat < 2048) h4
    (by decide) (by decide)
  intro rt
  rw [ls1xReadChunkAndTags_tagsOnly]
  by_cases ht : TimedOut (hw.during .final) 40
  · have hrt : rt .main sizeofPackedTags2 = etimedout := (htimed' ht).1
    rw [(htimed ht).1, hrt, if_neg (by decide)]
    rfl
  · have hrt : rt .main sizeofPackedTags2 = sizeofPackedTags2 := (hdone' ht).1
    rw [(hdone ht).1, if_pos hrt]
    rfl

/-- What is promised of a query: a state that is not `DEAD` comes from the tags of the first page
of the block, which the last command has read. -/
def QueryTruthful (blockNo : BitVec 32) : Prop :=
  let r := ls1xQueryBlock hw dev (.configured nEccFixed nEccUnfixed) tempbuf t blockNo
  let page := blockNo.toNat * 64
  (r.state = .empty →
    r.dev.commands.getLast? = some (tagsCommand hw page) ∧ (hw.tags page).chunkUsed = 0) ∧
  (r.state = .needsScan →
    r.dev.commands.getLast? = some (tagsCommand hw page) ∧ (hw.tags page).chunkUsed ≠ 0)

theorem blockNo_mul (blockNo : BitVec 32) : blockNo * 64 = blockToPage blockNo := by
  rw [blockToPage]
  bv_omega

/-- The state that is given for a block without markers says if its tags are used. -/
theorem ls1xQueryBlock_of_good {blockNo : BitVec 32} (h : (isBadblock hw dev blockNo).1 = 0) :
    let tags := readChunkTags (hw.during .final) (isBadblock hw dev blockNo).2
      (.configured nEccFixed nEccUnfixed) tempbuf t (blockToPage blockNo)
    let r := ls1xQueryBlock hw dev (.configured nEccFixed nEccUnfixed) tempbuf t blockNo
    r.state = (if tags.1.chunkUsed ≠ 0 then .needsScan else .empty) ∧ r.dev = tags.2 := by
  intro tags r
  have hne : ¬ (isBadblock hw dev blockNo).1 ≠ 0 := not_not.mpr h
  simp only [r, ls1xQueryBlock, if_neg hne, blockNo_mul]
  by_cases hu : tags.1.chunkUsed ≠ 0
  · rw [if_pos hu, if_pos hu]
    exact ⟨rfl, rfl⟩
  · rw [if_neg hu, if_neg hu]
    exact ⟨rfl, rfl⟩

/-- What `is_badblock` answers is 0 just when the markers were read and none is set. -/
theorem isBadblock_eq_zero_iff (blockNo : BitVec 32) : (isBadblock hw dev blockNo).1 = 0 ↔
    (blockToPage blockNo).toNat < 65536 ∧ ¬ hw.MarkerUnreadable ∧
      ¬ hw.MarkerSet (blockToPage blockNo).toNat := by
  obtain ⟨hans, -⟩ := isBadblock_spec hw dev blockNo
  rw [hans, badblockAnswer]
  split_ifs with hp hu hm
  · exact iff_of_false (by decide) fun h => absurd hp (Nat.not_le.mpr h.1)
  · exact iff_of_false (by decide) fun h => h.2.1 hu
  · exact iff_of_false (by decide) fun h => h.2.2 hm
  · exact iff_of_true rfl ⟨Nat.not_le.mp hp, hu, hm⟩

/-- A block that is not found good is `DEAD`, which promises nothing. -/
theorem queryTruthful_of_bad {blockNo : BitVec 32} (h : (isBadblock hw dev blockNo).1 ≠ 0) :
    QueryTruthful hw dev nEccFixed nEccUnfixed tempbuf t blockNo := by
  have hdead : (ls1xQueryBlock hw dev (.configured nEccFixed nEccUnfixed) tempbuf t
      blockNo).state = .dead := by
    simp only [ls1xQueryBlock, ne_eq, h, not_false_eq_true, if_true]
  refine ⟨fun h => ?_, fun h => ?_⟩ <;> rw [hdead] at h <;> cases h

/-- Where the tags could not be read, the state is that of older ones. -/
theorem not_queryTruthful_of_timedOut {blockNo : BitVec 32}
    (h : (isBadblock hw dev blockNo).1 = 0) (hpage : (blockToPage blockNo).toNat < 65536)
    (ht : TimedOut (hw.during .final) 40) :
    ¬ QueryTruthful hw dev nEccFixed nEccUnfixed tempbuf t blockNo := by
  obtain ⟨hstate, hdev⟩ := ls1xQueryBlock_of_good hw dev nEccFixed nEccUnfixed tempbuf t h
  obtain ⟨htimed, -⟩ := readChunkTags_configured hw (isBadblock hw dev blockNo).2 nEccFixed
    nEccUnfixed tempbuf t hpage
  obtain ⟨-, op, hcmds⟩ := htimed ht
  have hlast : ∀ page, (ls1xQueryBlock hw dev (.configured nEccFixed nEccUnfixed) tempbuf t
      blockNo).dev.commands.getLast? ≠ some (tagsCommand hw page) := by
    intro page h
    rw [hdev, hcmds, List.getLast?_concat] at h
    exact absurd (congrArg Command.done (Option.some.inj h)) Bool.false_ne_true
  rintro ⟨hempty, hscan⟩
  split_ifs at hstate with hused
  · exact absurd (hscan hstate).1 (hlast _)
  · exact absurd (hempty hstate).1 (hlast _)

/-- Where the tags were read, they are those of the block if it is a block of the chip. -/
theorem queryTruthful_of_done_iff {blockNo : BitVec 32} (h : (isBadblock hw dev blockNo).1 = 0)
    (hpage : (blockToPage blockNo).toNat < 65536) (ht : ¬ TimedOut (hw.during .final) 40) :
    QueryTruthful hw dev nEccFixed nEccUnfixed tempbuf t blockNo ↔ blockNo.toNat < 1024 := by
  obtain ⟨hstate, hdev⟩ := ls1xQueryBlock_of_good hw dev nEccFixed nEccUnfixed tempbuf t h
  obtain ⟨-, hdone⟩ := readChunkTags_configured hw (isBadblock hw dev blockNo).2 nEccFixed
    nEccUnfixed tempbuf t hpage
  obtain ⟨htags, hcmds⟩ := hdone ht
  rw [htags] at hstate
  have hlast : (ls1xQueryBlock hw dev (.configured nEccFixed nEccUnfixed) tempbuf t
      blockNo).dev.commands.getLast? = some (tagsCommand hw (blockToPage blockNo).toNat) := by
    rw [hdev, hcmds, List.getLast?_concat]
  constructor
  · rintro ⟨hempty, hscan⟩
    have hpages : tagsCommand hw (blockToPage blockNo).toNat =
        tagsCommand hw (blockNo.toNat * 64) := by
      split_ifs at hstate with hused
      · exact Option.some.inj (hlast.symm.trans (hscan hstate).1)
      · exact Option.some.inj (hlast.symm.trans (hempty hstate).1)
    have hblk : (blockToPage blockNo).toNat = blockNo.toNat * 64 := by
      injection hpages with hop
      injection hop
    omega
  · intro hlt
    rw [toNat_blockToPage hlt] at hlast hstate
    refine ⟨fun hempty => ⟨hlast, ?_⟩, fun hscan => ⟨hlast, ?_⟩⟩
    · by_contra hused
      rw [if_pos hused, hempty] at hstate
      cases hstate
    · by_contra hused
      rw [if_neg (not_not.mpr hused), hscan] at hstate
      cases hstate

theorem queryTruthful_iff (blockNo : BitVec 32) :
    QueryTruthful hw dev nEccFixed nEccUnfixed tempbuf t blockNo ↔
      65536 ≤ (blockToPage blockNo).toNat ∨ hw.MarkerUnreadable ∨
        hw.MarkerSet (blockToPage blockNo).toNat ∨
        (blockNo.toNat < 1024 ∧ ¬ TimedOut (hw.during .final) 40) := by
  have hgood := isBadblock_eq_zero_iff hw dev blockNo
  by_cases hzero : (isBadblock hw dev blockNo).1 = 0
  · obtain ⟨hpage, hu, hm⟩ := hgood.mp hzero
    rw [or_iff_right (Nat.not_le.mpr hpage), or_iff_right hu, or_iff_right hm]
    by_cases ht : TimedOut (hw.during .final) 40
    · have hnot := not_queryTruthful_of_timedOut hw dev nEccFixed nEccUnfixed tempbuf t hzero hpage
        ht
      exact iff_of_false hnot fun h => h.2 ht
    · rw [queryTruthful_of_done_iff hw dev nEccFixed nEccUnfixed tempbuf t hzero hpage ht,
        and_iff_left ht]
  · refine iff_of_true (queryTruthful_of_bad hw dev nEccFixed nEccUnfixed tempbuf t hzero) ?_
    rw [hgood, ← Nat.not_le] at hzero
    tauto

/-- What is reported of a block that the chip has is true exactly when the markers could be read
and, in an erase, none is set; in a query, when one could not be read or is set, or the tags were
read.  A query of a number that wraps around to a block of the chip is answered for that block. -/
theorem blocks_truthful_iff (blk : BitVec 32) :
    (EraseTruthful hw dev blk ↔ 1024 ≤ blk.toNat ∨
      (¬ hw.MarkerUnreadable ∧ ¬ hw.MarkerSet (blk.toNat * 64))) ∧
    (QueryTruthful hw dev nEccFixed nEccUnfixed tempbuf t blk ↔
      65536 ≤ (blockToPage blk).toNat ∨ hw.MarkerUnreadable ∨
        hw.MarkerSet (blockToPage blk).toNat ∨
        (blk.toNat < 1024 ∧ ¬ TimedOut (hw.during .final) 40)) :=
  ⟨eraseTruthful_iff hw dev blk, queryTruthful_iff hw dev nEccFixed nEccUnfixed tempbuf t blk⟩

end Query

/-- A chip whose pages hold one byte each, and whose controller is ready during some commands. -/
def sampleBlockHw (byte : BitVec 8) (ready : BlockCommand → Bool) : BlockHw where
  page := fun _ _ => byte
  polls := fun k _ => if ready k then cmdDone ||| cmdRdy0 else 0
  aborted := fun _ _ => 0

/-- Block 5 is bad, and erasing it reports success; a good block is empty for a query that could
not read its tags, and is erased without its first marker having been read. -/
theorem blocks_not_truthful :
    ¬ EraseTruthful (sampleBlockHw 0 fun _ => true) freshDev 5 ∧
      ¬ EraseTruthful (sampleBlockHw 0xFF fun k => k ≠ .firstMarker) freshDev 5 ∧
      ¬ QueryTruthful (sampleBlockHw 0xFF fun k => k ≠ .final) freshDev 0 0 (fun _ => 0) {} 5 := by
  have hready : ∀ b r k n, r k = true → ¬ TimedOut ((sampleBlockHw b r).during k) (n + 1) :=
    fun b r k n hk h => h 0 (Nat.succ_pos n) (by
      show Ready (if r k then _ else _)
      rw [if_pos hk]
      decide)
  have hdead : ∀ b r k n, r k = false → TimedOut ((sampleBlockHw b r).during k) n :=
    fun b r k n hk i _ h => by
      have h : Ready (if r k then _ else (0 : BitVec 32)) := h
      rw [if_neg (by rw [hk]; decide)] at h
      exact absurd h (by decide)
  refine ⟨fun h => ?_, fun h => ?_, fun h => ?_⟩
  · rcases (eraseTruthful_iff _ _ _).mp h with h | ⟨-, h⟩
    · exact absurd h (by decide)
    · exact h (Or.inl (by decide))
  · rcases (eraseTruthful_iff _ _ _).mp h with h | ⟨h, -⟩
    · exact absurd h (by decide)
    · exact h (Or.inl (hdead _ _ .firstMarker _ rfl))
  · rcases (queryTruthful_iff _ _ _ _ _ _ _).mp h with h | (h | h) | (h | h) | ⟨-, h⟩
    · exact absurd h (by decide)
    · exact hready _ _ .firstMarker 39 rfl h
    · exact hready _ _ .secondMarker 39 rfl h
    · exact h (by decide)
    · exact h (by decide)
    · exact h (hdead _ _ .final _ rfl)

end SortingLine.Nand
