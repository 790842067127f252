import SortingLine.Flash.Nand

/-!
# NAND addressing is exact

A request names an area of the page (`Area`) and a column in it.  `calcRwSize_of_area` says how the
transfer of it is set up, in the three ways that `calcRwSize` knows; `sendRwCommand_of_setUp` says
that each way gives the address of the byte that was asked for, with a column that does not reach
the bits of the page.

`addressing_exact` puts both together.
-/

namespace SortingLine.Nand

open Flash

/-- A part of a page: the first byte, and how many there are. -/
structure Area where
  start : ℕ
  size : ℕ

/-- The part of the page that `opFlags` select. -/
def area (opFlags : BitVec 32) : Option Area :=
  if opFlags = opMain then some ⟨0, 2048⟩
  else if opFlags = opSpare then some ⟨2048, 64⟩
  else if opFlags = opMain ||| opSpare then some ⟨0, 2112⟩
  else none

/-- The three kinds of `opFlags` that select a part of the page. -/
theorem area_eq_some {opFlags : BitVec 32} {a : Area} (ha : area opFlags = some a) :
    (opFlags = opMain ∧ a = ⟨0, 2048⟩) ∨ (opFlags = opSpare ∧ a = ⟨2048, 64⟩) ∨
      (opFlags = opMain ||| opSpare ∧ a = ⟨0, 2112⟩) := by
  unfold area at ha
  split_ifs at ha with hm hs hb
  · exact Or.inl ⟨hm, (Option.some.inj ha).symm⟩
  · exact Or.inr (Or.inl ⟨hs, (Option.some.inj ha).symm⟩)
  · exact Or.inr (Or.inr ⟨hb, (Option.some.inj ha).symm⟩)

theorem area_bound {opFlags : BitVec 32} {a : Area} (ha : area opFlags = some a) :
    a.start + a.size ≤ 2112 := by
  obtain ⟨-, rfl⟩ | ⟨-, rfl⟩ | ⟨-, rfl⟩ := area_eq_some ha <;> simp

/-! ### Set-up of a transfer -/

theorem toNat_clip (bufSize remainSize : BitVec 32) :
    (clip bufSize remainSize).toNat = min bufSize.toNat remainSize.toNat := by
  unfold clip
  split_ifs with h <;> bv_omega

/-- A transfer from column `c` of the page on is set up in one of three ways: of main bytes alone,
of both from a main byte on, or of spare bytes alone. -/
inductive SetUp (cmd : BitVec 32) (c : ℕ) (rw : RwSize) : Prop
  | main (cmd_eq : rw.cmd = cmd ||| cmdMain) (offset : rw.offset.toNat = c)
      (fits : c + rw.rwsize.toNat ≤ 2048)
  | both (cmd_eq : rw.cmd = cmd ||| (cmdMain ||| cmdSpare)) (offset : rw.offset.toNat = c)
      (fits : c + rw.rwsize.toNat ≤ 2112)
  | spare (cmd_eq : rw.cmd = cmd ||| cmdSpare) (offset : 2048 + rw.offset.toNat = c)
      (fits : c + rw.rwsize.toNat ≤ 2112)

/-- The set-up of a transfer that is refused. -/
def refused (cmd : BitVec 32) : RwSize := { cmd, offset := 0, rwsize := 0 }

theorem calcRwSize_main (bufSize colAddr cmd : BitVec 32) :
    calcRwSize bufSize colAddr opMain cmd =
      if bufSize = 0 ∨ bytesOfPage ≤ colAddr then refused cmd
      else ⟨cmd ||| cmdMain, colAddr, clip bufSize (bytesOfPage - colAddr)⟩ := by
  have hs : opMain ≠ opSpare := by decide
  have hb : opMain ≠ opMain ||| opSpare := by decide
  simp only [calcRwSize, hs, hb, true_and, false_and, or_false, if_true, refused]

theorem calcRwSize_spare (bufSize colAddr cmd : BitVec 32) :
    calcRwSize bufSize colAddr opSpare cmd =
      if bufSize = 0 ∨ oobbytesOfPage ≤ colAddr then refused cmd
      else ⟨cmd ||| cmdSpare, colAddr, clip bufSize (oobbytesOfPage - colAddr)⟩ := by
  have hm : opSpare ≠ opMain := by decide
  have hb : opSpare ≠ opMain ||| opSpare := by decide
  simp only [calcRwSize, hm, hb, true_and, false_and, false_or, or_false, if_true, if_false,
    refused]

theorem calcRwSize_both (bufSize colAddr cmd : BitVec 32) :
    calcRwSize bufSize colAddr (opMain ||| opSpare) cmd =
      if bufSize = 0 ∨ fullPageSize ≤ colAddr then refused cmd
      else if bufSize + colAddr < bytesOfPage then
        ⟨cmd ||| cmdMain, colAddr, clip bufSize (bytesOfPage - colAddr)⟩
      else if colAddr < bytesOfPage then
        ⟨cmd ||| (cmdMain ||| cmdSpare), colAddr, clip bufSize (fullPageSize - colAddr)⟩
      else
        ⟨cmd ||| cmdSpare, colAddr - bytesOfPage,
          clip bufSize (oobbytesOfPage - (colAddr - bytesOfPage))⟩ := by
  have hm : opMain ||| opSpare ≠ opMain := by decide
  have hs : opMain ||| opSpare ≠ opSpare := by decide
  simp only [calcRwSize, hm, hs, true_and, false_and, false_or, if_true, if_false, refused]

theorem calcRwSize_of_area_eq_none {bufSize colAddr opFlags cmd : BitVec 32}
    (h : area opFlags = none) : calcRwSize bufSize colAddr opFlags cmd = refused cmd := by
  unfold area at h
  split_ifs at h with hm hs hb
  simp only [calcRwSize, hm, hs, hb, false_and, or_false, if_false, ite_self, refused]

/-- Nothing is transferred from beyond the area. -/
theorem rwsize_of_beyond {bufSize colAddr opFlags cmd : BitVec 32} {a : Area}
    (ha : area opFlags = some a) (hc : a.size ≤ colAddr.toNat) :
    (calcRwSize bufSize colAddr opFlags cmd).rwsize = 0 := by
  obtain ⟨rfl, rfl⟩ | ⟨rfl, rfl⟩ | ⟨rfl, rfl⟩ := area_eq_some ha
  · rw [calcRwSize_main, if_pos (Or.inr (by simpa [bytesOfPage, BitVec.le_def] using hc))]
    rfl
  · rw [calcRwSize_spare, if_pos (Or.inr (by simpa [oobbytesOfPage, BitVec.le_def] using hc))]
    rfl
  · rw [calcRwSize_both, if_pos (Or.inr (by
      simpa [fullPageSize, bytesOfPage, oobbytesOfPage, BitVec.le_def] using hc))]
    rfl

/-- As many bytes are transferred as there are in the area and in the buffer, and the transfer is
set up in one of the three ways. -/
theorem calcRwSize_of_area (cmd : BitVec 32) {bufSize colAddr opFlags : BitVec 32} {a : Area}
    (ha : area opFlags = some a) (hc : colAddr.toNat < a.size) (hpos : 0 < bufSize.toNat)
    (hlt : bufSize.toNat < 2 ^ 31) :
    (calcRwSize bufSize colAddr opFlags cmd).rwsize.toNat =
        min bufSize.toNat (a.size - colAddr.toNat) ∧
      SetUp cmd (a.start + colAddr.toNat) (calcRwSize bufSize colAddr opFlags cmd) := by
  have h0 : bufSize ≠ 0 := by bv_omega
  obtain ⟨rfl, rfl⟩ | ⟨rfl, rfl⟩ | ⟨rfl, rfl⟩ := area_eq_some ha
  · have hbeyond : ¬ bytesOfPage ≤ colAddr := by
      simpa [bytesOfPage, BitVec.le_def] using hc
    have hsize : (clip bufSize (bytesOfPage - colAddr)).toNat =
        min bufSize.toNat (2048 - colAddr.toNat) := by
      rw [toNat_clip, bytesOfPage]; bv_omega
    rw [calcRwSize_main, if_neg (not_or.mpr ⟨h0, hbeyond⟩)]
    dsimp only at hc ⊢
    refine ⟨hsize, .main rfl ?_ ?_⟩
    · simp only [Nat.zero_add]
    · dsimp only; omega
  · have hbeyond : ¬ oobbytesOfPage ≤ colAddr := by
      simpa [oobbytesOfPage, BitVec.le_def] using hc
    have hsize : (clip bufSize (oobbytesOfPage - colAddr)).toNat =
        min bufSize.toNat (64 - colAddr.toNat) := by
      rw [toNat_clip, oobbytesOfPage]; bv_omega
    rw [calcRwSize_spare, if_neg (not_or.mpr ⟨h0, hbeyond⟩)]
    exact ⟨hsize, .spare rfl rfl (by dsimp only at hc ⊢; omega)⟩
  · have hbeyond : ¬ fullPageSize ≤ colAddr := by
      simpa [fullPageSize, bytesOfPage, oobbytesOfPage, BitVec.le_def] using hc
    rw [calcRwSize_both, if_neg (not_or.mpr ⟨h0, hbeyond⟩)]
    split_ifs with hmain hlow <;> dsimp only at hc ⊢
    · have hsum : bufSize.toNat + colAddr.toNat < 2048 := by
        rw [bytesOfPage] at hmain; bv_omega
      have hsize : (clip bufSize (bytesOfPage - colAddr)).toNat =
          min bufSize.toNat (2112 - colAddr.toNat) := by
        rw [toNat_clip, bytesOfPage]; bv_omega
      refine ⟨hsize, .main rfl ?_ ?_⟩
      · simp only [Nat.zero_add]
      · dsimp only; omega
    · have hsize : (clip bufSize (fullPageSize - colAddr)).toNat =
          min bufSize.toNat (2112 - colAddr.toNat) := by
        rw [toNat_clip, fullPageSize, bytesOfPage, oobbytesOfPage]; bv_omega
      refine ⟨hsize, .both rfl ?_ ?_⟩
      · simp only [Nat.zero_add]
      · dsimp only; omega
    · have hge : 2048 ≤ colAddr.toNat := by
        rw [bytesOfPage] at hlow; bv_omega
      have hsize : (clip bufSize (oobbytesOfPage - (colAddr - bytesOfPage))).toNat =
          min bufSize.toNat (2112 - colAddr.toNat) := by
        rw [toNat_clip, bytesOfPage, oobbytesOfPage]; bv_omega
      have hoffset : 2048 + (colAddr - bytesOfPage).toNat = 0 + colAddr.toNat := by
        rw [bytesOfPage]; bv_omega
      exact ⟨hsize, .spare rfl hoffset (by dsimp only; omega)⟩

/-! ### Address of a transfer -/

/-- An address splits into the page and the column when the column stays below the page bits. -/
theorem Regs.page_column (regs : Regs) {p c : ℕ} (h : regs.address = p * 2 ^ regs.shift + c)
    (hc : c < 2 ^ regs.shift) : regs.page = p ∧ regs.column = c := by
  constructor
  · rw [Regs.page, h, Nat.mul_comm, Nat.mul_add_div (Nat.two_pow_pos _), Nat.div_eq_of_lt hc,
      Nat.add_zero]
  · rw [Regs.column, h, Nat.mul_comm, Nat.mul_add_mod, Nat.mod_eq_of_lt hc]

/-- A page number has no bits for the upper address registers. -/
theorem ushiftRight_eq_zero {pageNum : BitVec 32} (hp : pageNum.toNat < 65536) (k : ℕ) :
    pageNum >>> (20 + k) = 0 := by
  apply BitVec.eq_of_toNat_eq
  rw [BitVec.toNat_ushiftRight, Nat.shiftRight_eq_div_pow, Nat.div_eq_of_lt]
  · rfl
  · calc pageNum.toNat < 2 ^ 20 := by omega
      _ ≤ 2 ^ (20 + k) := Nat.pow_le_pow_right (by decide) (by omega)

/-- The controller keeps the command. -/
theorem cmd_sendRwCommand (regs : Regs) (pageNum : BitVec 32) {cmd : BitVec 32} {c : ℕ}
    {rw : RwSize} (hcmd : cmd = cmdRead ∨ cmd = cmdWrite) (h : SetUp cmd c rw) :
    (sendRwCommand regs pageNum rw.offset rw.cmd).cmd = rw.cmd := by
  obtain ⟨he, -, -⟩ | ⟨he, -, -⟩ | ⟨he, -, -⟩ := h <;> obtain rfl | rfl := hcmd <;>
    simp only [sendRwCommand, he] <;> decide

/-- The command that a mode and a direction make, and what of it the controller keeps. -/
theorem sendRwCommand_of_setUp (regs : Regs) {pageNum cmd : BitVec 32} {c : ℕ} {rw : RwSize}
    (hp : pageNum.toNat < 65536) (hcmd : cmd = cmdRead ∨ cmd = cmdWrite) (h : SetUp cmd c rw)
    (hsize : 0 < rw.rwsize.toNat) :
    let regs' := sendRwCommand regs pageNum rw.offset rw.cmd
    regs'.cmd = rw.cmd ∧ regs'.address = pageNum.toNat * 2 ^ regs'.shift + c ∧
      c + rw.rwsize.toNat ≤ 2 ^ regs'.shift := by
  intro regs'
  have hkept : regs'.cmd = rw.cmd := cmd_sendRwCommand regs pageNum hcmd h
  refine ⟨hkept, ?_⟩
  have hh := ushiftRight_eq_zero hp
  cases h with
  | main he ho hf =>
    have hspare : cmdSpare &&& rw.cmd = 0 := by
      obtain rfl | rfl := hcmd <;> rw [he] <;> decide
    have hshift : regs'.shift = 11 := by
      rw [Regs.shift, hkept, if_neg (by simpa using hspare)]
    have haddr : regs'.address = pageNum.toNat * 2 ^ 11 + c := by
      simp only [Regs.address, regs', sendRwCommand, hspare, ne_eq, not_true_eq_false, if_false,
        mainAddrH, mainAddrL, hh 1]
      rw [← ho]
      bv_omega
    rw [hshift]
    exact ⟨haddr, hf⟩
  | both he ho hf =>
    have hspare : cmdSpare &&& rw.cmd ≠ 0 := by
      obtain rfl | rfl := hcmd <;> rw [he] <;> decide
    have hmain : cmdMain &&& rw.cmd ≠ 0 := by
      obtain rfl | rfl := hcmd <;> rw [he] <;> decide
    have hshift : regs'.shift = 12 := by rw [Regs.shift, hkept, if_pos hspare]
    have haddr : regs'.address = pageNum.toNat * 2 ^ 12 + c := by
      simp only [Regs.address, regs', sendRwCommand, if_pos hspare, if_pos hmain,
        mainSpareAddrH, mainSpareAddrL, hh 0]
      rw [← ho]
      bv_omega
    rw [hshift]
    exact ⟨haddr, by omega⟩
  | spare he ho hf =>
    have hspare : cmdSpare &&& rw.cmd ≠ 0 := by
      obtain rfl | rfl := hcmd <;> rw [he] <;> decide
    have hmain : ¬ cmdMain &&& rw.cmd ≠ 0 := by
      obtain rfl | rfl := hcmd <;> rw [he] <;> decide
    have hshift : regs'.shift = 12 := by rw [Regs.shift, hkept, if_pos hspare]
    have haddr : regs'.address = pageNum.toNat * 2 ^ 12 + c := by
      simp only [Regs.address, regs', sendRwCommand, if_pos hspare, if_neg hmain,
        mainSpareAddrH, mainSpareAddrL, hh 0]
      rw [← ho, bytesOfPage]
      bv_omega
    rw [hshift]
    exact ⟨haddr, by omega⟩

theorem rwsize_pos (cmd : BitVec 32) {bufSize colAddr opFlags : BitVec 32} {a : Area}
    (ha : area opFlags = some a) (hc : colAddr.toNat < a.size) (hpos : 0 < bufSize.toNat)
    (hlt : bufSize.toNat < 2 ^ 31) : 0 < (calcRwSize bufSize colAddr opFlags cmd).rwsize.toNat := by
  have hsize := (calcRwSize_of_area cmd ha hc hpos hlt).1
  omega

theorem rwsize_eq_zero_iff {bufSize colAddr opFlags cmd : BitVec 32} (hpos : 0 < bufSize.toNat)
    (hlt : bufSize.toNat < 2 ^ 31) :
    (calcRwSize bufSize colAddr opFlags cmd).rwsize = 0 ↔
      ∀ a, area opFlags = some a → a.size ≤ colAddr.toNat := by
  constructor
  · intro h a ha
    by_contra hc
    have := rwsize_pos cmd ha (Nat.not_le.mp hc) hpos hlt
    rw [h] at this
    exact absurd this (by decide)
  · intro h
    cases ha : area opFlags with
    | none => rw [calcRwSize_of_area_eq_none ha]; rfl
    | some a => exact rwsize_of_beyond ha (h a ha)

/-- For every page of the chip, every column and every size: nothing is selected exactly when the
flags name no area or the column is beyond it.  Otherwise the bytes asked for that are in the area
are transferred, and both address words together are the page above the column of the first one. -/
theorem addressing_exact (regs : Regs) (pageNum colAddr bufSize opFlags cmd : BitVec 32)
    (hpage : pageNum.toNat < 65536) (hpos : 0 < bufSize.toNat) (hlt : bufSize.toNat < 2 ^ 31)
    (hcmd : cmd = cmdRead ∨ cmd = cmdWrite) :
    let rw := calcRwSize bufSize colAddr opFlags cmd
    let regs' := sendRwCommand regs pageNum rw.offset rw.cmd
    (rw.rwsize = 0 ↔ ∀ a, area opFlags = some a → a.size ≤ colAddr.toNat) ∧
      ∀ a, area opFlags = some a → colAddr.toNat < a.size →
        let c := a.start + colAddr.toNat
        rw.rwsize.toNat = min bufSize.toNat (a.start + a.size - c) ∧
          c + rw.rwsize.toNat ≤ a.start + a.size ∧ c + rw.rwsize.toNat ≤ 2112 ∧
          (cmdSpare &&& rw.cmd = 0 →
            regs'.address = pageNum.toNat * 2 ^ 11 + c ∧ c + rw.rwsize.toNat ≤ 2 ^ 11) ∧
          (cmdSpare &&& rw.cmd ≠ 0 →
            regs'.address = pageNum.toNat * 2 ^ 12 + c ∧ c + rw.rwsize.toNat ≤ 2 ^ 12) ∧
          regs'.page = pageNum.toNat ∧ regs'.column = c := by
  intro rw regs'
  refine ⟨rwsize_eq_zero_iff hpos hlt, fun a ha hc => ?_⟩
  obtain ⟨hsize, hset⟩ := calcRwSize_of_area cmd ha hc hpos hlt
  have hn : 0 < rw.rwsize.toNat := rwsize_pos cmd ha hc hpos hlt
  obtain ⟨hkept, haddr, hfits⟩ := sendRwCommand_of_setUp regs hpage hcmd hset hn
  have hbound := area_bound ha
  have hshift : regs'.shift = if cmdSpare &&& rw.cmd ≠ 0 then 12 else 11 := by
    rw [Regs.shift, hkept]
  have hsize' : rw.rwsize.toNat = min bufSize.toNat (a.size - colAddr.toNat) := hsize
  refine ⟨by omega, by omega, by omega, fun h => ?_, fun h => ?_, ?_⟩
  · rw [if_neg (by simpa using h)] at hshift
    exact hshift ▸ ⟨haddr, hfits⟩
  · rw [if_pos h] at hshift
    exact hshift ▸ ⟨haddr, hfits⟩
  · exact regs'.page_column haddr (Nat.lt_of_lt_of_le (Nat.lt_add_of_pos_right hn) hfits)

/-- A read of 80 bytes from the last main bytes of the last page into its spare bytes. -/
theorem addressing_exact_acrossMain :
    let rw := calcRwSize 80 2040 (opMain ||| opSpare) cmdRead
    let regs' := sendRwCommand ⟨0, 0, 0, 0⟩ 65535 rw.offset rw.cmd
    rw.rwsize.toNat = 72 ∧ regs'.page = 65535 ∧ regs'.column = 2040 := by
  have h := (addressing_exact ⟨0, 0, 0, 0⟩ 65535 2040 80 (opMain ||| opSpare) cmdRead (by decide)
    (by decide) (by decide) (Or.inl rfl)).2 ⟨0, 2112⟩ rfl (by decide)
  exact ⟨h.1, h.2.2.2.2.2⟩

end SortingLine.Nand
