import SortingLine.Flash.Equiv.Nand

/-!
# What a transfer reports

`readPage_of_area` and `writePage_of_area` say what a transfer that is not refused does: which
command it starts, what it returns, and what it leaves in the buffer.  The value of the wait is
negated twice, so a timeout is returned as `etimedout`, which is positive; and a write reports the
size that it was given, also where the area ends before.

`reports_transferred_iff`: a read reports what it has transferred exactly when it is refused or
does not time out, a write when it also stays within the area.
-/

namespace SortingLine.Nand

open Flash

/-! ### Waiting -/

/-- The bits that `waitdone` waits for. -/
def Ready (cmd : BitVec 32) : Prop := cmd &&& cmdDone ≠ 0 ∧ cmd &&& cmdRdy0 ≠ 0

instance (cmd : BitVec 32) : Decidable (Ready cmd) :=
  inferInstanceAs (Decidable (cmd &&& cmdDone ≠ 0 ∧ cmd &&& cmdRdy0 ≠ 0))

/-- The command is not complete at any of the polls. -/
def TimedOut (hw : Hw) (polls : ℕ) : Prop := ∀ i < polls, ¬ Ready (hw.cmd i)

instance (hw : Hw) (polls : ℕ) : Decidable (TimedOut hw polls) :=
  inferInstanceAs (Decidable (∀ i < polls, ¬ Ready (hw.cmd i)))

theorem waitLoop_eq (cmd : ℕ → BitVec 32) (i n : ℕ) :
    waitLoop cmd i n = if ∀ j < n, ¬ Ready (cmd (i + j)) then -etimedout else 0 := by
  induction n generalizing i with
  | zero => rw [waitLoop, if_pos fun j hj => absurd hj (Nat.not_lt_zero j)]
  | succ n ih =>
    rw [waitLoop]
    by_cases h : Ready (cmd i)
    · rw [if_pos (show cmd i &&& cmdDone ≠ 0 ∧ cmd i &&& cmdRdy0 ≠ 0 from h),
        if_neg fun hn => hn 0 (Nat.succ_pos n) h]
    · rw [if_neg (show ¬ (cmd i &&& cmdDone ≠ 0 ∧ cmd i &&& cmdRdy0 ≠ 0) from h), ih]
      refine if_congr ⟨fun hall j hj => ?_, fun hall j hj => ?_⟩ rfl rfl
      · cases j with
        | zero => exact h
        | succ j =>
          rw [show i + (j + 1) = i + 1 + j by omega]
          exact hall j (Nat.lt_of_succ_lt_succ hj)
      · rw [show i + 1 + j = i + (j + 1) by omega]
        exact hall (j + 1) (Nat.succ_lt_succ hj)

theorem waitdone_eq (hw : Hw) (timeoutUs : ℕ) :
    waitdone hw.cmd timeoutUs = if TimedOut hw ((timeoutUs + 9) / 10) then -etimedout else 0 := by
  rw [waitdone, waitLoop_eq]
  refine if_congr (forall₂_congr fun i _ => ?_) rfl rfl
  rw [Nat.zero_add]

/-! ### A command that is started -/

@[simp] theorem shift_cmdStarted (regs : Regs) : (cmdStarted regs).shift = regs.shift := by
  have h : cmdSpare &&& (regs.cmd ||| cmdStart) = cmdSpare &&& regs.cmd := by
    rw [BitVec.and_or_distrib_left, show cmdSpare &&& cmdStart = 0#32 by decide, BitVec.or_zero]
  rw [Regs.shift, Regs.shift, cmdStarted, h]

@[simp] theorem address_cmdStarted (regs : Regs) : (cmdStarted regs).address = regs.address := rfl

/-- The registers that a transfer is started with. -/
def transferRegs (regs : Regs) (pageNum colAddr bufSize opFlags cmd : BitVec 32) : Regs :=
  let rw := calcRwSize bufSize colAddr opFlags cmd
  cmdStarted (sendRwCommand { regs with opnum := rw.rwsize } pageNum rw.offset rw.cmd)

section Transfer

variable {pageNum colAddr bufSize opFlags cmd : BitVec 32} {a : Area}

theorem transferRegs_of_area (regs : Regs) (hpage : pageNum.toNat < 65536)
    (ha : area opFlags = some a) (hc : colAddr.toNat < a.size) (hpos : 0 < bufSize.toNat)
    (hlt : bufSize.toNat < 2 ^ 31) (hcmd : cmd = cmdRead ∨ cmd = cmdWrite) :
    let regs' := transferRegs regs pageNum colAddr bufSize opFlags cmd
    regs'.page = pageNum.toNat ∧ regs'.column = a.start + colAddr.toNat ∧
      regs'.opnum = (calcRwSize bufSize colAddr opFlags cmd).rwsize := by
  intro regs'
  obtain ⟨-, hset⟩ := calcRwSize_of_area cmd ha hc hpos hlt
  have hn := rwsize_pos cmd ha hc hpos hlt
  obtain ⟨-, haddr, hfits⟩ := sendRwCommand_of_setUp
    { regs with opnum := (calcRwSize bufSize colAddr opFlags cmd).rwsize }
    hpage hcmd hset hn
  obtain ⟨hp, hcol⟩ := regs'.page_column
    (by simpa only [regs', transferRegs, address_cmdStarted, shift_cmdStarted] using haddr)
    (by simpa only [regs', transferRegs, shift_cmdStarted] using
      Nat.lt_of_lt_of_le (Nat.lt_add_of_pos_right hn) hfits)
  exact ⟨hp, hcol, rfl⟩

theorem readPage_of_timedOut {hw : Hw} (dev : Dev) {dataBuf : Target} (hbuf : dataBuf ≠ .null)
    (hpage : pageNum.toNat < 65536)
    (hn : (calcRwSize bufSize colAddr opFlags cmdRead).rwsize ≠ 0) (h : TimedOut hw 40) :
    let regs := transferRegs dev.regs pageNum colAddr bufSize opFlags cmdRead
    let src := fun i => hw.page regs.page (regs.column + i)
    let r := readPage hw dev pageNum colAddr dataBuf bufSize opFlags
    r.rt = etimedout ∧ r.dev.commands =
      dev.commands ++ [⟨.read regs.page regs.column (bytesAt src regs.opnum.toNat), false⟩] := by
  have hp : ¬ pagesOfChip ≤ pageNum := by simpa [pagesOfChip, BitVec.le_def] using hpage
  have hwait : waitdone hw.cmd 400 = -etimedout := by rw [waitdone_eq, if_pos h]
  have ht : ¬ -(-etimedout) = 0 := by decide
  intro regs src r
  cases dataBuf with
  | null => exact absurd rfl hbuf
  | dmaBuf | user =>
    simp only [r, readPage, if_neg hp, if_neg hn, hwait, if_neg ht, Bool.false_eq_true, if_false]
    exact ⟨Int.neg_neg _, rfl⟩

theorem readPage_of_done {hw : Hw} (dev : Dev) {dataBuf : Target} (hbuf : dataBuf ≠ .null)
    (hpage : pageNum.toNat < 65536)
    (hn : (calcRwSize bufSize colAddr opFlags cmdRead).rwsize ≠ 0) (h : ¬ TimedOut hw 40) :
    let regs := transferRegs dev.regs pageNum colAddr bufSize opFlags cmdRead
    let src := fun i => hw.page regs.page (regs.column + i)
    let r := readPage hw dev pageNum colAddr dataBuf bufSize opFlags
    r.rt = 0 ∧ r.dev.dmaBuf = copyAt dev.dmaBuf 0 regs.opnum.toNat src ∧ r.dev.commands =
      dev.commands ++ [⟨.read regs.page regs.column (bytesAt src regs.opnum.toNat), true⟩] ∧
      ∀ buf, dataBuf = .user buf →
        r.rdSize = regs.opnum ∧ r.target = .user (copyAt buf 0 regs.opnum.toNat r.dev.dmaBuf) := by
  have hp : ¬ pagesOfChip ≤ pageNum := by simpa [pagesOfChip, BitVec.le_def] using hpage
  have hwait : waitdone hw.cmd 400 = 0 := by rw [waitdone_eq, if_neg h]
  intro regs src r
  cases dataBuf with
  | null => exact absurd rfl hbuf
  | dmaBuf =>
    simp only [r, readPage, if_neg hp, if_neg hn, hwait, Int.neg_zero, if_true,
      Bool.false_eq_true, if_false]
    exact ⟨trivial, rfl, rfl, fun buf h => by cases h⟩
  | user buf =>
    simp only [r, readPage, if_neg hp, if_neg hn, hwait, Int.neg_zero, if_true,
      Bool.false_eq_true, if_false]
    refine ⟨trivial, rfl, rfl, fun buf' h => ?_⟩
    cases h
    exact ⟨rfl, rfl⟩

theorem copyAt_copyAt (buf buf' src : Buf) (n : ℕ) :
    copyAt buf 0 n (copyAt buf' 0 n src) = copyAt buf 0 n src := by
  funext i
  unfold copyAt
  split_ifs with h h'
  · rfl
  · omega
  · rfl

theorem writePage_of_transfer (hw : Hw) (dev : Dev) (buf : Buf) (hpage : pageNum.toNat < 65536)
    (hn : (calcRwSize bufSize colAddr opFlags cmdWrite).rwsize ≠ 0) :
    let regs := transferRegs dev.regs pageNum colAddr bufSize opFlags cmdWrite
    let r := writePage hw dev pageNum colAddr (some buf) bufSize opFlags
    r.rt = (if TimedOut hw 100 then etimedout else 0) ∧ r.wrSize = bufSize ∧
      r.dev.commands = dev.commands ++ [⟨.write regs.page regs.column
        (bytesAt buf regs.opnum.toNat), decide (¬ TimedOut hw 100)⟩] := by
  have hp : ¬ pagesOfChip ≤ pageNum := by simpa [pagesOfChip, BitVec.le_def] using hpage
  have hbytes : ∀ n, bytesAt (copyAt dev.dmaBuf 0 n buf) n = bytesAt buf n := by
    intro n
    refine List.map_congr_left fun i hi => ?_
    rw [copyAt, if_pos (by have := List.mem_range.mp hi; omega), Nat.sub_zero]
  intro regs r
  have hrt : -waitdone hw.cmd 1000 = if TimedOut hw 100 then etimedout else 0 := by
    rw [waitdone_eq]
    split_ifs <;> rfl
  have hdone : decide ((if TimedOut hw 100 then etimedout else 0) = 0) =
      decide (¬ TimedOut hw 100) := by
    split_ifs with h <;> simp [h, etimedout]
  simp only [r, writePage, if_neg hp, if_neg hn, hrt]
  refine ⟨trivial, trivial, ?_⟩
  rw [← hdone, ← hbytes]
  rfl

end Transfer

/-! ### The driver entries -/

/-- The arguments that a transfer is refused for. -/
def Rejected (buf : Option Buf) (size : BitVec 32) (param : Option NandParam) : Prop :=
  buf = none ∨ size &&& 0x03 ≠ 0 ∨ size = 0 ∨
    ∀ p, param = some p → 65536 ≤ p.pageNum.toNat ∨
      ∀ a, area p.opFlags = some a → a.size ≤ p.colAddr.toNat

/-- A transfer that is not refused names a page, an area and a column within it. -/
theorem exists_of_not_rejected {buf : Option Buf} {size : BitVec 32} {param : Option NandParam}
    (h : ¬ Rejected buf size param) :
    ∃ b p a, buf = some b ∧ param = some p ∧ p.pageNum.toNat < 65536 ∧ area p.opFlags = some a ∧
      p.colAddr.toNat < a.size ∧ size &&& 0x03 = 0 ∧ 0 < size.toNat := by
  simp only [Rejected, not_or, not_forall, Nat.not_le] at h
  obtain ⟨hb, h4, h0, p, rfl, hpage, a, ha, hc⟩ := h
  obtain ⟨b, rfl⟩ := Option.ne_none_iff_exists'.mp hb
  refine ⟨b, p, a, rfl, rfl, hpage, ha, hc, not_not.mp h4, ?_⟩
  exact Nat.pos_of_ne_zero fun hz => h0 (BitVec.eq_of_toNat_eq hz)

theorem rwsize_of_rejected {p : NandParam} {size cmd : BitVec 32}
    (h : size = 0 ∨ ∀ a, area p.opFlags = some a → a.size ≤ p.colAddr.toNat) :
    (calcRwSize size p.colAddr p.opFlags cmd).rwsize = 0 := by
  rcases h with rfl | h
  · rw [calcRwSize, if_pos (Or.inl rfl)]
  · cases ha : area p.opFlags with
    | none => rw [calcRwSize_of_area_eq_none ha]; rfl
    | some a => exact rwsize_of_beyond ha (h a ha)

theorem readPage_rt_neg (hw : Hw) (dev : Dev) (b : Buf) {p : NandParam} {size : BitVec 32}
    (h : 65536 ≤ p.pageNum.toNat ∨ (calcRwSize size p.colAddr p.opFlags cmdRead).rwsize = 0) :
    (readPage hw dev p.pageNum p.colAddr (.user b) size p.opFlags).rt < 0 := by
  by_cases hp : pagesOfChip ≤ p.pageNum
  · simp only [readPage, if_pos hp]
    decide
  · have hp' : ¬ 65536 ≤ p.pageNum.toNat := by simpa [pagesOfChip, BitVec.le_def] using hp
    simp only [readPage, if_neg hp, if_pos (h.resolve_left hp'), Bool.false_eq_true, if_false]
    decide

theorem writePage_rt_neg (hw : Hw) (dev : Dev) (b : Buf) {p : NandParam} {size : BitVec 32}
    (h : 65536 ≤ p.pageNum.toNat ∨ (calcRwSize size p.colAddr p.opFlags cmdWrite).rwsize = 0) :
    (writePage hw dev p.pageNum p.colAddr (some b) size p.opFlags).rt < 0 := by
  by_cases hp : pagesOfChip ≤ p.pageNum
  · simp only [writePage, if_pos hp]
    decide
  · have hp' : ¬ 65536 ≤ p.pageNum.toNat := by simpa [pagesOfChip, BitVec.le_def] using hp
    simp only [writePage, if_neg hp, if_pos (h.resolve_left hp')]
    decide

/-- What is refused by `readPage` and `writePage`, of what the entries do not refuse. -/
theorem Rejected.page_or_rwsize {b : Buf} {size : BitVec 32} {p : NandParam}
    (h : Rejected (some b) size (some p)) (h4 : size &&& 0x03 = 0) (cmd : BitVec 32) :
    65536 ≤ p.pageNum.toNat ∨ (calcRwSize size p.colAddr p.opFlags cmd).rwsize = 0 := by
  rcases h with h | h | h | h
  · cases h
  · exact absurd h4 h
  · exact Or.inr (rwsize_of_rejected (Or.inl h))
  · exact (h p rfl).imp_right fun h => rwsize_of_rejected (Or.inr h)

theorem nandRead_of_rejected (hw : Hw) (dev : Dev) {buf : Option Buf} {size : BitVec 32}
    {param : Option NandParam} (h : Rejected buf size param) :
    (nandRead hw dev buf size param).1 < 0 := by
  cases buf with
  | none => exact (by decide : (-1 : Int) < 0)
  | some b =>
    cases param with
    | none => exact (by decide : -einval < 0)
    | some p =>
      by_cases h4 : size &&& 0x03 = 0
      · have hrt := readPage_rt_neg hw dev b (h.page_or_rwsize h4 cmdRead)
        simp only [nandRead, if_neg (not_not.mpr h4), if_neg (Int.ne_of_lt hrt)]
        exact hrt
      · simp only [nandRead, if_pos h4]
        decide

theorem nandWrite_of_rejected (hw : Hw) (dev : Dev) {buf : Option Buf} {size : BitVec 32}
    {param : Option NandParam} (h : Rejected buf size param) :
    (nandWrite hw dev buf size param).1 < 0 := by
  cases buf with
  | none => exact (by decide : (-1 : Int) < 0)
  | some b =>
    cases param with
    | none => exact (by decide : -einval < 0)
    | some p =>
      by_cases h4 : size &&& 0x03 = 0
      · have hrt := writePage_rt_neg hw dev b (h.page_or_rwsize h4 cmdWrite)
        simp only [nandWrite, if_neg (not_not.mpr h4), if_neg (Int.ne_of_lt hrt)]
        exact hrt
      · simp only [nandWrite, if_pos h4]
        decide

/-! ### What is promised of the value returned -/

/-- The bytes of a page from a column on. -/
def Hw.bytesOf (hw : Hw) (page column n : ℕ) : List (BitVec 8) :=
  bytesAt (fun i => hw.page page (column + i)) n

/-- A read that returns `n ≥ 0` was complete, `n` bytes of the page from the position asked for were
transferred, and these are the first `n` of the buffer, the rest of which is as before. -/
def ReadReports (hw : Hw) (dev : Dev) (buf : Option Buf) (size : BitVec 32)
    (param : Option NandParam) : Prop :=
  let r := nandRead hw dev buf size param
  (Rejected buf size param → r.1 < 0) ∧ (TimedOut hw 40 → r.1 < 0) ∧
    ∀ n : ℕ, r.1 = n → ∃ b b' p a, buf = some b ∧ r.2.1 = some b' ∧ param = some p ∧
      area p.opFlags = some a ∧
      let column := a.start + p.colAddr.toNat
      let bytes := hw.bytesOf p.pageNum.toNat column n
      column + n ≤ a.start + a.size ∧
        r.2.2.commands = dev.commands ++ [⟨.read p.pageNum.toNat column bytes, true⟩] ∧
        bytesAt b' n = bytes ∧ ∀ i, n ≤ i → b' i = b i

/-- A write that returns `n ≥ 0` was complete, and the first `n` bytes of the buffer were
transferred to the page from the position asked for on. -/
def WriteReports (hw : Hw) (dev : Dev) (buf : Option Buf) (size : BitVec 32)
    (param : Option NandParam) : Prop :=
  let r := nandWrite hw dev buf size param
  (Rejected buf size param → r.1 < 0) ∧ (TimedOut hw 100 → r.1 < 0) ∧
    ∀ n : ℕ, r.1 = n → ∃ b p a, buf = some b ∧ param = some p ∧ area p.opFlags = some a ∧
      let column := a.start + p.colAddr.toNat
      column + n ≤ a.start + a.size ∧
        r.2.commands =
          dev.commands ++ [⟨.write p.pageNum.toNat column (bytesAt b n), true⟩]

section Entries

variable (hw : Hw) (dev : Dev) (b : Buf) {size : BitVec 32} {p : NandParam} {a : Area}

/-- The value that `nandRead` returns for a transfer, and what it does. -/
theorem nandRead_of_area (hpage : p.pageNum.toNat < 65536) (ha : area p.opFlags = some a)
    (hc : p.colAddr.toNat < a.size) (h4 : size &&& 0x03 = 0) (hpos : 0 < size.toNat)
    (hlt : size.toNat < 2 ^ 31) :
    let column := a.start + p.colAddr.toNat
    let n := min size.toNat (a.size - p.colAddr.toNat)
    let bytes := hw.bytesOf p.pageNum.toNat column n
    let r := nandRead hw dev (some b) size (some p)
    (TimedOut hw 40 → r.1 = etimedout ∧
        r.2.2.commands = dev.commands ++ [⟨.read p.pageNum.toNat column bytes, false⟩]) ∧
      (¬ TimedOut hw 40 → r.1 = n ∧
        r.2.1 = some (copyAt b 0 n fun i => hw.page p.pageNum.toNat (column + i)) ∧
        r.2.2.commands = dev.commands ++ [⟨.read p.pageNum.toNat column bytes, true⟩]) := by
  intro column n bytes r
  have hn : (calcRwSize size p.colAddr p.opFlags cmdRead).rwsize ≠ 0 :=
    fun h => absurd (rwsize_pos cmdRead ha hc hpos hlt) (by rw [h]; decide)
  obtain ⟨hpg, hcol, hop⟩ :=
    transferRegs_of_area dev.regs hpage ha hc hpos hlt (Or.inl rfl : cmdRead = cmdRead ∨ _)
  have hsize := (calcRwSize_of_area cmdRead ha hc hpos hlt).1
  constructor
  · intro h
    obtain ⟨hrt, hcmds⟩ := readPage_of_timedOut dev (fun h => Target.noConfusion h : .user b ≠ _)
      hpage hn h
    have hne : ¬ etimedout = 0 := by decide
    rw [hpg, hcol, hop, hsize] at hcmds
    simp only [r, nandRead, if_neg (not_not.mpr h4), hrt, if_neg hne]
    exact ⟨trivial, hcmds⟩
  · intro h
    obtain ⟨hrt, hdma, hcmds, huser⟩ := readPage_of_done dev
      (fun h => Target.noConfusion h : .user b ≠ _) hpage hn h
    obtain ⟨hrd, htarget⟩ := huser b rfl
    rw [hdma, copyAt_copyAt] at htarget
    rw [hpg, hcol, hop, hsize] at hcmds htarget
    have hint : (calcRwSize size p.colAddr p.opFlags cmdRead).rwsize.toInt = n := by
      rw [BitVec.toInt_eq_toNat_of_lt (by omega), hsize]
    simp only [r, nandRead, if_neg (not_not.mpr h4), hrt, if_true, htarget, hrd, hop]
    exact ⟨hint, rfl, hcmds⟩

/-- The value that `nandWrite` returns for a transfer, and what it does. -/
theorem nandWrite_of_area (hpage : p.pageNum.toNat < 65536) (ha : area p.opFlags = some a)
    (hc : p.colAddr.toNat < a.size) (h4 : size &&& 0x03 = 0) (hpos : 0 < size.toNat)
    (hlt : size.toNat < 2 ^ 31) :
    let column := a.start + p.colAddr.toNat
    let n := min size.toNat (a.size - p.colAddr.toNat)
    let r := nandWrite hw dev (some b) size (some p)
    r.1 = (if TimedOut hw 100 then etimedout else (size.toNat : Int)) ∧
      r.2.commands = dev.commands ++
        [⟨.write p.pageNum.toNat column (bytesAt b n), decide (¬ TimedOut hw 100)⟩] := by
  intro column n r
  have hn : (calcRwSize size p.colAddr p.opFlags cmdWrite).rwsize ≠ 0 :=
    fun h => absurd (rwsize_pos cmdWrite ha hc hpos hlt) (by rw [h]; decide)
  obtain ⟨hpg, hcol, hop⟩ :=
    transferRegs_of_area dev.regs hpage ha hc hpos hlt (Or.inr rfl : cmdWrite = cmdRead ∨ _)
  have hsize := (calcRwSize_of_area cmdWrite ha hc hpos hlt).1
  obtain ⟨hrt, hwr, hcmds⟩ := writePage_of_transfer hw dev b hpage hn
  rw [hpg, hcol, hop, hsize] at hcmds
  by_cases ht : TimedOut hw 100
  · have hne : ¬ etimedout = 0 := by decide
    simp only [r, nandWrite, if_neg (not_not.mpr h4), hrt, if_pos ht, if_neg hne]
    exact ⟨trivial, hcmds⟩
  · simp only [r, nandWrite, if_neg (not_not.mpr h4), hrt, if_neg ht, if_true, hwr]
    exact ⟨BitVec.toInt_eq_toNat_of_lt (by omega), hcmds⟩

end Entries

theorem bytesAt_copyAt_zero (buf src : Buf) (n : ℕ) :
    bytesAt (copyAt buf 0 n src) n = bytesAt src n := by
  refine List.map_congr_left fun i hi => ?_
  have hi := List.mem_range.mp hi
  rw [copyAt, if_pos (by omega), Nat.sub_zero]

theorem readReports_iff (hw : Hw) (dev : Dev) (buf : Option Buf) {size : BitVec 32}
    (param : Option NandParam) (hlt : size.toNat < 2 ^ 31) :
    ReadReports hw dev buf size param ↔ Rejected buf size param ∨ ¬ TimedOut hw 40 := by
  by_cases hrej : Rejected buf size param
  · have hneg := nandRead_of_rejected hw dev hrej
    refine ⟨fun _ => Or.inl hrej, fun _ => ⟨fun _ => hneg, fun _ => hneg, fun n hn => ?_⟩⟩
    omega
  · obtain ⟨b, p, a, rfl, rfl, hpage, ha, hc, h4, hpos⟩ := exists_of_not_rejected hrej
    obtain ⟨htimed, hdone⟩ := nandRead_of_area hw dev b hpage ha hc h4
      hpos hlt
    constructor
    · rintro ⟨-, hneg, -⟩
      refine Or.inr fun ht => ?_
      have hpos := hneg ht
      rw [(htimed ht).1] at hpos
      exact absurd hpos (by decide)
    · intro h
      have ht := h.resolve_left hrej
      obtain ⟨hrt, hbuf, hcmds⟩ := hdone ht
      refine ⟨fun h => absurd h hrej, fun h => absurd h ht, fun n hn => ?_⟩
      obtain rfl : min size.toNat (a.size - p.colAddr.toNat) = n := by omega
      refine ⟨b, _, p, a, rfl, hbuf, rfl, ha, by omega, hcmds, bytesAt_copyAt_zero _ _ _, ?_⟩
      intro i hi
      rw [copyAt, if_neg (by omega)]

theorem writeReports_iff (hw : Hw) (dev : Dev) (buf : Option Buf) {size : BitVec 32}
    (param : Option NandParam) (hlt : size.toNat < 2 ^ 31) :
    WriteReports hw dev buf size param ↔ Rejected buf size param ∨
      (¬ TimedOut hw 100 ∧ ∀ p a, param = some p → area p.opFlags = some a →
        p.colAddr.toNat + size.toNat ≤ a.size) := by
  by_cases hrej : Rejected buf size param
  · have hneg := nandWrite_of_rejected hw dev hrej
    refine ⟨fun _ => Or.inl hrej, fun _ => ⟨fun _ => hneg, fun _ => hneg, fun n hn => ?_⟩⟩
    omega
  · obtain ⟨b, p, a, rfl, rfl, hpage, ha, hc, h4, hpos⟩ := exists_of_not_rejected hrej
    obtain ⟨hrt, hcmds⟩ := nandWrite_of_area hw dev b hpage ha hc h4
      hpos hlt
    constructor
    · rintro ⟨-, hneg, hrep⟩
      have ht : ¬ TimedOut hw 100 := by
        intro ht
        have hpos := hneg ht
        rw [hrt, if_pos ht] at hpos
        exact absurd hpos (by decide)
      refine Or.inr ⟨ht, fun p' a' hp' ha' => ?_⟩
      obtain rfl := Option.some.inj hp'
      obtain rfl : a = a' := Option.some.inj (ha.symm.trans ha')
      rw [if_neg ht] at hrt
      obtain ⟨-, p', a', -, hp', ha', hfits, -⟩ := hrep size.toNat hrt
      obtain rfl := Option.some.inj hp'
      obtain rfl : a = a' := Option.some.inj (ha.symm.trans ha')
      omega
    · intro h
      obtain ⟨ht, hfits⟩ := h.resolve_left hrej
      have hfits := hfits p a rfl ha
      rw [if_neg ht] at hrt
      refine ⟨fun h => absurd h hrej, fun h => absurd h ht, fun n hn => ?_⟩
      obtain rfl : size.toNat = n := by omega
      rw [decide_eq_true ht, show min size.toNat (a.size - p.colAddr.toNat) = size.toNat by omega]
        at hcmds
      exact ⟨b, p, a, rfl, rfl, ha, by omega, hcmds⟩

/-- A read reports what it has transferred exactly when it is refused or does not time out; a write
exactly when it is refused, or does not time out and ends within the area. -/
theorem reports_transferred_iff (hw : Hw) (dev : Dev) (buf : Option Buf) (size : BitVec 32)
    (param : Option NandParam) (hlt : size.toNat < 2 ^ 31) :
    (ReadReports hw dev buf size param ↔ Rejected buf size param ∨ ¬ TimedOut hw 40) ∧
      (WriteReports hw dev buf size param ↔ Rejected buf size param ∨
        (¬ TimedOut hw 100 ∧ ∀ p a, param = some p → area p.opFlags = some a →
          p.colAddr.toNat + size.toNat ≤ a.size)) :=
  ⟨readReports_iff hw dev buf param hlt, writeReports_iff hw dev buf param hlt⟩

/-- A chip of zeros whose controller never becomes ready. -/
def deadHw : Hw := { page := fun _ _ => 0, cmd := fun _ => 0, aborted := fun _ => 0 }

/-- The same with a controller that is ready at once. -/
def readyHw : Hw := { deadHw with cmd := fun _ => cmdDone ||| cmdRdy0 }

/-- A device before its first command. -/
def freshDev : Dev := { regs := ⟨0, 0, 0, 0⟩, dmaBuf := fun _ => 0, commands := [] }

/-- A write of 2052 bytes to the main bytes of page 0 is complete with 2048 of them. -/
theorem reports_transferred_iff_overlongWrite :
    ReadReports readyHw freshDev (some fun _ => 0) 2052 (some ⟨0, 0, opMain⟩) ∧
      ¬ WriteReports readyHw freshDev (some fun _ => 0) 2052 (some ⟨0, 0, opMain⟩) := by
  obtain ⟨hread, hwrite⟩ := reports_transferred_iff readyHw freshDev (some fun _ => 0) 2052
    (some ⟨0, 0, opMain⟩) (by decide)
  have ht : ∀ n, ¬ TimedOut readyHw (n + 1) := fun n h => h 0 (Nat.succ_pos n) (by decide)
  refine ⟨hread.mpr (Or.inr (ht 39)), fun h => ?_⟩
  rcases hwrite.mp h with (h | h | h | h) | ⟨-, h⟩
  · cases h
  · exact absurd h (by decide)
  · exact absurd h (by decide)
  · rcases h _ rfl with h | h
    · exact absurd h (by decide)
    · exact absurd (h _ rfl) (by decide)
  · exact absurd (h _ _ rfl rfl) (by decide)

/-- A read that times out returns 110. -/
theorem timedOut_read_reports : (nandRead deadHw freshDev (some fun _ => 0) 4
    (some ⟨0, 0, opMain⟩)).1 = 110 ∧ TimedOut deadHw 40 ∧
      ¬ ReadReports deadHw freshDev (some fun _ => 0) 4 (some ⟨0, 0, opMain⟩) := by
  have ht : TimedOut deadHw 40 := fun _ _ h => h.1 (by decide : 0#32 &&& cmdDone = 0)
  have hrt : (nandRead deadHw freshDev (some fun _ => 0) 4 (some ⟨0, 0, opMain⟩)).1 = 110 := by
    decide
  refine ⟨hrt, ht, fun h => ?_⟩
  have hneg := h.2.1 ht
  rw [hrt] at hneg
  exact absurd hneg (by decide)

end SortingLine.Nand
