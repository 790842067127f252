import SortingLine.Fb.Console
import SortingLine.Fb.Equiv.Text
import SortingLine.Library.Run

/-!
# The cursor of the screen console

Rows cannot go wrong: `fb_cons_scroll` keeps the row below `Rows` (`scroll_spec`), and nothing else
sets it.  A character leaves the cursor on the screen (`putc_spec`), but for a backspace in column
0: `curCol` is unsigned, so the test for a column below 0 never holds.  A byte above `0x7F` counts
as two, also where the NUL is the second one.  These are all the ways to fail (`Meets`).
-/

namespace SortingLine.Fb

variable {fb : Cons} {str : CString} {s : ConsState}

/-- The cursor is at a character of the screen. -/
structure OnScreen (fb : Cons) (s : ConsState) : Prop where
  row : s.curRow < fb.rows
  col : s.curCol < fb.cols

/-! ### The cursor -/

private theorem toNat_zero : (0 : UInt32).toNat = 0 := rfl

private theorem toNat_one : (1 : UInt32).toNat = 1 := rfl

/-- Column 0 is on the screen. -/
theorem OnScreen.carriageReturn (h : OnScreen fb s) : OnScreen fb { s with curCol := 0 } := by
  have hpos := UInt32.lt_iff_toNat_lt.mp h.col
  refine ⟨h.row, ?_⟩
  rw [UInt32.lt_iff_toNat_lt, toNat_zero]
  omega

/-- Scrolling keeps the cursor on the screen. -/
theorem scroll_spec (h : OnScreen fb s) : OnScreen fb (fbConsScroll fb s) := by
  have hrow := UInt32.lt_iff_toNat_lt.mp h.row
  have hrows := fb.rows.toNat_lt
  unfold fbConsScroll
  dsimp only
  split_ifs with hlast
  · exact ⟨by simpa [UInt32.lt_iff_toNat_lt] using hrow, h.carriageReturn.col⟩
  · refine ⟨?_, h.col⟩
    rw [UInt32.lt_iff_toNat_lt, UInt32.toNat_sub, toNat_one] at hlast
    rw [UInt32.lt_iff_toNat_lt]
    dsimp only
    omega

/-- Moving on by columns that are there. -/
theorem advance_spec {n : UInt32} (h : OnScreen fb s)
    (hn : s.curCol.toNat + n.toNat ≤ fb.cols.toNat) : OnScreen fb (advance fb n s) := by
  have hcols := fb.cols.toNat_lt
  have hpos := UInt32.lt_iff_toNat_lt.mp h.col
  have hsum : (s.curCol + n).toNat = s.curCol.toNat + n.toNat := by
    rw [UInt32.toNat_add]
    omega
  unfold advance
  dsimp only
  split_ifs with hend
  · exact scroll_spec h.carriageReturn
  · refine ⟨h.row, ?_⟩
    have hne : (s.curCol + n).toNat ≠ fb.cols.toNat := fun h => hend (UInt32.toNat_inj.mp h)
    rw [UInt32.lt_iff_toNat_lt]
    dsimp only
    omega

/-- Drawing leaves the cursor alone. -/
theorem exists_drawAtCursor (fb : Cons) {font : Font} {chr : Ptr}
    (hfont : getFontDesc chr = some (some font)) (s : ConsState) :
    ∃ vram, drawAtCursor fb font chr s = some { s with vram } := by
  obtain ⟨m, hm, -⟩ := drawFont_changesOnly fb.toLS1xFb
    (s.curCol * .ofNat consFontWidth).toInt32.toInt
    (s.curRow * .ofNat consFontHeight).toInt32.toInt hfont s.vram
  exact ⟨m, by simp only [drawAtCursor, hm, Option.bind_eq_bind, Option.bind_some]; rfl⟩

theorem getFontDesc_ptrTo {chr : UInt8} (h : chr ≤ 0x7F) :
    getFontDesc (ptrTo chr) = some (some .asc) := by
  simp [getFontDesc, Font.charInThis, ptrTo, h]

/-- Any character but a backspace. -/
theorem putc_spec {chr : UInt8} (hascii : chr ≤ 0x7F) (hchr : chr ≠ 0x08) (h : OnScreen fb s) :
    ∃ s', fbConsPutc fb chr s = some s' ∧ OnScreen fb s' := by
  unfold fbConsPutc
  by_cases hcr : chr = 0x0D
  · rw [if_pos hcr]
    exact ⟨_, rfl, h.carriageReturn⟩
  by_cases hlf : chr = 0x0A
  · rw [if_neg hcr, if_pos hlf]
    exact ⟨_, rfl, scroll_spec h.carriageReturn⟩
  obtain ⟨vram, hdraw⟩ := exists_drawAtCursor fb (getFontDesc_ptrTo hascii) s
  rw [if_neg hcr, if_neg hlf, if_neg hchr, getFontDesc_ptrTo hascii]
  simp only [Option.bind_eq_bind, Option.bind_some, hdraw]
  exact ⟨_, rfl, advance_spec ⟨h.row, h.col⟩ (UInt32.lt_iff_toNat_lt.mp h.col)⟩

/-- A backspace: no column is below 0. -/
theorem putc_backspace (fb : Cons) (s : ConsState) :
    ∃ s', fbConsPutc fb 0x08 s = some s' ∧ s'.curRow = s.curRow ∧ s'.curCol = s.curCol - 1 := by
  have hfont : getFontDesc (ptrTo 20) = some (some .asc) := getFontDesc_ptrTo (by decide)
  obtain ⟨m, hm⟩ := exists_drawAtCursor fb hfont
    { s with curCol := s.curCol - 1 }
  have hneg : ¬ s.curCol - 1 < 0 := by
    rw [UInt32.lt_iff_toNat_lt]
    exact Nat.not_lt_zero _
  refine ⟨{ s with curCol := s.curCol - 1, vram := m }, ?_, rfl, rfl⟩
  unfold fbConsPutc
  rw [if_neg (by decide), if_neg (by decide), if_pos rfl, hfont]
  simp only [if_neg hneg, Option.bind_eq_bind, Option.bind_some, hm]

/-- The column before column 0 is not on the screen. -/
theorem onScreen_backspace_iff {s' : ConsState} (h : OnScreen fb s) (hrow : s'.curRow = s.curRow)
    (hcol : s'.curCol = s.curCol - 1) : OnScreen fb s' ↔ ¬ s.curCol = 0 := by
  have hlt := fb.cols.toNat_lt
  have hpos := UInt32.lt_iff_toNat_lt.mp h.col
  have hsub : (s.curCol - 1).toNat = (2 ^ 32 - 1 + s.curCol.toNat) % 2 ^ 32 := UInt32.toNat_sub _ _
  rw [← UInt32.toNat_inj, toNat_zero]
  constructor
  · rintro ⟨-, hcol'⟩ hzero
    rw [hcol, UInt32.lt_iff_toNat_lt, hsub] at hcol'
    omega
  · intro hne
    refine ⟨hrow ▸ h.row, ?_⟩
    rw [hcol, UInt32.lt_iff_toNat_lt, hsub]
    omega

/-! ### A round of the loop -/

set_option maxRecDepth 2000 in
/-- The test for a byte of a character of two. -/
theorem and_eq_zero_iff (chr : UInt8) : chr &&& 0x80 = 0 ↔ chr ≤ 0x7F := by
  have hall : ∀ n : Fin 256, n.val &&& 0x80 = 0 ↔ n.val ≤ 0x7F := by decide
  rw [← UInt8.toNat_inj, UInt8.le_iff_toNat_le, UInt8.toNat_and]
  exact hall ⟨chr.toNat, chr.toNat_lt⟩

/-- The walk has not passed the NUL, and the cursor is on the screen. -/
def Good (fb : Cons) (str : CString) (s : PutsState) : Prop :=
  s.pch ≤ str.bytes.length ∧ OnScreen fb s.cons

/-- What a round must not meet: a backspace in column 0, and a byte above `0x7F` that is the last
one. -/
def Meets (str : CString) (s : PutsState) : Prop :=
  ∀ chr, str.ptr s.pch 0 = some chr →
    ¬ (chr = 0x08 ∧ s.cons.curCol = 0) ∧ ¬ (0x7F < chr ∧ s.pch + 1 = str.bytes.length)

/-- A round that finds a character of two bytes. -/
theorem exists_draw_two {font : Font} {chr : Ptr} (hcols : 2 ≤ fb.cols)
    (hfont : getFontDesc chr = some (some font)) (h : OnScreen fb s) :
    ∃ s', drawAtCursor fb font chr
        (if fb.cols - s.curCol < 2 then fbConsScroll fb { s with curCol := 0 } else s) = some s' ∧
      OnScreen fb (advance fb 2 s') := by
  have htwo : (2 : UInt32).toNat = 2 := rfl
  rw [UInt32.le_iff_toNat_le, htwo] at hcols
  have hlt := fb.cols.toNat_lt
  have hcol := UInt32.lt_iff_toNat_lt.mp h.col
  split_ifs with hroom
  · obtain ⟨vram, hdraw⟩ := exists_drawAtCursor fb hfont
      (fbConsScroll fb { s with curCol := 0 })
    have hscroll := scroll_spec h.carriageReturn
    have hzero : (fbConsScroll fb { s with curCol := 0 }).curCol = 0 := by
      unfold fbConsScroll
      dsimp only
      split_ifs
      · rfl
      · rfl
    refine ⟨_, hdraw, advance_spec ⟨hscroll.row, hscroll.col⟩ ?_⟩
    dsimp only
    rw [hzero, toNat_zero, htwo]
    omega
  · obtain ⟨vram, hdraw⟩ := exists_drawAtCursor fb hfont s
    refine ⟨_, hdraw, advance_spec ⟨h.row, h.col⟩ ?_⟩
    rw [UInt32.lt_iff_toNat_lt, UInt32.toNat_sub, htwo] at hroom
    dsimp only
    omega

/-- A round for a single byte. -/
theorem exists_putsStep_one {s : PutsState} {chr : UInt8} (hchr : str.ptr s.pch 0 = some chr)
    (hend : chr ≠ 0) (hascii : chr ≤ 0x7F) (hcur : OnScreen fb s.cons) :
    ∃ cons, putsStep fb str s = some (some ⟨s.pch + 1, cons⟩) ∧
      (OnScreen fb cons ↔ ¬ (chr = 0x08 ∧ s.cons.curCol = 0)) := by
  simp only [putsStep, hchr, Option.bind_eq_bind, Option.bind_some]
  rw [if_neg hend, if_pos ((and_eq_zero_iff chr).mpr hascii)]
  by_cases hback : chr = 0x08
  · subst hback
    obtain ⟨cons, hcons, hrow, hcol⟩ := putc_backspace fb s.cons
    refine ⟨cons, by rw [hcons]; rfl, ?_⟩
    rw [onScreen_backspace_iff hcur hrow hcol, and_iff_right rfl]
  · obtain ⟨cons, hcons, hgood⟩ := putc_spec hascii hback hcur
    exact ⟨cons, by rw [hcons]; rfl, iff_of_true hgood fun h => hback h.1⟩

/-- A round for two bytes, whether or not there is a character. -/
theorem exists_putsStep_two (hcols : 2 ≤ fb.cols) {s : PutsState} {chr : UInt8}
    (hchr : str.ptr s.pch 0 = some chr) (hend : chr ≠ 0) (hascii : ¬ chr ≤ 0x7F)
    (hlt : s.pch < str.bytes.length) (hcur : OnScreen fb s.cons) :
    ∃ cons, putsStep fb str s = some (some ⟨s.pch + 2, cons⟩) ∧ OnScreen fb cons := by
  obtain ⟨r, hr, -⟩ := getFontDesc_ptr str hlt
  simp only [putsStep, hchr, Option.bind_eq_bind, Option.bind_some]
  rw [if_neg hend, if_neg ((and_eq_zero_iff chr).not.mpr hascii)]
  cases r with
  | some font =>
    obtain ⟨cons, hcons, hon⟩ := exists_draw_two hcols hr hcur
    exact ⟨advance fb 2 cons, by simp only [hr, hcons, Option.bind_some]; rfl, hon⟩
  | none =>
    have hmark : (0x3F : UInt8) ≤ 0x7F := by decide
    obtain ⟨cons, hcons, hon⟩ := putc_spec hmark (by decide) hcur
    obtain ⟨cons', hcons', hon'⟩ := putc_spec hmark (by decide) hon
    exact ⟨cons', by simp only [hr, hcons, hcons', Option.bind_some]; rfl, hon'⟩

/-- **A round** reads nothing behind the NUL, ends the loop at it, and leads to a good state just
when it meets the condition. -/
theorem putsStep_spec (hcols : 2 ≤ fb.cols) {s : PutsState} (h : Good fb str s) :
    ∃ r, putsStep fb str s = some r ∧ (r = none ↔ s.pch = str.bytes.length) ∧
      ∀ s', r = some s' → s.pch < s'.pch ∧ (Good fb str s' ↔ Meets str s) := by
  obtain ⟨hpch, hcur⟩ := h
  obtain ⟨chr, hchr, hzero⟩ := str.exists_ptr (i := s.pch) (j := 0) hpch
  have hmeets : Meets str s ↔ ¬ (chr = 0x08 ∧ s.cons.curCol = 0) ∧
      ¬ (0x7F < chr ∧ s.pch + 1 = str.bytes.length) := by
    simp [Meets, hchr]
  by_cases hend : chr = 0
  · exact ⟨none, by simp [putsStep, hchr, hend], by simpa using hzero.mp hend,
      fun _ h => by simp at h⟩
  have hlt : s.pch < str.bytes.length := lt_of_le_of_ne hpch (hzero.not.mp hend)
  rw [hmeets]
  by_cases hascii : chr ≤ 0x7F
  · have hhigh : ¬ (0x7F < chr ∧ s.pch + 1 = str.bytes.length) := fun h => by
      exact absurd h.1 (UInt8.not_lt.mpr hascii)
    obtain ⟨cons, hstep, hon⟩ := exists_putsStep_one hchr hend hascii hcur
    refine ⟨_, hstep, by simpa using hlt.ne, ?_⟩
    rintro s' ⟨rfl⟩
    have hle : s.pch + 1 ≤ str.bytes.length := hlt
    rw [and_iff_left hhigh, ← hon]
    exact ⟨Nat.lt_succ_self _, and_iff_right hle⟩
  · have hback : ¬ (chr = 0x08 ∧ s.cons.curCol = 0) := by
      rintro ⟨rfl, -⟩
      exact hascii (by decide)
    have hhigh : 0x7F < chr := UInt8.not_le.mp hascii
    obtain ⟨cons, hstep, hon⟩ := exists_putsStep_two hcols hchr hend hascii hlt hcur
    refine ⟨_, hstep, by simpa using hlt.ne, ?_⟩
    rintro s' ⟨rfl⟩
    -- the cursor stays on the screen, so what counts is where the walk is
    refine ⟨by simp, ?_⟩
    simp only [Good, hback, hon, hhigh, and_true, true_and, not_false_eq_true]
    omega

/-! ### The walk -/

/-- The rounds of `fb_cons_puts` so far. -/
abbrev Walk (fb : Cons) (str : CString) (cons : ConsState) :
    List (PutsState × Unit) → PutsState → Prop :=
  Run (fun s _ => (putsStep fb str s).join) ⟨0, cons⟩

/-- The walk ends at the NUL within as many rounds as there are bytes, no round reads behind the
NUL, and the cursor is on the screen after each. -/
structure WalksSafely (fb : Cons) (str : CString) (cons : ConsState) : Prop where
  stops : ∃ s, fbConsPuts str.bytes.length fb str cons = some s ∧ s.pch = str.bytes.length
  reads : ∀ tr s, Walk fb str cons tr s → ∃ r, putsStep fb str s = some r
  cursor : ∀ tr s, Walk fb str cons tr s → OnScreen fb s.cons

variable {cons : ConsState} {tr : List (PutsState × Unit)} {t : PutsState}

/-- A round that is made. -/
theorem good_iff_meets (hcols : 2 ≤ fb.cols) {s s' : PutsState} (h : Good fb str s)
    (hs : (putsStep fb str s).join = some s') :
    s.pch < s'.pch ∧ (Good fb str s' ↔ Meets str s) := by
  obtain ⟨r, hr, -, hnext⟩ := putsStep_spec hcols h
  rw [hr] at hs
  exact hnext s' hs

/-- The states of a walk are good just when all its rounds meet the condition. -/
theorem Walk.good_iff (hcols : 2 ≤ fb.cols) (hcons : OnScreen fb cons)
    (h : Walk fb str cons tr t) :
    ((∀ x ∈ tr, Good fb str x.1) ∧ Good fb str t) ↔ ∀ x ∈ tr, Meets str x.1 :=
  h.forall_iff (I := Good fb str) (C := fun x => Meets str x.1) ⟨Nat.zero_le _, hcons⟩
    fun _ _ _ _ _ hgood hs => (good_iff_meets hcols hgood hs).2

/-- A state from which something can be read is not behind the NUL. -/
theorem pch_le_of_reads {s : PutsState} {r : Option PutsState} (h : putsStep fb str s = some r) :
    s.pch ≤ str.bytes.length := by
  simp only [putsStep, Option.bind_eq_bind, Option.bind_eq_some_iff] at h
  obtain ⟨chr, hchr, -⟩ := h
  have hlt := (List.getElem?_eq_some_iff.mp hchr).1
  simp only [List.length_append, List.length_singleton] at hlt
  omega

/-- **The cursor stays on the screen**, and nothing behind the NUL is read, just when no round of
the walk meets a backspace in column 0 or a last byte above `0x7F`. -/
theorem walksSafely_iff (hcols : 2 ≤ fb.cols) (hcons : OnScreen fb cons) :
    WalksSafely fb str cons ↔
      ∀ tr s, Walk fb str cons tr s → ∀ x ∈ tr, Meets str x.1 := by
  constructor
  · intro h tr s hs
    refine (Walk.good_iff hcols hcons hs).mp ⟨fun x hx => ?_, ?_⟩
    · obtain ⟨tr₁, -, -, -, hx₁, -⟩ := hs.of_mem hx
      obtain ⟨r, hr⟩ := h.reads tr₁ x.1 hx₁
      exact ⟨pch_le_of_reads hr, h.cursor tr₁ x.1 hx₁⟩
    · obtain ⟨r, hr⟩ := h.reads tr s hs
      exact ⟨pch_le_of_reads hr, h.cursor tr s hs⟩
  · intro h
    have hgood : ∀ tr s, Walk fb str cons tr s → Good fb str s :=
      fun tr s hs => ((Walk.good_iff hcols hcons hs).mpr (h tr s hs)).2
    refine ⟨?_, fun tr s hs => ?_, fun tr s hs => (hgood tr s hs).2⟩
    · -- each round comes nearer to the NUL
      obtain ⟨s, hs, ⟨tr, hreached⟩, hend⟩ := loop_eq_some
        (I := fun s => ∃ tr, Walk fb str cons tr s) (μ := fun s => str.bytes.length - s.pch)
        (fun s ⟨tr, hs⟩ => by
          obtain ⟨r, hr, -, -⟩ := putsStep_spec hcols (hgood tr s hs)
          refine ⟨r, hr, fun s' hs' => ?_⟩
          have hjoin : (putsStep fb str s).join = some s' := by rw [hr, hs']; rfl
          have hnext : Walk fb str cons (tr ++ [(s, ())]) s' := hs.next hjoin
          have hlt := (good_iff_meets hcols (hgood tr s hs) hjoin).1
          have hle := (hgood _ s' hnext).1
          exact ⟨⟨_, hnext⟩, by omega⟩)
        str.bytes.length ⟨0, cons⟩ ⟨[], .start⟩ (by simp)
      obtain ⟨r, hr, hnone, -⟩ := putsStep_spec hcols (hgood tr s hreached)
      rw [hend] at hr
      exact ⟨s, hs, hnone.mp (Option.some.inj hr).symm⟩
    · obtain ⟨r, hr, -⟩ := putsStep_spec hcols (hgood tr s hs)
      exact ⟨r, hr⟩

/-- The console of a screen of 800 by 480. -/
def smallCons : Cons where
  toScreen := lcd
  fgColoridx := 15
  mColorMap _ := 0
  asc _ := 0
  song _ := 0
  bgColoridx := 0
  rows := 30
  cols := 100

/-- The cursor in the upper left corner. -/
def home : ConsState := ⟨0, 0, fun _ => 0⟩

/-- A string of a single backspace. -/
def backspace : CString := ⟨[0x08], List.forall_mem_singleton.mpr (by decide), by decide⟩

theorem onScreen_home : OnScreen smallCons home := ⟨by decide, by decide⟩

theorem walksSafely_iff_backspace :
    WalksSafely smallCons backspace home ↔
      ∀ tr s, Walk smallCons backspace home tr s → ∀ x ∈ tr, Meets backspace x.1 :=
  walksSafely_iff (by decide) onScreen_home

/-- A backspace in the upper left corner. -/
theorem not_walksSafely :
    ¬ ∀ (fb : Cons) (str : CString) (cons : ConsState), 1 ≤ fb.rows → 2 ≤ fb.cols →
      OnScreen fb cons → WalksSafely fb str cons := by
  intro h
  have hsafe := h smallCons backspace home (by decide) (by decide) onScreen_home
  obtain ⟨cons, hcons, -, hcol⟩ := putc_backspace smallCons home
  have hread : backspace.ptr 0 0 = some 0x08 := rfl
  have hstep : (putsStep smallCons backspace ⟨0, home⟩).join = some ⟨1, cons⟩ := by
    simp only [putsStep, hread, Option.bind_eq_bind, Option.bind_some]
    rw [if_neg (by decide), if_pos (by decide), hcons]
    rfl
  have hwalk : Walk smallCons backspace home [(⟨0, home⟩, ())] ⟨1, cons⟩ := .next .start hstep
  have hlt := (hsafe.cursor _ _ hwalk).col
  dsimp only at hlt
  rw [hcol] at hlt
  exact absurd hlt (by decide)

end SortingLine.Fb
