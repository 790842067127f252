import Mathlib.Data.Set.Function
import SortingLine.Fb.Text
import SortingLine.Library.CInt

/-!
# Text stays in its box

`fb_textout` walks over a string by the sizes of its characters, and each is as wide as 8 columns
for each of its bytes.  A byte that begins a character of two bytes is not the last one before the
NUL, as the second one is not zero (`getFontDesc_ptr`); so the walk ends at the NUL, and `dx` is 8
times the distance walked (`Within`).
-/

namespace SortingLine.Fb

open Screen

/-- The box of a width and a height, from its upper left corner on. -/
def box (x y w h : ℤ) : Set (ℤ × ℤ) := {p | x ≤ p.1 ∧ p.1 < x + w ∧ y ≤ p.2 ∧ p.2 < y + h}

/-- Only pixels of the region differ. -/
def ChangesOnly (fb : Screen) (B : Set (ℤ × ℤ)) (m m' : Vram) : Prop :=
  Set.EqOn m' m (Set.compl (fb.bytesOf B))

variable {fb : Screen} {B C : Set (ℤ × ℤ)} {m m' m'' : Vram}

namespace ChangesOnly

theorem refl (fb : Screen) (B : Set (ℤ × ℤ)) (m : Vram) : ChangesOnly fb B m m := Set.eqOn_refl m _

theorem trans (h : ChangesOnly fb B m m') (h' : ChangesOnly fb B m' m'') :
    ChangesOnly fb B m m'' := Set.EqOn.trans h' h

/-- Only what is on the screen counts. -/
theorem mono (h : ChangesOnly fb B m m')
    (hBC : ∀ p ∈ B, fb.InBound p.1 p.2 → p ∈ C) : ChangesOnly fb C m m' := by
  intro a ha
  apply h
  rintro ⟨p, hp, hin, hpa⟩
  exact ha ⟨p, hBC p hp hin, hin, hpa⟩

/-- A pixel of the region. -/
theorem wrPixel (xor : Bool) (color : UInt16) {x y : ℤ} (hB : (x, y) ∈ B) (hin : fb.InBound x y)
    (m : Vram) : ChangesOnly fb B m (wrPixel xor color (fb.fbAddr x y) m) := by
  intro a ha
  apply wrPixel_of_ne
  · rintro rfl
    exact ha ⟨(x, y), hB, hin, .inl rfl⟩
  · rintro rfl
    exact ha ⟨(x, y), hB, hin, .inr rfl⟩

/-- A loop each round of which keeps to the region. -/
theorem foldl {ι : Type*} {l : List ι} {f : Vram → ι → Vram}
    (h : ∀ i ∈ l, ∀ m, ChangesOnly fb B m (f m i)) (m : Vram) :
    ChangesOnly fb B m (l.foldl f m) :=
  l.foldlRecOn f (refl fb B m) fun m' hm' i hi => hm'.trans (h i hi m')

end ChangesOnly

/-! ### Characters -/

/-- A row that begins and ends on the screen. -/
theorem drawRow_changesOnly (xor : Bool) (color : UInt16) (top width data : ℕ) {x y : ℤ}
    (hin : fb.InBound x y) (hin' : x + width ≤ fb.xres) (m : Vram) :
    ChangesOnly fb (box x y width 1) m (drawRow xor color top width (fb.fbAddr x y) data m) := by
  obtain ⟨hx, -, hy, hy'⟩ := hin
  refine ChangesOnly.foldl (fun i hi m => ?_) m
  rw [List.mem_range] at hi
  have haddr : fb.fbAddr x y + 2 * i = fb.fbAddr (x + i) y := by
    unfold fbAddr
    ring
  have hbox : (x + (i : ℤ), y) ∈ box x y width 1 := by
    refine ⟨?_, ?_, le_rfl, ?_⟩
    all_goals
      dsimp only
      omega
  rw [haddr]
  split_ifs
  · exact .wrPixel xor color hbox ⟨by omega, by omega, hy, hy'⟩ m
  · exact .refl fb _ m

/-- `get_font_data` has what `char_in_this` promises. -/
theorem exists_getFontData {font : Font} {chr : Ptr} {b : Bool} (h : font.charInThis chr = some b) :
    ∃ d, font.getFontData chr = some d := by
  cases font with
  | asc =>
    simp only [Font.charInThis, Option.bind_eq_bind, Option.bind_eq_some_iff] at h
    obtain ⟨ch, hch, -⟩ := h
    exact ⟨_, by simp only [Font.getFontData, hch, Option.bind_eq_bind, Option.bind_some]; rfl⟩
  | song =>
    simp only [Font.charInThis, Option.bind_eq_bind, Option.bind_eq_some_iff] at h
    obtain ⟨ch1, hch1, ch2, hch2, -⟩ := h
    exact ⟨_, by
      simp only [Font.getFontData, hch1, hch2, Option.bind_eq_bind, Option.bind_some]; rfl⟩

/-- The font that is found has the character. -/
theorem charInThis_of_getFontDesc {chr : Ptr} {font : Font}
    (h : getFontDesc chr = some (some font)) : font.charInThis chr = some true := by
  simp only [getFontDesc, Option.bind_eq_bind, Option.bind_eq_some_iff] at h
  obtain ⟨inAsc, hasc, h⟩ := h
  cases inAsc with
  | true =>
    obtain rfl := Option.some.inj (Option.some.inj h)
    exact hasc
  | false =>
    simp only [Bool.false_eq_true, if_false, Option.bind_eq_some_iff] at h
    obtain ⟨inSong, hsong, h⟩ := h
    cases inSong with
    | true =>
      obtain rfl := Option.some.inj (Option.some.inj h)
      exact hsong
    | false => exact absurd (Option.some.inj h) (by simp)

/-- Drawing a character reads no more than finding its font, and keeps to the box of it. -/
theorem drawChar_changesOnly (top : ℕ) (rowData : (ℕ → UInt8) → ℕ → ℕ) (fb : LS1xFb) (x y : ℤ)
    {chr : Ptr} {font : Font} (hfont : getFontDesc chr = some (some font)) (m : Vram) :
    ∃ m', drawChar top rowData fb x y chr m = some m' ∧
      ChangesOnly fb.toScreen (box x y font.width font.height) m m' := by
  obtain ⟨d, hd⟩ := exists_getFontData (charInThis_of_getFontDesc hfont)
  simp only [drawChar, hfont, hd, Option.bind_eq_bind, Option.bind_some]
  cases d with
  | none => exact ⟨m, rfl, .refl _ _ m⟩
  | some offset =>
    dsimp only
    split_ifs with hin
    · refine ⟨_, rfl, .foldl (fun i hi m => ?_) m⟩
      obtain ⟨⟨hx, hx', hy, hy'⟩, -, hx'', -, hy''⟩ := hin
      rw [List.mem_range] at hi
      refine (drawRow_changesOnly _ _ top font.width _ ⟨hx, hx', by omega, by omega⟩ (by omega)
        m).mono ?_
      rintro p ⟨hp, hp', hq, hq'⟩ -
      exact ⟨hp, hp', by omega, by omega⟩
    · exact ⟨m, rfl, .refl _ _ m⟩

theorem Font.exists_drawFont_eq (font : Font) :
    ∃ top rowData, font.drawFont = drawChar top rowData := by
  cases font with
  | asc => exact ⟨7, fun fontBuf row => (fontBuf row).toNat, by rw [drawFont, fbDrawAsciiChar]⟩
  | song =>
    exact ⟨15, fun fontBuf row =>
      (fontBuf (2 * row)).toNat <<< 8 ||| (fontBuf (2 * row + 1)).toNat, by
        rw [drawFont, fbDrawGb2312Char]⟩

theorem drawFont_changesOnly (fb : LS1xFb) (x y : ℤ) {chr : Ptr} {font : Font}
    (hfont : getFontDesc chr = some (some font)) (m : Vram) :
    ∃ m', font.drawFont fb x y chr m = some m' ∧
      ChangesOnly fb.toScreen (box x y font.width font.height) m m' := by
  obtain ⟨top, rowData, hdraw⟩ := font.exists_drawFont_eq
  rw [hdraw]
  exact drawChar_changesOnly top rowData fb x y hfont m

/-! ### The walk -/

theorem Font.width_eq (font : Font) : font.width = 8 * font.getCharSize := by
  cases font <;> rfl

theorem Font.height_eq (font : Font) : font.height = 16 := by
  cases font <;> rfl

variable (str : CString)

/-- Up to the NUL everything can be read, and nothing before it is zero. -/
theorem CString.exists_ptr {i j : ℕ} (h : i + j ≤ str.bytes.length) :
    ∃ c, str.ptr i j = some c ∧ (c = 0 ↔ i + j = str.bytes.length) := by
  rcases h.lt_or_eq with hlt | heq
  · refine ⟨str.bytes[i + j], ?_, fun hc => ?_, fun hlen => absurd hlen hlt.ne⟩
    · rw [CString.ptr, List.getElem?_append_left hlt, List.getElem?_eq_getElem hlt]
    · exact absurd hc (str.ne_zero _ (List.getElem_mem hlt))
  · refine ⟨0, ?_, fun _ => heq, fun _ => rfl⟩
    rw [CString.ptr, heq, List.getElem?_append_right le_rfl, Nat.sub_self]
    rfl

/-- A character that is found in a font ends before the NUL. -/
theorem getFontDesc_ptr {i : ℕ} (hi : i < str.bytes.length) :
    ∃ r, getFontDesc (str.ptr i) = some r ∧
      ∀ font, r = some font → i + font.getCharSize ≤ str.bytes.length := by
  obtain ⟨ch1, h1, -⟩ := str.exists_ptr (i := i) (j := 0) hi.le
  obtain ⟨ch2, h2, hzero⟩ := str.exists_ptr (i := i) (j := 1) hi
  simp only [getFontDesc, Font.charInThis, h1, h2, Option.bind_eq_bind, Option.bind_some,
    Option.pure_def]
  by_cases hasc : ch1 ≤ 0x7F
  · refine ⟨some .asc, by simp [hasc], ?_⟩
    rintro font ⟨rfl⟩
    exact hi
  · by_cases hsong : isGb2312Char ch1 ch2 = true
    · refine ⟨some .song, by simp [hasc, hsong], ?_⟩
      rintro font ⟨rfl⟩
      have hne : ch2 ≠ 0 := by
        rintro rfl
        simp [isGb2312Char] at hsong
      have hend := hzero.not.mp hne
      simp only [Font.getCharSize]
      omega
    · exact ⟨none, by simp [hasc, hsong], fun _ h => by simp at h⟩

/-- What holds in each round: where the walk is, where the next character is drawn, and which pixels
have changed. -/
structure Within (fb : LS1xFb) (x y : Int32) (str : CString) (m : Vram) (s : TextState) : Prop where
  pch_le : s.pch ≤ str.bytes.length
  dx_eq : s.dx.toInt = 8 * s.pch
  changes : ChangesOnly fb.toScreen (box x.toInt y.toInt (8 * str.bytes.length) 16) m s.vram

variable {str} {fb : LS1xFb} {x y : Int32} {s : TextState}

/-- The advance does not overflow, as the string is in memory. -/
theorem toInt_add_ofNat {dx : Int32} {n k : ℕ} (hdx : dx.toInt = 8 * n)
    (hn : n + k < ramSize) : (dx + .ofNat (8 * k)).toInt = 8 * (n + k : ℕ) := by
  have hsize : ramSize = 67108864 := rfl
  have hk : (Int32.ofNat (8 * k)).toInt = (8 * k : ℕ) := Int32.toInt_ofNat_of_lt (by omega)
  obtain ⟨c, hc⟩ := exists_toInt_add dx (.ofNat (8 * k))
  have hin := inInt_toInt (dx + .ofNat (8 * k))
  unfold InInt at hin
  rw [hdx, hk] at hc
  push_cast at hc ⊢
  omega

/-- Where a character at `x + dx` reaches the screen, the sum has not overflowed. -/
theorem toInt_add_of_visible {dx : Int32} {n : ℕ} (hdx : dx.toInt = 8 * n) (hn : n ≤ ramSize)
    (h : -16 ≤ (x + dx).toInt) : (x + dx).toInt = x.toInt + 8 * n := by
  have hsize : ramSize = 67108864 := rfl
  obtain ⟨c, hc⟩ := exists_toInt_add x dx
  have hin := inInt_toInt (x + dx)
  have hin' := inInt_toInt x
  unfold InInt at hin hin'
  omega

/-- A round of the loop. -/
theorem textoutStep_within (h : Within fb x y str m s) :
    ∃ r, textoutStep fb x y str s = some r ∧
      (r = none ↔ s.pch = str.bytes.length) ∧
      ∀ s', r = some s' → Within fb x y str m s' ∧ s.pch < s'.pch := by
  obtain ⟨c, hc, hzero⟩ := str.exists_ptr (i := s.pch) (j := 0) h.pch_le
  have hlen := str.length_lt
  simp only [textoutStep, hc, Option.bind_eq_bind, Option.bind_some]
  by_cases hend : c = 0
  · refine ⟨none, by simp [hend], by simpa using hzero.mp hend, fun _ h => by simp at h⟩
  · have hlt : s.pch < str.bytes.length := lt_of_le_of_ne h.pch_le (hzero.not.mp hend)
    obtain ⟨r, hr, hsize⟩ := getFontDesc_ptr str hlt
    simp only [hend, if_false, hr, Option.bind_some]
    cases r with
    | none =>
      refine ⟨_, rfl, by simpa using hlt.ne, ?_⟩
      rintro s' ⟨rfl⟩
      exact ⟨⟨hlt, toInt_add_ofNat (k := 1) h.dx_eq (by omega), h.changes⟩, by simp⟩
    | some font =>
      have hle := hsize font rfl
      obtain ⟨m', hm', hchanges⟩ := drawFont_changesOnly fb (x + s.dx).toInt y.toInt hr s.vram
      simp only [hm', Option.bind_some]
      refine ⟨_, rfl, by simpa using hlt.ne, ?_⟩
      rintro s' ⟨rfl⟩
      have hpos : 0 < font.getCharSize := by cases font <;> decide
      refine ⟨⟨hle, ?_, h.changes.trans (hchanges.mono ?_)⟩, by simpa using hpos⟩
      · rw [font.width_eq]
        exact toInt_add_ofNat h.dx_eq (by omega)
      · rintro p ⟨hx, hx', hy, hy'⟩ ⟨hp, -⟩
        have hwidth := font.width_eq
        have hheight := font.height_eq
        have hsmall : font.getCharSize ≤ 2 := by cases font <;> decide
        have hpos' := toInt_add_of_visible (x := x) h.dx_eq (by omega) (by omega)
        exact ⟨by omega, by omega, hy, by omega⟩

/-- The whole loop: as many rounds as there are bytes suffice. -/
theorem fbTextout_within (fb : LS1xFb) (x y : Int32) (str : CString) (m : Vram) :
    ∃ s, fbTextout str.bytes.length fb x y str m = some s ∧ s.pch = str.bytes.length ∧
      Within fb x y str m s := by
  have hstart : Within fb x y str m ⟨0, 0, m⟩ := ⟨Nat.zero_le _, rfl, .refl _ _ m⟩
  obtain ⟨s, hs, hwithin, hend⟩ := loop_eq_some (μ := fun s => str.bytes.length - s.pch)
    (fun s hs => by
      obtain ⟨r, hr, -, hnext⟩ := textoutStep_within hs
      refine ⟨r, hr, fun s' hs' => ?_⟩
      obtain ⟨hwithin, hlt⟩ := hnext s' hs'
      have hle := hwithin.pch_le
      exact ⟨hwithin, by omega⟩)
    str.bytes.length _ hstart (by simp)
  obtain ⟨r, hr, hnone, -⟩ := textoutStep_within hwithin
  rw [hend] at hr
  exact ⟨s, hs, hnone.mp (Option.some.inj hr).symm, hwithin⟩

/-! ### Centred text -/

/-- Where a box that was moved left or up reaches the screen, the move has not overflowed. -/
theorem toInt_sub_of_visible {v : Int32} {n : ℕ} (hn : n ≤ 4 * ramSize)
    (h : (v - .ofNat n).toInt < 2000) : (v - .ofNat n).toInt = v.toInt - n := by
  have hsize : ramSize = 67108864 := rfl
  have hk : (Int32.ofNat n).toInt = n := Int32.toInt_ofNat_of_lt (by omega)
  obtain ⟨c, hc⟩ := exists_toInt_sub v (.ofNat n)
  have hin := inInt_toInt (v - .ofNat n)
  have hin' := inInt_toInt v
  unfold InInt at hin hin'
  omega

/-- **Text stays in its box**: the walk never reads behind the NUL and ends at it after at most one
round for each byte, having advanced by 8 for each, and only pixels of the screen in the box of the
text are changed.  Centred text is in the box around its point. -/
theorem text_confined (fb : LS1xFb) (x y : Int32) (str : CString) (coloridx : UInt32) (m : Vram) :
    (∃ s, fbTextout str.bytes.length fb x y str m = some s ∧
      s.pch = str.bytes.length ∧ s.dx.toInt = 8 * str.bytes.length ∧
      ∀ a, s.vram a ≠ m a →
        a ∈ fb.bytesOf (box x.toInt y.toInt (8 * str.bytes.length) 16)) ∧
      ∃ s, fbPutStringCenter str.bytes.length fb x y str coloridx m = some (fb, s) ∧
        ∀ a, s.vram a ≠ m a →
          a ∈ fb.bytesOf (box (x.toInt - 4 * str.bytes.length) (y.toInt - 8)
            (8 * str.bytes.length) 16) := by
  constructor
  · obtain ⟨s, hs, hpch, hwithin⟩ := fbTextout_within fb x y str m
    refine ⟨s, hs, hpch, hpch ▸ hwithin.dx_eq, fun a ha => ?_⟩
    by_contra hout
    exact ha (hwithin.changes hout)
  · have hlen := str.length_lt
    obtain ⟨s, hs, -, hwithin⟩ := fbTextout_within { fb with fgColoridx := coloridx }
      (x - .ofNat (str.bytes.length * consFontWidth / 2)) (y - .ofNat (consFontHeight / 2)) str m
    refine ⟨s, by simp only [fbPutStringCenter, fbPutString, hs]; rfl, fun a ha => ?_⟩
    by_contra hout
    refine ha ((hwithin.changes.mono ?_) hout)
    rintro p ⟨hx, hx', hy, hy'⟩ ⟨-, (hp : p.1 < fb.xres), -, (hq : p.2 < fb.yres)⟩
    have hxres := fb.xres_le
    have hyres := fb.yres_le
    have hhalf : str.bytes.length * consFontWidth / 2 = 4 * str.bytes.length := by
      unfold consFontWidth
      omega
    have hhalf' : consFontHeight / 2 = 8 := rfl
    rw [hhalf] at hx hx'
    rw [hhalf'] at hy hy'
    have hleft := toInt_sub_of_visible (v := x) (n := 4 * str.bytes.length) (by omega) (by omega)
    have htop := toInt_sub_of_visible (v := y) (n := 8) (by decide) (by omega)
    exact ⟨by omega, by omega, by omega, by omega⟩

end SortingLine.Fb
