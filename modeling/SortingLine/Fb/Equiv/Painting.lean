import SortingLine.Fb.Equiv.Copyrect
import SortingLine.Fb.Equiv.Fillrect
import SortingLine.Gui.Equiv.Paint

/-!
# The picture in the frame buffer

The texts of cells are painted on a picture, a value for each pixel (`Gui.Painting`).  What the
functions of `ls1x_fb_utils.c` do to the bytes of the memory is that, for a colour without
`XORMODE`: where the memory shows a picture, it shows the painted picture afterwards (`Shows`).
-/

namespace SortingLine.Fb

open Screen Gui.Painting

/-- On the screen, the memory has the values of the picture. -/
def Shows (fb : Screen) (m : Vram) (s : Gui.Pixels) : Prop :=
  ∀ p : ℤ × ℤ, fb.InBound p.1 p.2 → rdFb16 (fb.fbAddr p.1 p.2) m = s p

/-- The pixels of a region have become those of one colour, as far as they are on the screen. -/
structure Draws (fb : Screen) (A : Set (ℤ × ℤ)) (color : UInt16) (m m' : Vram) : Prop where
  inside : ∀ p ∈ A, fb.InBound p.1 p.2 → rdFb16 (fb.fbAddr p.1 p.2) m' = color
  outside : ∀ p ∉ A, fb.InBound p.1 p.2 →
    rdFb16 (fb.fbAddr p.1 p.2) m' = rdFb16 (fb.fbAddr p.1 p.2) m

variable {fb : Screen} {A B : Set (ℤ × ℤ)} {color : UInt16} {m m' m'' : Vram} {s : Gui.Pixels}

namespace Draws

theorem refl (fb : Screen) (color : UInt16) (m : Vram) : Draws fb ∅ color m m :=
  ⟨fun p hp => absurd hp (Set.notMem_empty p), fun _ _ _ => rfl⟩

theorem trans (h : Draws fb A color m m') (h' : Draws fb B color m' m'') :
    Draws fb (A ∪ B) color m m'' := by
  refine ⟨fun p hp hin => ?_, fun p hp hin => ?_⟩
  · by_cases hB : p ∈ B
    · exact h'.inside p hB hin
    · rw [h'.outside p hB hin]
      exact h.inside p (hp.resolve_right hB) hin
  · rw [h'.outside p (fun hB => hp (.inr hB)) hin, h.outside p (fun hA => hp (.inl hA)) hin]

/-- A pixel. -/
theorem wrPixel (color : UInt16) {x y : ℤ} (hin : fb.InBound x y) (m : Vram) :
    Draws fb {(x, y)} color m (wrPixel false color (fb.fbAddr x y) m) := by
  refine ⟨?_, fun p hp hin' => ?_⟩
  · rintro p rfl -
    exact rdFb16_wrFb16_self _ color m
  · refine rdFb16_wrFb16_of_ne (fbAddr_mod fb x y) (fbAddr_mod fb p.1 p.2) (fun heq => hp ?_) color
      m
    obtain ⟨hx, hy⟩ := fbAddr_inj hin' hin heq
    exact Prod.ext hx hy

/-- A loop each round of which draws. -/
theorem foldl {ι : Type*} {l : List ι} {f : Vram → ι → Vram} {R : ι → Set (ℤ × ℤ)}
    (h : ∀ i ∈ l, ∀ m, Draws fb (R i) color m (f m i)) (m : Vram) :
    Draws fb {p | ∃ i ∈ l, p ∈ R i} color m (l.foldl f m) := by
  induction l generalizing m with
  | nil => simpa using refl fb color m
  | cons i l ih =>
    have hset : {p | ∃ j ∈ i :: l, p ∈ R j} = R i ∪ {p | ∃ j ∈ l, p ∈ R j} := by
      ext p
      simp
    rw [hset, List.foldl_cons]
    exact (h i List.mem_cons_self m).trans (ih (fun j hj => h j (List.mem_cons_of_mem i hj)) _)

/-- A painter of the region does the same to a picture. -/
theorem shows (h : Draws fb A color m m') {F : Gui.Pixels → Gui.Pixels} (hF : Paints A color F)
    (hs : Shows fb m s) : Shows fb m' (F s) := by
  intro p hin
  by_cases hA : p ∈ A
  · rw [h.inside p hA hin, hF.inside s p hA]
  · rw [h.outside p hA hin, hF.outside s p hA, hs p hin]

end Draws

/-! ### Characters -/

/-- The pixels of the bits of a row that are set, the leftmost first. -/
def rowInk (top width : ℕ) (x y : ℤ) (data : ℕ) : Set (ℤ × ℤ) :=
  {p | ∃ i < width, data.testBit (top - i) = true ∧ p = (x + i, y)}

/-- A row that is on the screen. -/
theorem drawRow_draws (color : UInt16) {top width : ℕ} (htop : top + 1 = width) (data : ℕ) {x y : ℤ}
    (hin : fb.InBound x y) (hin' : x + width ≤ fb.xres) (m : Vram) :
    Draws fb (rowInk top width x y data) color m
      (drawRow false color top width (fb.fbAddr x y) data m) := by
  obtain ⟨hx, -, hy, hy'⟩ := hin
  have hset : rowInk top width x y data = {p | ∃ i ∈ List.range width,
      p ∈ if (data <<< i).testBit top then {(x + (i : ℤ), y)} else (∅ : Set (ℤ × ℤ))} := by
    ext p
    refine exists_congr fun i => ?_
    rw [List.mem_range, Nat.testBit_shiftLeft]
    refine and_congr_right fun hi => ?_
    have hle : i ≤ top := by omega
    simp only [ge_iff_le, hle, decide_true, Bool.true_and]
    split_ifs with hbit
    · simp [hbit]
    · simp [hbit]
  rw [hset]
  refine Draws.foldl (fun i hi m => ?_) m
  rw [List.mem_range] at hi
  have haddr : fb.fbAddr x y + 2 * i = fb.fbAddr (x + i) y := by
    unfold fbAddr
    ring
  rw [haddr]
  split_ifs
  · exact .wrPixel color ⟨by omega, by omega, hy, hy'⟩ m
  · exact .refl fb color m

/-- The rows of a character. -/
theorem glyphInk_eq {top width : ℕ} (htop : top + 1 = width) (x y : ℤ) (rows : ℕ → ℕ) :
    {p | glyphInk x y width rows p} =
      {p | ∃ i ∈ List.range 16, p ∈ rowInk top width x (y + (i : ℕ)) (rows i)} := by
  ext p
  constructor
  · rintro ⟨hx, hx', hy, hy', hbit⟩
    rw [Gui.Painting.consFontHeight] at hy'
    refine ⟨(p.2 - y).toNat, List.mem_range.mpr (by omega), (p.1 - x).toNat, by omega, ?_, ?_⟩
    · rwa [← htop, Nat.add_sub_cancel] at hbit
    · exact Prod.ext (by simp; omega) (by simp; omega)
  · rintro ⟨i, hi, j, hj, hbit, rfl⟩
    rw [List.mem_range] at hi
    refine ⟨by simp, by simpa using hj, by simp, by simp [Gui.Painting.consFontHeight]; omega, ?_⟩
    have hrow : (y + (i : ℤ) - y).toNat = i := by omega
    have hcol : (x + (j : ℤ) - x).toNat = j := by omega
    rw [hrow, hcol, ← htop, Nat.add_sub_cancel]
    exact hbit

/-- What the functions that draw a character do to a picture. -/
theorem drawFont_paints_glyphInk {d : Gui.Display} {x y : ℤ} {width : ℕ}
    (hin : d.InBound x y ∧ d.InBound (x + width - 1) (y + Gui.Painting.consFontHeight - 1))
    (rows : ℕ → ℕ) (color : UInt16) :
    Paints {p | glyphInk x y width rows p} color (drawFont d x y width rows color) := by
  refine ⟨fun s p hp => ?_, fun s p hp => ?_⟩
  · rw [drawFont, if_pos hin]
    exact if_pos hp
  · rw [drawFont, if_pos hin]
    exact if_neg hp

/-- Where the second font has a character. -/
def songOffset (ch1 ch2 : UInt8) : ℕ :=
  let area := ch1.toNat - 0xA1
  let offset :=
    if area < 9 then area * 94 + ch2.toNat - 0xA1
    else if 15 ≤ area then (area - 6) * 94 + ch2.toNat - 0xA1
    else 0
  offset * 32

namespace LS1xFb

/-- The colour that is drawn with. -/
def drawColor (fb : LS1xFb) : UInt16 := fb.mColorMap (fb.fgColoridx &&& ~~~xormode)

/-- The table of a font. -/
def table (fb : LS1xFb) : Font → ℕ → UInt8
  | .asc => fb.asc
  | .song => fb.song

/-- The screen and the fonts, by their characters. -/
def display (fb : LS1xFb) : Gui.Display where
  xres := fb.xres
  yres := fb.yres
  asc chr row := fb.asc (chr.toNat * 16 + row)
  song ch1 ch2 row := .ofNat ((fb.song (songOffset ch1 ch2 + 2 * row)).toNat <<< 8 |||
    (fb.song (songOffset ch1 ch2 + (2 * row + 1))).toNat)

end LS1xFb

variable {fb : LS1xFb} {x y : ℤ} {chr : Ptr} {font : Font}

/-- A character, or nothing where it is not all on the screen. -/
theorem drawChar_shows {top offset : ℕ} (htop : top + 1 = font.width)
    (rowData : (ℕ → UInt8) → ℕ → ℕ) (hxor : fb.fgColoridx &&& xormode = 0)
    (hfont : getFontDesc chr = some (some font)) (hdata : font.getFontData chr = some (some offset))
    (hs : Shows fb.toScreen m s) :
    ∃ m', drawChar top rowData fb x y chr m = some m' ∧ Shows fb.toScreen m'
      (drawFont fb.display x y font.width (rowData fun i => fb.table font (offset + i)) fb.drawColor
        s) := by
  have hheight := font.height_eq
  simp only [drawChar, hfont, hdata, hxor, Option.bind_eq_bind, Option.bind_some, hheight]
  by_cases hin : fb.InBound x y ∧ fb.InBound (x + font.width - 1) (y + (16 : ℕ) - 1)
  · rw [if_pos hin]
    refine ⟨_, rfl, Draws.shows ?_ (drawFont_paints_glyphInk (d := fb.display) hin _ _) hs⟩
    rw [glyphInk_eq htop]
    refine Draws.foldl (fun i hi m => ?_) m
    obtain ⟨⟨hx, hx', hy, hy'⟩, -, hx'', -, hy''⟩ := hin
    rw [List.mem_range] at hi
    exact drawRow_draws _ htop _ ⟨hx, hx', by omega, by omega⟩ (by omega) m
  · rw [if_neg hin]
    have hsame : drawFont fb.display x y font.width
        (rowData fun i => fb.table font (offset + i)) fb.drawColor s = s := if_neg hin
    exact ⟨m, rfl, hsame.symm ▸ hs⟩

theorem isGb2312Char_iff {ch1 ch2 : UInt8} :
    isGb2312Char ch1 ch2 = true ↔ IsGb2312Char ch1 ch2 := by
  simp [isGb2312Char, IsGb2312Char, and_assoc]

/-- The fonts are tried in this order. -/
theorem getFontDesc_eq {ch1 ch2 : UInt8} (h0 : chr 0 = some ch1) (h1 : chr 1 = some ch2) :
    getFontDesc chr = some (if ch1 ≤ 0x7F then some .asc
      else if IsGb2312Char ch1 ch2 then some .song else none) := by
  simp only [getFontDesc, Font.charInThis, h0, h1, Option.bind_eq_bind, Option.bind_some,
    Option.pure_def, isGb2312Char_iff, decide_eq_true_eq]
  split_ifs
  all_goals rfl

theorem fbDrawAsciiChar_shows (hxor : fb.fgColoridx &&& xormode = 0) {ch : UInt8}
    (h0 : chr 0 = some ch) (hasc : ch ≤ 0x7F) (hfont : getFontDesc chr = some (some .asc))
    (hs : Shows fb.toScreen m s) :
    ∃ m', fbDrawAsciiChar fb x y chr m = some m' ∧ Shows fb.toScreen m'
      (Gui.Painting.fbDrawAsciiChar fb.display x y ch fb.drawColor s) := by
  have hdata : Font.asc.getFontData chr = some (some (ch.toNat * 16)) := by
    have hno : ¬ 0x7F < ch := UInt8.not_lt.mpr hasc
    simp [Font.getFontData, h0, hno]
  exact drawChar_shows rfl _ hxor hfont hdata hs

theorem toNat_song (fb : LS1xFb) (ch1 ch2 : UInt8) (row : ℕ) :
    (fb.display.song ch1 ch2 row).toNat = (fb.song (songOffset ch1 ch2 + 2 * row)).toNat <<< 8 |||
      (fb.song (songOffset ch1 ch2 + (2 * row + 1))).toNat := by
  have hhigh := (fb.song (songOffset ch1 ch2 + 2 * row)).toNat_lt
  have hlow := (fb.song (songOffset ch1 ch2 + (2 * row + 1))).toNat_lt
  refine UInt16.toNat_ofNat_of_lt (Nat.or_lt_two_pow (n := 16) ?_ (hlow.trans (by decide)))
  rw [Nat.shiftLeft_eq]
  omega

theorem fbDrawGb2312Char_shows (hxor : fb.fgColoridx &&& xormode = 0) {ch1 ch2 : UInt8}
    (h0 : chr 0 = some ch1) (h1 : chr 1 = some ch2) (hsong : IsGb2312Char ch1 ch2)
    (hfont : getFontDesc chr = some (some .song)) (hs : Shows fb.toScreen m s) :
    ∃ m', fbDrawGb2312Char fb x y chr m = some m' ∧ Shows fb.toScreen m'
      (Gui.Painting.fbDrawGb2312Char fb.display x y ch1 ch2 fb.drawColor s) := by
  have hdata : Font.song.getFontData chr = some (some (songOffset ch1 ch2)) := by
    simp only [Font.getFontData, h0, h1, Option.bind_eq_bind, Option.bind_some,
      isGb2312Char_iff.mpr hsong, if_true]
    rfl
  unfold Gui.Painting.fbDrawGb2312Char
  simp only [toNat_song]
  exact drawChar_shows rfl _ hxor hfont hdata hs

/-! ### Strings -/

section

variable {d : Gui.Display} {c : UInt16} {ch ch2 : UInt8}

theorem fbTextout_cons_asc (hasc : ch ≤ 0x7F) (str : List UInt8) (x y : ℤ) (s : Gui.Pixels) :
    Gui.Painting.fbTextout d y c (ch :: str) x s =
      Gui.Painting.fbTextout d y c str (x + 8) (Gui.Painting.fbDrawAsciiChar d x y ch c s) := by
  cases str with
  | nil => simp only [Gui.Painting.fbTextout, if_pos hasc]
  | cons ch' str => simp only [Gui.Painting.fbTextout, if_pos hasc]

theorem fbTextout_cons_song (hasc : ¬ ch ≤ 0x7F) (hsong : IsGb2312Char ch ch2) (str : List UInt8)
    (x y : ℤ) (s : Gui.Pixels) :
    Gui.Painting.fbTextout d y c (ch :: ch2 :: str) x s =
      Gui.Painting.fbTextout d y c str (x + 16)
        (Gui.Painting.fbDrawGb2312Char d x y ch ch2 c s) := by
  simp only [Gui.Painting.fbTextout, if_neg hasc, if_pos hsong]

theorem fbTextout_cons_skip (hasc : ¬ ch ≤ 0x7F) {str : List UInt8}
    (hsong : ∀ ch2 ∈ str.head?, ¬ IsGb2312Char ch ch2) (x y : ℤ) (s : Gui.Pixels) :
    Gui.Painting.fbTextout d y c (ch :: str) x s = Gui.Painting.fbTextout d y c str (x + 8) s := by
  cases str with
  | nil => simp only [Gui.Painting.fbTextout, if_neg hasc]
  | cons ch' str =>
    simp only [Gui.Painting.fbTextout, if_neg hasc, if_neg (hsong ch' rfl)]
    rfl

end

variable {str : CString} {x y : Int32} {st : TextState}

/-- A character is drawn at the sum, or on neither side of the overflow. -/
theorem drawFont_add (fb : LS1xFb) (x : Int32) {dx : Int32} {n : ℕ} (hdx : dx.toInt = 8 * n)
    (hn : n ≤ ramSize) (y : ℤ) (width : ℕ) (rows : ℕ → ℕ) (c : UInt16) (s : Gui.Pixels) :
    drawFont fb.display (x + dx).toInt y width rows c s =
      drawFont fb.display (x.toInt + 8 * n) y width rows c s := by
  by_cases heq : (x + dx).toInt = x.toInt + 8 * n
  · rw [heq]
  · have hsize : ramSize = 67108864 := rfl
    have hleft : (x + dx).toInt < -16 := by
      by_contra hle
      exact heq (toInt_add_of_visible hdx hn (by omega))
    obtain ⟨k, hk⟩ := exists_toInt_add x dx
    have hin := inInt_toInt x
    have hin' := inInt_toInt (x + dx)
    have hres := fb.xres_le
    unfold InInt at hin hin'
    have hout : ¬ fb.display.InBound (x + dx).toInt y := fun h => absurd h.1 (by omega)
    have hout' : ¬ fb.display.InBound (x.toInt + 8 * n) y := by
      rintro ⟨-, hlt : _ < (fb.xres : ℤ), -⟩
      omega
    unfold drawFont
    rw [if_neg fun h => hout h.1, if_neg fun h => hout' h.1]

/-- What is still to be painted, of a text that makes `t` of the picture. -/
def ToPaint (fb : LS1xFb) (x y : Int32) (str : CString) (t : Gui.Pixels) (st : TextState) : Prop :=
  ∃ s, Shows fb.toScreen st.vram s ∧ Gui.Painting.fbTextout fb.display y.toInt fb.drawColor
    (str.bytes.drop st.pch) (x.toInt + 8 * st.pch) s = t

/-- What is read through the pointer comes next in the string. -/
theorem drop_eq_cons {i : ℕ} {ch : UInt8} (h : str.ptr i 0 = some ch) (hi : i < str.bytes.length) :
    str.bytes.drop i = ch :: str.bytes.drop (i + 1) := by
  rw [CString.ptr, Nat.add_zero, List.getElem?_append_left hi, List.getElem?_eq_getElem hi] at h
  rw [List.drop_eq_getElem_cons hi, Option.some.inj h]

theorem textoutStep_of_font {ch : UInt8} {font : Font} (h0 : str.ptr st.pch 0 = some ch)
    (hend : ch ≠ 0) (hfont : getFontDesc (str.ptr st.pch) = some (some font))
    (hdraw : font.drawFont fb (x + st.dx).toInt y.toInt (str.ptr st.pch) st.vram = some m') :
    textoutStep fb x y str st =
      some (some ⟨st.pch + font.getCharSize, st.dx + .ofNat font.width, m'⟩) := by
  simp only [textoutStep, h0, hend, if_false, hfont, hdraw, Option.bind_eq_bind, Option.bind_some]
  rfl

theorem textoutStep_of_no_font {ch : UInt8} (h0 : str.ptr st.pch 0 = some ch) (hend : ch ≠ 0)
    (hfont : getFontDesc (str.ptr st.pch) = some none) :
    textoutStep fb x y str st =
      some (some ⟨st.pch + 1, st.dx + .ofNat consFontWidth, st.vram⟩) := by
  simp only [textoutStep, h0, hend, if_false, hfont, Option.bind_eq_bind, Option.bind_some]
  rfl

/-- The byte after the one at `i`, if it is in the string. -/
theorem eq_of_mem_head?_drop {i : ℕ} {ch ch2 : UInt8} (h1 : str.ptr i 1 = some ch2)
    (h : ch ∈ (str.bytes.drop (i + 1)).head?) : ch = ch2 := by
  by_cases hlt : i + 1 < str.bytes.length
  · rw [drop_eq_cons h1 hlt] at h
    exact (Option.some.inj h).symm
  · rw [List.drop_of_length_le (by omega)] at h
    cases h

/-- A round of the loop. -/
theorem textoutStep_toPaint {t : Gui.Pixels} (hxor : fb.fgColoridx &&& xormode = 0)
    (hwithin : Within fb x y str m st) (h : ToPaint fb x y str t st) {st' : TextState}
    (hstep : textoutStep fb x y str st = some (some st')) : ToPaint fb x y str t st' := by
  obtain ⟨s, hs, rfl⟩ := h
  have hlen := str.length_lt
  have hle := hwithin.pch_le
  obtain ⟨ch, h0, hzero⟩ := str.exists_ptr (i := st.pch) (j := 0) hle
  have hend : ch ≠ 0 := by
    rintro rfl
    simp [textoutStep, h0] at hstep
  have hlt : st.pch < str.bytes.length := lt_of_le_of_ne hle (hzero.not.mp hend)
  obtain ⟨ch2, h1, hzero2⟩ := str.exists_ptr (i := st.pch) (j := 1) hlt
  have hfont := getFontDesc_eq h0 h1
  have hadd (y : ℤ) (width : ℕ) (rows : ℕ → ℕ) := drawFont_add fb x hwithin.dx_eq (by omega) y width
    rows fb.drawColor s
  have hnext (k : ℕ) : x.toInt + 8 * st.pch + 8 * k = x.toInt + 8 * (st.pch + k : ℕ) := by
    push_cast
    ring
  rw [drop_eq_cons h0 hlt]
  by_cases hasc : ch ≤ 0x7F
  · rw [if_pos hasc] at hfont
    obtain ⟨m', hm', hs'⟩ := fbDrawAsciiChar_shows (x := (x + st.dx).toInt) (y := y.toInt) hxor h0
      hasc hfont hs
    rw [textoutStep_of_font h0 hend hfont hm'] at hstep
    obtain rfl := Option.some.inj (Option.some.inj hstep)
    refine ⟨_, hs', ?_⟩
    rw [fbTextout_cons_asc hasc]
    simp only [Gui.Painting.fbDrawAsciiChar, hadd]
    exact congrArg (Gui.Painting.fbTextout _ _ _ _ · _) (hnext 1).symm
  · rw [if_neg hasc] at hfont
    by_cases hsong : IsGb2312Char ch ch2
    · -- the second byte is not the NUL
      have hlt2 : st.pch + 1 < str.bytes.length := by
        refine lt_of_le_of_ne hlt (hzero2.not.mp ?_)
        rintro rfl
        exact absurd hsong.2.1 (by decide)
      have hdrop : str.bytes.drop (st.pch + 1) = ch2 :: str.bytes.drop (st.pch + 2) :=
        drop_eq_cons h1 hlt2
      rw [if_pos hsong] at hfont
      obtain ⟨m', hm', hs'⟩ := fbDrawGb2312Char_shows (x := (x + st.dx).toInt) (y := y.toInt) hxor
        h0 h1 hsong hfont hs
      rw [textoutStep_of_font h0 hend hfont hm'] at hstep
      obtain rfl := Option.some.inj (Option.some.inj hstep)
      refine ⟨_, hs', ?_⟩
      rw [hdrop, fbTextout_cons_song hasc hsong]
      simp only [Gui.Painting.fbDrawGb2312Char, hadd]
      exact congrArg (Gui.Painting.fbTextout _ _ _ _ · _) (hnext 2).symm
    · rw [if_neg hsong] at hfont
      rw [textoutStep_of_no_font h0 hend hfont] at hstep
      obtain rfl := Option.some.inj (Option.some.inj hstep)
      refine ⟨s, hs, ?_⟩
      rw [fbTextout_cons_skip hasc]
      · exact congrArg (Gui.Painting.fbTextout _ _ _ _ · _) (hnext 1).symm
      · exact fun ch' hch' => eq_of_mem_head?_drop h1 hch' ▸ hsong

/-- **Text is painted**: what the memory shows after `fb_textout` is the picture with the text. -/
theorem fbTextout_shows (hxor : fb.fgColoridx &&& xormode = 0) (hs : Shows fb.toScreen m s)
    (x y : Int32) (str : CString) :
    ∃ st, fbTextout str.bytes.length fb x y str m = some st ∧ Shows fb.toScreen st.vram
      (Gui.Painting.fbTextout fb.display y.toInt fb.drawColor str.bytes x.toInt s) := by
  set t := Gui.Painting.fbTextout fb.display y.toInt fb.drawColor str.bytes x.toInt s with ht
  have hstart : Within fb x y str m ⟨0, 0, m⟩ := ⟨Nat.zero_le _, rfl, .refl _ _ m⟩
  have hstart' : ToPaint fb x y str t ⟨0, 0, m⟩ := ⟨s, hs, by simp [ht]⟩
  obtain ⟨st, hst, ⟨hwithin, hpaint⟩, hend⟩ := loop_eq_some
    (I := fun st => Within fb x y str m st ∧ ToPaint fb x y str t st)
    (μ := fun st => str.bytes.length - st.pch)
    (fun st ⟨hwithin, hpaint⟩ => by
      obtain ⟨r, hr, -, hnext⟩ := textoutStep_within hwithin
      refine ⟨r, hr, fun st' hst' => ?_⟩
      obtain ⟨hwithin', hlt⟩ := hnext st' hst'
      have hle := hwithin'.pch_le
      exact ⟨⟨hwithin', textoutStep_toPaint hxor hwithin hpaint (hst' ▸ hr)⟩, by omega⟩)
    str.bytes.length _ ⟨hstart, hstart'⟩ (by simp)
  obtain ⟨r, hr, hnone, -⟩ := textoutStep_within hwithin
  rw [hend] at hr
  have hpch := hnone.mp (Option.some.inj hr).symm
  obtain ⟨s', hs', hrest⟩ := hpaint
  -- at the NUL nothing is left to paint
  rw [hpch, List.drop_length, Gui.Painting.fbTextout] at hrest
  exact ⟨st, hst, hrest ▸ hs'⟩

/-- The frame buffer with another colour. -/
def LS1xFb.withColoridx (fb : LS1xFb) (coloridx : UInt32) : LS1xFb :=
  { fb with fgColoridx := coloridx }

theorem fbPutString_shows {coloridx : UInt32} (hxor : coloridx &&& xormode = 0)
    (hs : Shows fb.toScreen m s) (x y : Int32) (str : CString) :
    ∃ st, fbPutString str.bytes.length fb x y str coloridx m = some (fb, st) ∧
      Shows fb.toScreen st.vram (Gui.Painting.fbPutString fb.display x.toInt y.toInt str.bytes
        (fb.withColoridx coloridx).drawColor s) := by
  have hxor' : (fb.withColoridx coloridx).fgColoridx &&& xormode = 0 := hxor
  obtain ⟨st, hst, hshows⟩ := fbTextout_shows hxor' hs x y str
  refine ⟨st, ?_, hshows⟩
  have hst' : fbTextout str.bytes.length { fb with fgColoridx := coloridx } x y str m = some st :=
    hst
  simp only [fbPutString, hst']
  rfl

/-- Centred text, where the corner is an `int`. -/
theorem fbPutStringCenter_shows {coloridx : UInt32} (hxor : coloridx &&& xormode = 0)
    (hs : Shows fb.toScreen m s) {x y : Int32} {str : CString}
    (hx : InInt (x.toInt - 4 * str.bytes.length)) (hy : InInt (y.toInt - 8)) :
    ∃ st, fbPutStringCenter str.bytes.length fb x y str coloridx m = some (fb, st) ∧
      Shows fb.toScreen st.vram (Gui.Painting.fbPutStringCenter fb.display x.toInt y.toInt str.bytes
        (fb.withColoridx coloridx).drawColor s) := by
  have hsize : ramSize = 67108864 := rfl
  have hlen := str.length_lt
  obtain ⟨st, hst, hshows⟩ := fbPutString_shows hxor hs
    (x - .ofNat (str.bytes.length * consFontWidth / 2)) (y - .ofNat (consFontHeight / 2)) str
  refine ⟨st, hst, ?_⟩
  have hwidth : (Int32.ofNat (str.bytes.length * consFontWidth / 2)).toInt =
      4 * str.bytes.length := by
    rw [Int32.toInt_ofNat_of_lt (by unfold consFontWidth; omega)]
    unfold consFontWidth
    omega
  have hleft := toInt_sub_of_inInt (u := x) rfl hwidth hx
  have htop := toInt_sub_of_inInt (u := y) (v := .ofNat (consFontHeight / 2)) rfl
    (show (Int32.ofNat (consFontHeight / 2)).toInt = 8 from rfl) hy
  have hhalf : ((str.bytes.length : ℤ) * Gui.Painting.consFontWidth).tdiv 2 =
      4 * str.bytes.length := by
    rw [Gui.Painting.consFontWidth, Int.tdiv_eq_ediv_of_nonneg (by omega)]
    omega
  rw [hleft, htop] at hshows
  rw [Gui.Painting.fbPutStringCenter, hhalf]
  exact hshows

/-! ### Rectangles -/

section

variable {fb : PixelFb} {S : Set (ℤ × ℤ)} {c : UInt16}

theorem byteOf_zero (c : UInt16) : byteOf c.toUInt32 0 = c.toUInt8 := by
  apply UInt8.toNat_inj.mp
  simp [byteOf]

theorem byteOf_one (c : UInt16) : byteOf c.toUInt32 1 = (c >>> 8).toUInt8 := by
  apply UInt8.toNat_inj.mp
  simp [byteOf]

theorem pixelAddr_eq (hbytes : fb.bytesPerPixel = 2) (p : ℤ × ℤ) :
    pixelAddr fb p = fb.fbAddr p.1 p.2 := by
  rw [pixelAddr, PixelFb.lineAddr, fbAddr, hbytes]
  push_cast
  ring

/-- Painting the bytes of pixels once is drawing them. -/
theorem PaintsOnce.draws (hbytes : fb.bytesPerPixel = 2)
    (h : PaintsOnce fb S false c.toUInt32 m m') (hS : ∀ p ∈ S, fb.InBound p.1 p.2) :
    Draws fb.toScreen S c m m' := by
  refine ⟨fun p hp hin => ?_, fun p hp hin => ?_⟩
  · have hlow := h.painted p hp 0 (byteOf c.toUInt32 0) (by rw [hbytes]; rfl)
    have hhigh := h.painted p hp 1 (byteOf c.toUInt32 1) (by rw [hbytes]; rfl)
    rw [pixelAddr_eq hbytes, byteOf_zero] at hlow
    rw [pixelAddr_eq hbytes, byteOf_one] at hhigh
    simp only [Nat.cast_zero, add_zero, Nat.cast_one, mix, Bool.false_eq_true, if_false]
      at hlow hhigh
    rw [rdFb16, hlow, hhigh, halves]
  · have hkept (i : ℕ) (hi : i < 2) : m' (fb.fbAddr p.1 p.2 + i) = m (fb.fbAddr p.1 p.2 + i) := by
      rw [← pixelAddr_eq hbytes]
      refine h.kept _ fun q hq j hj heq => hp ?_
      exact pixelAddr_inj hin (hS q hq) (hbytes ▸ hi) hj heq ▸ hq
    have hlow := hkept 0 (by decide)
    have hhigh := hkept 1 (by decide)
    rw [Nat.cast_zero, add_zero] at hlow
    rw [Nat.cast_one] at hhigh
    rw [rdFb16, hlow, hhigh, rdFb16]

/-- **Rectangles are painted**, also those that `fb_fillrect` should leave out. -/
theorem fbFillrect_shows {d : Gui.Display} (hxres : d.xres = fb.xres) (hyres : d.yres = fb.yres)
    (hbytes : fb.bytesPerPixel = 2) {coloridx : UInt32} (hxor : isXor coloridx = false)
    (hs : Shows fb.toScreen m s) (x1 y1 x2 y2 : ℤ) :
    Shows fb.toScreen (fbFillrect fb x1 y1 x2 y2 coloridx m) (Gui.Painting.fbFillrect d x1 y1 x2 y2
      (fb.mColorMap (coloridx &&& ~~~xormode)) s) := by
  have hpaint := fbFillrect_paintsOnce fb x1 y1 x2 y2 coloridx m
  rw [hxor] at hpaint
  have hdraws := hpaint.draws hbytes fun p => inBound_of_mem_fillPixels
  have hclip (res : ℕ) (v : ℤ) : clip v res = clampTo res v := rfl
  have hmem (p : ℤ × ℤ) : p ∈ fillPixels fb x1 y1 x2 y2 ↔
      clip (min x1 x2) d.xres ≤ p.1 ∧ p.1 ≤ clip (max x1 x2) d.xres ∧
        clip (min y1 y2) d.yres ≤ p.2 ∧ p.2 ≤ clip (max y1 y2) d.yres := by
    simp only [hxres, hyres, hclip, mem_fillPixels, clamped, Int.mem_range_iff, Int.lt_add_one_iff,
      and_assoc]
  refine hdraws.shows ⟨fun s p hp => ?_, fun s p hp => ?_⟩ hs
  · simp only [Gui.Painting.fbFillrect, ordered_eq]
    exact if_pos ((hmem p).mp hp)
  · simp only [Gui.Painting.fbFillrect, ordered_eq]
    exact if_neg fun h => hp ((hmem p).mpr h)

end

end SortingLine.Fb
