import Mathlib.Data.List.Basic
import SortingLine.Fb.Copyrect
import SortingLine.Fb.Equiv.Text
import SortingLine.Library.Moves

/-!
# A copied rectangle as moves of pixels

All strips of `fb_copyrect` are copied by the same distance (`strips_shift`), so what it does to the
picture are the moves of the pixels in the order of the strips, row by row (`order`).  It is defined
where no `int` overflows (`NoOverflow`), and it copies the rectangle as if all pixels were moved at
once just when that order is right for it (`copies_iff_order`).
-/

namespace SortingLine.Fb

open Screen

/-! ### Half words -/

/-- A half word from its two bytes. -/
theorem halves (v : UInt16) : v.toUInt8.toUInt16 ||| (v >>> 8).toUInt8.toUInt16 <<< 8 = v := by
  have hv := v.toNat_lt
  have hlow : v.toNat % 256 < 2 ^ 8 := Nat.mod_lt _ (by decide)
  have hsum := Nat.shiftLeft_add_eq_or_of_lt hlow (v.toNat / 256)
  apply UInt16.toNat_inj.mp
  simp only [UInt16.toNat_or, UInt16.toNat_shiftLeft, UInt8.toNat_toUInt16, UInt16.toNat_toUInt8,
    UInt16.toNat_shiftRight, Nat.shiftRight_eq_div_pow, Nat.shiftLeft_eq, UInt16.reduceToNat,
    Nat.reduceMod, Nat.reducePow]
  rw [Nat.shiftLeft_eq] at hsum
  have hhigh : v.toNat / 256 % 256 * 256 % 65536 = v.toNat / 256 * 2 ^ 8 := by
    omega
  rw [hhigh, Nat.or_comm, ← hsum]
  omega

theorem rdFb16_wrFb16_self (a : ℤ) (v : UInt16) (m : Vram) : rdFb16 a (wrFb16 a v m) = v := by
  unfold rdFb16 wrFb16
  rw [if_pos rfl, if_neg (by omega), if_pos rfl, halves]

/-- Half words at different places do not overlap. -/
theorem rdFb16_wrFb16_of_ne {a b : ℤ} (ha : a % 2 = 0) (hb : b % 2 = 0) (hne : b ≠ a) (v : UInt16)
    (m : Vram) : rdFb16 b (wrFb16 a v m) = rdFb16 b m := by
  unfold rdFb16 wrFb16
  rw [if_neg hne, if_neg (by omega), if_neg (by omega), if_neg (by omega)]

theorem fbAddr_mod (fb : Screen) (x y : ℤ) : fb.fbAddr x y % 2 = 0 := by
  unfold fbAddr
  omega

/-- What the screen shows. -/
def picture (fb : Screen) (m : Vram) (p : ℤ × ℤ) : UInt16 :=
  if fb.InBound p.1 p.2 then rdFb16 (fb.fbAddr p.1 p.2) m else 0

/-- Any picture can be shown. -/
theorem exists_picture (fb : Screen) (s : ℤ × ℤ → UInt16) :
    ∃ m, ∀ p, fb.InBound p.1 p.2 → picture fb m p = s p := by
  let pixel (i : ℤ) : UInt16 := s (i % fb.xres, i / fb.xres)
  refine ⟨fun a => if a % 2 = 0 then (pixel (a / 2)).toUInt8 else (pixel (a / 2) >>> 8).toUInt8,
    fun p hp => ?_⟩
  obtain ⟨hx, hx', -, -⟩ := id hp
  have hpos : (fb.xres : ℤ) ≠ 0 := by omega
  have hplace : pixel (p.1 + p.2 * fb.xres) = s p := by
    have hmod : (p.1 + p.2 * fb.xres) % fb.xres = p.1 := by
      rw [Int.add_mul_emod_self_right, Int.emod_eq_of_lt hx hx']
    have hdiv : (p.1 + p.2 * fb.xres) / fb.xres = p.2 := by
      rw [Int.add_mul_ediv_right _ _ hpos, Int.ediv_eq_zero_of_lt hx hx', zero_add]
    exact congrArg s (Prod.ext hmod hdiv)
  have hmod := fbAddr_mod fb p.1 p.2
  have hlow : fb.fbAddr p.1 p.2 / 2 = p.1 + p.2 * fb.xres := by
    unfold fbAddr
    omega
  have hhigh : (fb.fbAddr p.1 p.2 + 1) / 2 = p.1 + p.2 * fb.xres := by
    unfold fbAddr
    omega
  rw [picture, if_pos hp, rdFb16, if_pos hmod, if_neg (by omega), hlow, hhigh, hplace, halves]

/-! ### Pixels -/

namespace Copy

variable (fb : Screen) (c : Copy)

/-- Where a pixel is copied to. -/
def shift (p : ℤ × ℤ) : ℤ × ℤ := (p.1 + (c.px - c.x1), p.2 + (c.py - c.y1))

/-- The source. -/
def rect : Set (ℤ × ℤ) := {p | c.x1 ≤ p.1 ∧ p.1 ≤ c.x2 ∧ c.y1 ≤ p.2 ∧ p.2 ≤ c.y2}

/-- A pixel and the one it is copied to are on the screen. -/
def Visible (p : ℤ × ℤ) : Prop :=
  fb.InBound p.1 p.2 ∧ fb.InBound (c.shift p).1 (c.shift p).2

instance (p : ℤ × ℤ) : Decidable (c.Visible fb p) := inferInstanceAs (Decidable (_ ∧ _))

/-- The pixels that are to be copied. -/
def source : Set (ℤ × ℤ) := {p | p ∈ c.rect ∧ c.Visible fb p}

/-- The pixels of `fb_copyrect_internal`, in order. -/
def points : List (ℤ × ℤ) :=
  (Int.range c.y1 (c.y2 + 1)).flatMap fun y =>
    ((Int.range c.x1 (c.x2 + 1)).map fun x => (x, y)).filter (c.Visible fb)

/-- A pixel is copied. -/
def copyPixel (m : Vram) (p : ℤ × ℤ) : Vram :=
  wrFb16 (fb.fbAddr (c.shift p).1 (c.shift p).2) (rdFb16 (fb.fbAddr p.1 p.2) m) m

/-- The arithmetic of `fb_copyrect_internal` stays within `int`. -/
def Fits : Prop :=
  InInt (c.px - c.x1) ∧ InInt (c.py - c.y1) ∧
    ∀ y, c.y1 ≤ y → y ≤ c.y2 →
      (0 ≤ y ∧ y < fb.yres → InInt (y + (c.py - c.y1)) ∧
        (0 ≤ y + (c.py - c.y1) ∧ y + (c.py - c.y1) < fb.yres →
          ∀ x, c.x1 ≤ x → x ≤ c.x2 →
            (0 ≤ x ∧ x < fb.xres → InInt (x + (c.px - c.x1))) ∧ InInt (x + 1))) ∧
      InInt (y + 1)

variable {fb c}

/-- To the picture, it is a move. -/
theorem picture_copyPixel {p : ℤ × ℤ} (hp : c.Visible fb p) (m : Vram) :
    picture fb (c.copyPixel fb m p) =
      Function.update (picture fb m) (c.shift p) (picture fb m p) := by
  funext q
  by_cases heq : q = c.shift p
  · rw [heq, Function.update_self, picture, if_pos hp.2, copyPixel, rdFb16_wrFb16_self, picture,
      if_pos hp.1]
  · rw [Function.update_of_ne heq, picture, picture]
    split_ifs with hq
    · refine rdFb16_wrFb16_of_ne (fbAddr_mod fb _ _) (fbAddr_mod fb _ _) (fun haddr => heq ?_) _ m
      obtain ⟨h1, h2⟩ := fbAddr_inj hq hp.2 haddr
      exact Prod.ext h1 h2
    · rfl

theorem copyPixel_changesOnly {p : ℤ × ℤ} (hp : c.Visible fb p) (m : Vram) :
    ChangesOnly fb Set.univ m (c.copyPixel fb m p) := by
  intro a ha
  unfold copyPixel wrFb16
  rw [if_neg fun h => ha ⟨_, Set.mem_univ _, hp.2, .inl h⟩,
    if_neg fun h => ha ⟨_, Set.mem_univ _, hp.2, .inr h⟩]

theorem mem_points {p : ℤ × ℤ} : p ∈ c.points fb ↔ p ∈ c.rect ∧ c.Visible fb p := by
  simp only [points, List.mem_flatMap, List.mem_filter, List.mem_map, Int.mem_range_iff,
    decide_eq_true_eq, rect, Set.mem_ofPred_eq]
  constructor
  · rintro ⟨y, hy, ⟨x, hx, rfl⟩, hvis⟩
    exact ⟨⟨by omega, by omega, by omega, by omega⟩, hvis⟩
  · rintro ⟨⟨hx, hx', hy, hy'⟩, hvis⟩
    exact ⟨p.2, ⟨hy, by omega⟩, ⟨p.1, ⟨hx, by omega⟩, rfl⟩, hvis⟩

/-! ### A strip -/

/-- A row of a strip. -/
def copyRow (fb : Screen) (c : Copy) (m : Vram) (y : ℤ) : Vram :=
  (Int.range c.x1 (c.x2 + 1)).foldl
    (fun m x => if c.Visible fb (x, y) then c.copyPixel fb m (x, y) else m) m

theorem foldl_points (m : Vram) :
    (c.points fb).foldl (c.copyPixel fb) m =
      (Int.range c.y1 (c.y2 + 1)).foldl (c.copyRow fb) m := by
  rw [points, List.foldl_flatMap]
  congr 1
  funext m y
  rw [List.foldl_filter, List.foldl_map]
  simp only [decide_eq_true_eq, copyRow]

/-- A row that is not on the screen, or not copied to it, is left out. -/
theorem copyRow_of_hidden {y : ℤ} (h : ¬ ((0 ≤ y ∧ y < fb.yres) ∧
    0 ≤ y + (c.py - c.y1) ∧ y + (c.py - c.y1) < fb.yres)) (m : Vram) : c.copyRow fb m y = m := by
  apply List.foldl_fixed'
  intro x
  apply if_neg
  rintro ⟨⟨-, -, hy, hy'⟩, -, -, hz, hz'⟩
  exact h ⟨⟨hy, hy'⟩, hz, hz'⟩

/-- The loop over a row. -/
theorem forLoop_row {y : ℤ} (hy : 0 ≤ y ∧ y < fb.yres)
    (hz : 0 ≤ y + (c.py - c.y1) ∧ y + (c.py - c.y1) < fb.yres) (m m' : Vram) :
    forLoop c.x1 c.x2 (fun x m =>
        if x < 0 ∨ fb.xres ≤ x then some m
        else do
          let x' ← checked (x + (c.px - c.x1))
          if x' < 0 ∨ fb.xres ≤ x' then some m
          else some (wrFb16 (fb.fbAddr x' (y + (c.py - c.y1))) (rdFb16 (fb.fbAddr x y) m) m)) m =
        some m' ↔
      (∀ x, c.x1 ≤ x → x ≤ c.x2 →
        (0 ≤ x ∧ x < fb.xres → InInt (x + (c.px - c.x1))) ∧ InInt (x + 1)) ∧
        c.copyRow fb m y = m' := by
  apply forLoop_eq_some_iff
  intro x m m'
  by_cases hx : 0 ≤ x ∧ x < fb.xres
  · rw [if_neg (by omega), bind_checked_eq_some, imp_iff_right hx]
    refine and_congr_right fun _ => ?_
    by_cases hw : 0 ≤ x + (c.px - c.x1) ∧ x + (c.px - c.x1) < fb.xres
    · have hvis : c.Visible fb (x, y) := ⟨⟨hx.1, hx.2, hy⟩, ⟨hw.1, hw.2, hz⟩⟩
      rw [if_neg (by omega), if_pos hvis, Option.some_inj]
      rfl
    · have hvis : ¬ c.Visible fb (x, y) := fun h => hw ⟨h.2.1, h.2.2.1⟩
      rw [if_pos (by omega), if_neg hvis, Option.some_inj]
  · have hvis : ¬ c.Visible fb (x, y) := fun h => hx ⟨h.1.1, h.1.2.1⟩
    rw [if_pos (by omega), if_neg hvis, Option.some_inj,
      and_iff_right fun h => absurd h hx]

/-- `fb_copyrect_internal` copies the pixels in order. -/
theorem fbCopyrectInternal_eq_some_iff {m m' : Vram} :
    fbCopyrectInternal fb c m = some m' ↔
      c.Fits fb ∧ (c.points fb).foldl (c.copyPixel fb) m = m' := by
  rw [foldl_points]
  simp only [fbCopyrectInternal, bind_checked_eq_some, Fits, and_assoc]
  refine and_congr_right fun _ => and_congr_right fun _ => ?_
  apply forLoop_eq_some_iff
  intro y m m'
  by_cases hy : 0 ≤ y ∧ y < fb.yres
  · rw [if_neg (by omega), bind_checked_eq_some, imp_iff_right hy, and_assoc]
    refine and_congr_right fun _ => ?_
    by_cases hz : 0 ≤ y + (c.py - c.y1) ∧ y + (c.py - c.y1) < fb.yres
    · rw [if_neg (by omega), imp_iff_right hz]
      exact forLoop_row hy hz m m'
    · rw [if_pos (by omega), copyRow_of_hidden (fun h => hz h.2), Option.some_inj,
        and_iff_right fun h => absurd h hz]
  · rw [if_pos (by omega), copyRow_of_hidden (fun h => hy h.1), Option.some_inj,
      and_iff_right fun h => absurd h hy]

end Copy

/-! ### The strips -/

/-- The strips of a branch where nothing overflows. -/
def strips (c : Copy) (x2' y2' : ℤ) : Direction → List Copy
  | .same => []
  | .down =>
    [⟨c.x1, c.py, c.x2, c.y2, c.px, c.py * 2 - c.y1⟩, ⟨c.x1, c.y1, c.x2, c.py - 1, c.px, c.py⟩]
  | .up =>
    [⟨c.x1, c.y1, c.x2, y2', c.px, c.py⟩,
      ⟨c.x1, y2' - 1, c.x2, c.y2, c.px, c.py - c.y1 + y2' + -1⟩]
  | .right =>
    [⟨c.px, c.y1, c.x2, c.y2, c.px * 2 - c.x1, c.py⟩, ⟨c.x1, c.y1, c.px - 1, c.y2, c.px, c.py⟩]
  | .left =>
    [⟨c.x1, c.y1, x2', c.y2, c.px, c.py⟩,
      ⟨x2' + 1, c.y1, c.x2, c.y2, c.px - c.x1 + x2' + 1, c.py⟩]
  | .rightDown =>
    [⟨c.px, c.py, c.x2, c.y2, c.px * 2 - c.x1, c.py * 2 - c.y1⟩,
      ⟨c.x1, c.py, c.px - 1, c.y2, c.px, c.py * 2 - c.y1⟩,
      ⟨c.x1, c.y1, c.x2, c.py - 1, c.px, c.py⟩]
  | .rightUp =>
    [⟨c.px, c.y1, c.x2, y2', c.px * 2 - c.x1, c.py⟩, ⟨c.x1, c.y1, c.px - 1, y2', c.px, c.py⟩,
      ⟨c.x1, y2' + 1, c.x2, c.y2, c.px, c.py - c.y1 + y2' + 1⟩]
  | .leftUp =>
    [⟨c.x1, c.y1, x2', y2', c.px, c.py⟩,
      ⟨x2' + 1, c.y1, c.x2, y2', c.px - c.x1 + x2' + 1, c.py⟩,
      ⟨c.x1, y2' + 1, c.x2, c.y2, c.px, c.py - c.y1 + y2' + 1⟩]
  | .leftDown =>
    [⟨c.x1, c.py, x2', c.y2, c.px, c.py * 2 - c.y1⟩,
      ⟨x2' + 1, c.py, c.x2, c.y2, c.px - c.x1 + x2' + 1, c.py * 2 - c.y1⟩,
      ⟨c.x1, c.y1, c.x2, c.py - 1, c.px, c.py⟩]
  | .apart => [c]

theorem bind_addSub_eq_some {α : Type} {u v w : ℤ} {k : ℤ → Option α} {a : α} :
    (addSub u v w >>= k) = some a ↔ InInt (u + v) ∧ InInt (u + v - w) ∧ k (u + v - w) = some a := by
  rw [addSub, bind_assoc, bind_checked_eq_some, bind_checked_eq_some]

theorem bind_twiceSub_eq_some {α : Type} {p v : ℤ} {k : ℤ → Option α} {a : α} :
    (twiceSub p v >>= k) = some a ↔ InInt (p * 2) ∧ InInt (p * 2 - v) ∧ k (p * 2 - v) = some a := by
  rw [twiceSub, bind_assoc, bind_checked_eq_some, bind_checked_eq_some]

theorem bind_subAdd_eq_some {α : Type} {p v w d : ℤ} {k : ℤ → Option α} {a : α} :
    (subAdd p v w d >>= k) = some a ↔ InInt (p - v) ∧ InInt (p - v + w) ∧ InInt (p - v + w + d) ∧
      k (p - v + w + d) = some a := by
  rw [subAdd, bind_assoc, bind_checked_eq_some, bind_assoc, bind_checked_eq_some,
    bind_checked_eq_some]

theorem stripsOf_eq_some {c : Copy} {x2' y2' : ℤ} {d : Direction} {l : List Copy}
    (h : stripsOf c x2' y2' d = some l) : l = strips c x2' y2' d := by
  cases d
  all_goals
    simp only [stripsOf, bind_checked_eq_some, bind_twiceSub_eq_some, bind_subAdd_eq_some,
      Option.pure_def, Option.some.injEq] at h
    simp only [strips, h]
/-- All strips are copied by the same distance. -/
theorem strips_shift {c s : Copy} {x2' y2' : ℤ} {d : Direction} (hs : s ∈ strips c x2' y2' d) :
    s.shift = c.shift := by
  have hall : ∀ s ∈ strips c x2' y2' d, s.px - s.x1 = c.px - c.x1 ∧ s.py - s.y1 = c.py - c.y1 := by
    cases d with
    | same => exact fun s hs => absurd hs List.not_mem_nil
    | apart => simp [strips]
    | _ =>
      simp only [strips, List.mem_cons, List.not_mem_nil, or_false, forall_eq_or_imp, forall_eq,
        true_and, and_true]
      omega
  obtain ⟨hdx, hdy⟩ := hall s hs
  funext p
  rw [Copy.shift, Copy.shift, hdx, hdy]

/-! ### The rectangle -/

/-- The branch that is taken, where `_x2` and `_y2` do not overflow. -/
def Copy.branch (c : Copy) : Direction :=
  direction c (c.px + c.x2 - c.x1) (c.py + c.y2 - c.y1)

/-- The strips of the branch that is taken. -/
def Copy.strips (c : Copy) : List Copy :=
  SortingLine.Fb.strips c (c.px + c.x2 - c.x1) (c.py + c.y2 - c.y1) c.branch

/-- The order in which `fb_copyrect` copies pixels. -/
def Copy.order (fb : Screen) (c : Copy) : List (ℤ × ℤ) := c.strips.flatMap (Copy.points fb)

/-- The arithmetic of `fb_copyrect` stays within `int`. -/
def NoOverflow (fb : Screen) (c : Copy) : Prop :=
  ∃ l, copyrectStrips c = some l ∧ ∀ s ∈ l, s.Fits fb

/-- The rectangle is copied as if all its pixels were moved at once, for every content of the frame
buffer; nothing outside of the screen is changed. -/
def Copies (fb : Screen) (c : Copy) : Prop :=
  ∀ m, ∃ m', fbCopyrect fb c m = some m' ∧
    Simultaneous c.shift (c.source fb) (picture fb m) (picture fb m') ∧
      ChangesOnly fb Set.univ m m'

variable {fb : Screen} {c : Copy}

theorem copyrectStrips_eq_some {l : List Copy} (h : copyrectStrips c = some l) : l = c.strips := by
  rw [copyrectStrips, bind_addSub_eq_some, bind_addSub_eq_some] at h
  exact stripsOf_eq_some h.2.2.2.2

/-- Strip after strip. -/
theorem foldlM_strips {l : List Copy} {m m' : Vram} :
    l.foldlM (fun m s => fbCopyrectInternal fb s m) m = some m' ↔
      (∀ s ∈ l, s.Fits fb) ∧
        l.foldl (fun m s => (s.points fb).foldl (s.copyPixel fb) m) m = m' := by
  induction l generalizing m with
  | nil => simp
  | cons s l ih =>
    simp only [List.foldlM_cons, Option.bind_eq_bind, Option.bind_eq_some_iff,
      Copy.fbCopyrectInternal_eq_some_iff, ih, List.forall_mem_cons, List.foldl_cons]
    constructor
    · rintro ⟨_, ⟨hs, rfl⟩, hl, heq⟩
      exact ⟨⟨hs, hl⟩, heq⟩
    · rintro ⟨⟨hs, hl⟩, heq⟩
      exact ⟨_, ⟨hs, rfl⟩, hl, heq⟩

/-- What `fb_copyrect` does, if it does not overflow. -/
theorem fbCopyrect_eq_some_iff {m m' : Vram} :
    fbCopyrect fb c m = some m' ↔
      NoOverflow fb c ∧ (c.order fb).foldl (c.copyPixel fb) m = m' := by
  have hfold : c.strips.foldl (fun m s => (s.points fb).foldl (s.copyPixel fb) m) m =
      (c.order fb).foldl (c.copyPixel fb) m := by
    rw [Copy.order, List.foldl_flatMap]
    refine List.foldl_ext _ _ _ fun m s hs => ?_
    have hpixel : s.copyPixel fb = c.copyPixel fb := by
      funext m p
      rw [Copy.copyPixel, Copy.copyPixel, strips_shift hs]
    rw [hpixel]
  simp only [fbCopyrect, Option.bind_eq_bind, Option.bind_eq_some_iff, foldlM_strips, NoOverflow]
  constructor
  · rintro ⟨l, hl, hfits, heq⟩
    obtain rfl := copyrectStrips_eq_some hl
    exact ⟨⟨_, hl, hfits⟩, hfold ▸ heq⟩
  · rintro ⟨⟨l, hl, hfits⟩, heq⟩
    obtain rfl := copyrectStrips_eq_some hl
    exact ⟨_, hl, hfits, hfold ▸ heq⟩

/-- All pixels of the order are visible. -/
theorem visible_of_mem_order {p : ℤ × ℤ} (hp : p ∈ c.order fb) : c.Visible fb p := by
  obtain ⟨s, hs, hp⟩ := List.mem_flatMap.mp hp
  have hvis := (Copy.mem_points.mp hp).2
  rwa [Copy.Visible, strips_shift hs] at hvis

/-- What the pixels show after the moves. -/
theorem picture_foldl {l : List (ℤ × ℤ)} (hl : ∀ p ∈ l, c.Visible fb p) (m : Vram) :
    picture fb (l.foldl (c.copyPixel fb) m) = moves c.shift l (picture fb m) := by
  induction l generalizing m with
  | nil => rfl
  | cons p l ih =>
    rw [List.forall_mem_cons] at hl
    rw [List.foldl_cons, ih hl.2, Copy.picture_copyPixel hl.1]
    rfl

/-- The rectangle is copied right when the moves are, for every picture. -/
theorem copies_iff : Copies fb c ↔ NoOverflow fb c ∧
    ∀ s : ℤ × ℤ → UInt16, Simultaneous c.shift (c.source fb) s (moves c.shift (c.order fb) s) := by
  have hvis : ∀ p ∈ c.order fb, c.Visible fb p := fun p hp => visible_of_mem_order hp
  constructor
  · intro h
    refine ⟨?_, fun s => ?_⟩
    · obtain ⟨m', hm', -⟩ := h fun _ => 0
      exact (fbCopyrect_eq_some_iff.mp hm').1
    · obtain ⟨m, hm⟩ := exists_picture fb s
      obtain ⟨m', hm', hsim, -⟩ := h m
      obtain ⟨-, rfl⟩ := fbCopyrect_eq_some_iff.mp hm'
      rw [picture_foldl hvis] at hsim
      exact simultaneous_congr (A := {p : ℤ × ℤ | fb.InBound p.1 p.2}) hvis hm
        (fun p hp => hp.2) hsim
  · rintro ⟨hfits, hsim⟩ m
    refine ⟨_, fbCopyrect_eq_some_iff.mpr ⟨hfits, rfl⟩, ?_, ?_⟩
    · rw [picture_foldl hvis]
      exact hsim _
    · exact .foldl (fun p hp m => Copy.copyPixel_changesOnly (hvis p hp) m) m

theorem shift_injective (c : Copy) : Function.Injective c.shift := by
  intro p q h
  simp only [Copy.shift, Prod.mk.injEq, add_left_inj] at h
  exact Prod.ext h.1 h.2

/-- Unless the destination is the source, what matters is the order of the pixels. -/
theorem copies_iff_order (hne : ¬ (c.px = c.x1 ∧ c.py = c.y1)) :
    Copies fb c ↔ NoOverflow fb c ∧ (∀ p, p ∈ c.order fb ↔ p ∈ c.source fb) ∧
      (c.order fb).Pairwise fun p q => c.shift p ≠ q := by
  -- the way along the shift grows
  have hgrows : ∀ p : ℤ × ℤ, p.1 * (c.px - c.x1) + p.2 * (c.py - c.y1) <
      (c.shift p).1 * (c.px - c.x1) + (c.shift p).2 * (c.py - c.y1) := by
    intro p
    have hpos : 0 < (c.px - c.x1) * (c.px - c.x1) + (c.py - c.y1) * (c.py - c.y1) := by
      rcases not_and_or.mp hne with hx | hy
      · have := mul_self_pos.mpr (sub_ne_zero.mpr hx)
        have := mul_self_nonneg (c.py - c.y1)
        omega
      · have := mul_self_pos.mpr (sub_ne_zero.mpr hy)
        have := mul_self_nonneg (c.px - c.x1)
        omega
    simp only [Copy.shift, add_mul]
    omega
  rw [copies_iff, simultaneous_iff hgrows (shift_injective c) (a := 1) (b := 0) (by decide)]

end SortingLine.Fb
