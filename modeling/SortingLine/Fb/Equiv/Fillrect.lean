import Mathlib.Data.List.Induction
import Mathlib.Data.List.Nodup
import Mathlib.Order.Interval.Set.UnorderedInterval
import Mathlib.Tactic.IntervalCases
import SortingLine.Fb.Fillrect
import SortingLine.Library.Loop

/-!
# Filling is clipping

The pixels of the screen do not share bytes (`pixelAddr_inj`), so a loop over pixels, each of them
once, paints each of them once (`foldl_paintsOnce`).  `fb_fillrect` moves the corners of a rectangle
to the screen; that is the intersection with the screen if there is one, and a piece of an edge of
the screen otherwise.
-/

namespace SortingLine.Fb

open Screen

variable {xor : Bool} {bs : List UInt8} {p : ℤ} {m : Vram}

/-! ### Bytes -/

/-- What a byte becomes. -/
def mix (xor : Bool) (v old : UInt8) : UInt8 := if xor then old ^^^ v else v

theorem putBytes_of_lt_or_le {a : ℤ} (h : a < p ∨ p + bs.length ≤ a) :
    putBytes xor bs p m a = m a := by
  induction bs generalizing p m with
  | nil => rfl
  | cons v bs ih =>
    rw [List.length_cons] at h
    rw [putBytes, ih (by omega), putByte, if_neg (by omega)]

theorem putBytes_add {i : ℕ} (hi : i < bs.length) :
    putBytes xor bs p m (p + i) = mix xor bs[i] (m (p + i)) := by
  induction bs generalizing p m i with
  | nil => exact absurd hi (Nat.not_lt_zero i)
  | cons v bs ih =>
    cases i with
    | zero =>
      rw [putBytes, putBytes_of_lt_or_le (.inl (by omega)), putByte, if_pos (by simp)]
      rfl
    | succ i =>
      have hnext : p + ((i + 1 : ℕ) : ℤ) = p + 1 + i := by omega
      rw [putBytes, hnext, ih (by simpa using hi), putByte, if_neg (by omega)]
      rfl

theorem length_pixelBytes {n : ℕ} (hpos : 0 < n) (hle : n ≤ 4) (color : UInt32) :
    (pixelBytes n color).length = n := by
  interval_cases n
  all_goals rfl

/-! ### Pixels -/

variable {fb : PixelFb} {color : UInt32}

/-- The first byte of a pixel. -/
def pixelAddr (fb : PixelFb) (p : ℤ × ℤ) : ℤ := fb.lineAddr p.2 + p.1 * fb.bytesPerPixel

/-- Pixels of the screen do not share bytes. -/
theorem pixelAddr_inj {p q : ℤ × ℤ} (hp : fb.InBound p.1 p.2) (hq : fb.InBound q.1 q.2) {i j : ℕ}
    (hi : i < fb.bytesPerPixel) (hj : j < fb.bytesPerPixel)
    (h : pixelAddr fb p + i = pixelAddr fb q + j) : p = q := by
  have haddr (r : ℤ × ℤ) : pixelAddr fb r = (r.1 + r.2 * fb.xres) * fb.bytesPerPixel := by
    unfold pixelAddr PixelFb.lineAddr
    ring
  rw [haddr, haddr] at h
  -- The number of the pixel is the quotient.
  have hquot (u : ℤ) {k : ℕ} (hk : k < fb.bytesPerPixel) :
      (u * fb.bytesPerPixel + k) / fb.bytesPerPixel = u := by
    rw [add_comm, Int.add_mul_ediv_right _ _ (by omega),
      Int.ediv_eq_zero_of_lt (by omega) (by omega), zero_add]
  have hnum : p.1 + p.2 * fb.xres = q.1 + q.2 * fb.xres := by
    rw [← hquot (p.1 + p.2 * fb.xres) hi, h, hquot _ hj]
  obtain ⟨hx, hy⟩ := fbAddr_inj hp hq (show fb.fbAddr p.1 p.2 = fb.fbAddr q.1 q.2 by
    unfold fbAddr
    rw [hnum])
  exact Prod.ext hx hy

theorem fbSetPixelInternal_add {loc : ℤ} {i : ℕ} {v : UInt8}
    (h : (pixelBytes fb.bytesPerPixel color)[i]? = some v) :
    fbSetPixelInternal fb loc xor color m (loc + i) = mix xor v (m (loc + i)) := by
  obtain ⟨hi, rfl⟩ := List.getElem?_eq_some_iff.mp h
  exact putBytes_add hi

theorem fbSetPixelInternal_of_ne {loc a : ℤ} (h : ∀ i : ℕ, i < fb.bytesPerPixel → a ≠ loc + i) :
    fbSetPixelInternal fb loc xor color m a = m a := by
  have hlen := length_pixelBytes fb.bytesPerPixel_pos fb.bytesPerPixel_le color
  apply putBytes_of_lt_or_le
  by_contra hin
  push Not at hin
  exact h (a - loc).toNat (by omega) (by omega)

/-- The bytes of each pixel of a set are mixed with the colour once, and nothing else is written. -/
structure PaintsOnce (fb : PixelFb) (S : Set (ℤ × ℤ)) (xor : Bool) (color : UInt32) (m m' : Vram) :
    Prop where
  painted : ∀ p ∈ S, ∀ (i : ℕ) (v : UInt8), (pixelBytes fb.bytesPerPixel color)[i]? = some v →
    m' (pixelAddr fb p + i) = mix xor v (m (pixelAddr fb p + i))
  kept : ∀ a, (∀ p ∈ S, ∀ i : ℕ, i < fb.bytesPerPixel → a ≠ pixelAddr fb p + i) → m' a = m a

/-- One more pixel. -/
theorem PaintsOnce.insert {S : Set (ℤ × ℤ)} {m' : Vram} (h : PaintsOnce fb S xor color m m')
    (hS : ∀ p ∈ S, fb.InBound p.1 p.2) {q : ℤ × ℤ} (hq : fb.InBound q.1 q.2) (hqS : q ∉ S) :
    PaintsOnce fb (Insert.insert q S) xor color m
      (fbSetPixelInternal fb (pixelAddr fb q) xor color m') where
  painted p hp i v hv := by
    have hlen := length_pixelBytes fb.bytesPerPixel_pos fb.bytesPerPixel_le color
    have hi : i < fb.bytesPerPixel := by
      obtain ⟨hi, -⟩ := List.getElem?_eq_some_iff.mp hv
      omega
    rcases hp with rfl | hp
    · have hkept : m' (pixelAddr fb p + i) = m (pixelAddr fb p + i) :=
        h.kept _ fun p' hp' j hj heq => hqS (pixelAddr_inj hq (hS p' hp') hi hj heq ▸ hp')
      rw [fbSetPixelInternal_add hv, hkept]
    · have hne (j : ℕ) (hj : j < fb.bytesPerPixel) : pixelAddr fb p + i ≠ pixelAddr fb q + j := by
        intro heq
        exact hqS (pixelAddr_inj (hS p hp) hq hi hj heq ▸ hp)
      rw [fbSetPixelInternal_of_ne hne, h.painted p hp i v hv]
  kept a ha := by
    rw [fbSetPixelInternal_of_ne (ha q (.inl rfl)), h.kept a fun p hp => ha p (.inr hp)]

/-- A loop over pixels of the screen, each of them once. -/
theorem foldl_paintsOnce {l : List (ℤ × ℤ)} (hl : l.Nodup) (hin : ∀ p ∈ l, fb.InBound p.1 p.2)
    (m : Vram) : PaintsOnce fb {p | p ∈ l} xor color m
      (l.foldl (fun m p => fbSetPixelInternal fb (pixelAddr fb p) xor color m) m) := by
  induction l using List.reverseRecOn with
  | nil => exact ⟨fun p hp => absurd hp List.not_mem_nil, fun _ _ => rfl⟩
  | append_singleton l q ih =>
    obtain ⟨hl, -, hdisj⟩ := List.nodup_append.mp hl
    have hq : q ∉ l := fun hmem => hdisj q hmem q (List.mem_singleton_self q) rfl
    have hinl (p : ℤ × ℤ) (hp : p ∈ l) : fb.InBound p.1 p.2 := hin p (List.mem_append_left _ hp)
    have hset : {p | p ∈ l ++ [q]} = insert q {p | p ∈ l} := by
      ext p
      simp [or_comm]
    rw [List.foldl_append, hset]
    exact (ih hl hinl).insert hinl (hin q (by simp)) hq

/-! ### Clipping -/

theorem clampTo_eq {res : ℕ} (hres : 0 < res) (v : ℤ) :
    clampTo res v = max 0 (min v (res - 1)) := by
  simp only [clampTo]
  split_ifs
  all_goals omega

theorem ordered_eq (a b : ℤ) : (if b < a then (b, a) else (a, b)) = (min a b, max a b) := by
  split_ifs with h
  · rw [min_eq_right h.le, max_eq_left h.le]
  · rw [min_eq_left (not_lt.mp h), max_eq_right (not_lt.mp h)]

/-- The coordinates between two of them, moved to the screen. -/
def clamped (res : ℕ) (a b : ℤ) : List ℤ :=
  Int.range (clampTo res (min a b)) (clampTo res (max a b) + 1)

theorem clampTo_min_le_max {res : ℕ} (hres : 0 < res) (a b : ℤ) :
    clampTo res (min a b) ≤ clampTo res (max a b) := by
  rw [clampTo_eq hres, clampTo_eq hres]
  omega

/-- All of them are on the screen. -/
theorem of_mem_clamped {res : ℕ} (hres : 0 < res) {a b v : ℤ} (h : v ∈ clamped res a b) :
    0 ≤ v ∧ v < res := by
  rw [clamped, Int.mem_range_iff, clampTo_eq hres, clampTo_eq hres] at h
  omega

theorem exists_mem_clamped {res : ℕ} (hres : 0 < res) (a b : ℤ) : ∃ v, v ∈ clamped res a b := by
  refine ⟨clampTo res (min a b), Int.mem_range_iff.mpr ⟨le_rfl, ?_⟩⟩
  exact Int.lt_add_one_of_le (clampTo_min_le_max hres a b)

/-- Where there is something on the screen, moving the ends to it is clipping. -/
theorem mem_clamped_iff {res : ℕ} (hres : 0 < res) {a b : ℤ}
    (hmeet : ∃ v ∈ Set.uIcc a b, 0 ≤ v ∧ v < res) {v : ℤ} :
    v ∈ clamped res a b ↔ v ∈ Set.uIcc a b ∧ 0 ≤ v ∧ v < res := by
  obtain ⟨w, hw, hw0, hwres⟩ := hmeet
  rw [Set.mem_uIcc] at hw
  rw [clamped, Int.mem_range_iff, clampTo_eq hres, clampTo_eq hres, Set.mem_uIcc]
  omega

/-- The pixels of `fb_fillrect`, as it goes over them. -/
def fillPixels (fb : PixelFb) (x1 y1 x2 y2 : ℤ) : List (ℤ × ℤ) :=
  (clamped fb.yres y1 y2).flatMap fun y => (clamped fb.xres x1 x2).map fun x => (x, y)

theorem mem_fillPixels {x1 y1 x2 y2 : ℤ} {p : ℤ × ℤ} :
    p ∈ fillPixels fb x1 y1 x2 y2 ↔ p.1 ∈ clamped fb.xres x1 x2 ∧ p.2 ∈ clamped fb.yres y1 y2 := by
  simp only [fillPixels, List.mem_flatMap, List.mem_map]
  constructor
  · rintro ⟨y, hy, x, hx, rfl⟩
    exact ⟨hx, hy⟩
  · rintro ⟨hx, hy⟩
    exact ⟨p.2, hy, p.1, hx, rfl⟩

theorem inBound_of_mem_fillPixels {x1 y1 x2 y2 : ℤ} {p : ℤ × ℤ}
    (h : p ∈ fillPixels fb x1 y1 x2 y2) : fb.InBound p.1 p.2 := by
  obtain ⟨hx, hy⟩ := mem_fillPixels.mp h
  obtain ⟨hx, hx'⟩ := of_mem_clamped fb.xres_pos hx
  exact ⟨hx, hx', of_mem_clamped fb.yres_pos hy⟩

theorem nodup_fillPixels (fb : PixelFb) (x1 y1 x2 y2 : ℤ) : (fillPixels fb x1 y1 x2 y2).Nodup := by
  refine List.nodup_flatMap.mpr ⟨fun y _ => ?_, ?_⟩
  · exact (pairwise_lt_range _ _).nodup.map fun x x' hx => congrArg Prod.fst hx
  · refine (pairwise_lt_range _ _).imp fun {y y'} hlt p hp hp' => ?_
    obtain ⟨x, -, rfl⟩ := List.mem_map.mp hp
    obtain ⟨x', -, heq⟩ := List.mem_map.mp hp'
    exact hlt.ne' (congrArg Prod.snd heq)

/-- The bit of the colour index that asks for mixing. -/
def isXor (coloridx : UInt32) : Bool := coloridx &&& xormode != 0

/-- The colour of a colour index. -/
def PixelFb.colorOf (fb : PixelFb) (coloridx : UInt32) : UInt32 :=
  (fb.mColorMap (coloridx &&& ~~~xormode)).toUInt32

theorem fbFillrect_eq (fb : PixelFb) (x1 y1 x2 y2 : ℤ) (coloridx : UInt32) (m : Vram) :
    fbFillrect fb x1 y1 x2 y2 coloridx m = (fillPixels fb x1 y1 x2 y2).foldl (fun m p =>
      fbSetPixelInternal fb (pixelAddr fb p) (isXor coloridx) (fb.colorOf coloridx) m) m := by
  have hx := clampTo_min_le_max fb.xres_pos x1 x2
  have hy := clampTo_min_le_max fb.yres_pos y1 y2
  simp only [fbFillrect, ordered_eq]
  rw [if_neg (by omega), fillPixels, List.foldl_flatMap]
  refine congrArg (List.foldl · m _) (funext₂ fun m y => ?_)
  rw [List.foldl_map]
  refine congrArg (List.foldl · m _) (funext₂ fun m x => ?_)
  have haddr : fb.lineAddr y + clampTo fb.xres (min x1 x2) * fb.bytesPerPixel +
      (x - clampTo fb.xres (min x1 x2)) * fb.bytesPerPixel = pixelAddr fb (x, y) := by
    unfold pixelAddr
    ring
  rw [haddr]
  rfl

/-- The pixels between two corners. -/
def spanned (x1 y1 x2 y2 : ℤ) : Set (ℤ × ℤ) := Set.uIcc x1 x2 ×ˢ Set.uIcc y1 y2

/-- The pixels of a region that are on the screen. -/
def onScreen (fb : Screen) (B : Set (ℤ × ℤ)) : Set (ℤ × ℤ) := {p ∈ B | fb.InBound p.1 p.2}

/-- The rectangle is clipped to the screen and filled. -/
def FillsClipped (fb : PixelFb) (x1 y1 x2 y2 : ℤ) : Prop :=
  ∀ (coloridx : UInt32) (m : Vram), PaintsOnce fb (onScreen fb.toScreen (spanned x1 y1 x2 y2))
    (isXor coloridx) (fb.colorOf coloridx) m (fbFillrect fb x1 y1 x2 y2 coloridx m)

theorem fbFillrect_paintsOnce (fb : PixelFb) (x1 y1 x2 y2 : ℤ) (coloridx : UInt32) (m : Vram) :
    PaintsOnce fb {p | p ∈ fillPixels fb x1 y1 x2 y2} (isXor coloridx) (fb.colorOf coloridx) m
      (fbFillrect fb x1 y1 x2 y2 coloridx m) := by
  rw [fbFillrect_eq]
  exact foldl_paintsOnce (nodup_fillPixels fb x1 y1 x2 y2) (fun p => inBound_of_mem_fillPixels) m

/-- Some pixel is always filled. -/
theorem FillsClipped.nonempty {x1 y1 x2 y2 : ℤ} (h : FillsClipped fb x1 y1 x2 y2) :
    (onScreen fb.toScreen (spanned x1 y1 x2 y2)).Nonempty := by
  by_contra hempty
  rw [Set.not_nonempty_iff_eq_empty] at hempty
  obtain ⟨x, hx⟩ := exists_mem_clamped fb.xres_pos x1 x2
  obtain ⟨y, hy⟩ := exists_mem_clamped fb.yres_pos y1 y2
  -- Without mixing, the first byte of the colour is written over something else.
  have hlen := length_pixelBytes fb.bytesPerPixel_pos fb.bytesPerPixel_le (fb.colorOf 0)
  have hpos := fb.bytesPerPixel_pos
  have hv := List.getElem?_eq_getElem (l := pixelBytes fb.bytesPerPixel (fb.colorOf 0)) (i := 0)
    (by omega)
  set v := (pixelBytes fb.bytesPerPixel (fb.colorOf 0))[0]
  have hpainted := (fbFillrect_paintsOnce fb x1 y1 x2 y2 0 fun _ => v + 1).painted (x, y)
    (mem_fillPixels.mpr ⟨hx, hy⟩) 0 v hv
  have hkept := (h 0 fun _ => v + 1).kept (pixelAddr fb (x, y) + (0 : ℕ))
    (hempty ▸ fun p hp => absurd hp (Set.notMem_empty p))
  have heq : v = v + 1 := hpainted.symm.trans hkept
  have htoNat := congrArg UInt8.toNat heq
  have hlt := v.toNat_lt
  rw [UInt8.toNat_add, UInt8.toNat_one] at htoNat
  omega

/-- A rectangle that is partly on the screen is clipped. -/
theorem fillPixels_eq_onScreen {x1 y1 x2 y2 : ℤ}
    (h : (onScreen fb.toScreen (spanned x1 y1 x2 y2)).Nonempty) :
    {p | p ∈ fillPixels fb x1 y1 x2 y2} = onScreen fb.toScreen (spanned x1 y1 x2 y2) := by
  obtain ⟨q, ⟨hqx, hqy⟩, hx, hx', hy, hy'⟩ := h
  ext p
  rw [Set.mem_ofPred_eq, mem_fillPixels, mem_clamped_iff fb.xres_pos ⟨q.1, hqx, hx, hx'⟩,
    mem_clamped_iff fb.yres_pos ⟨q.2, hqy, hy, hy'⟩]
  constructor
  · rintro ⟨⟨hpx, hpx0, hpx'⟩, hpy, hpy0, hpy'⟩
    exact ⟨⟨hpx, hpy⟩, hpx0, hpx', hpy0, hpy'⟩
  · rintro ⟨⟨hpx, hpy⟩, hpx0, hpx', hpy0, hpy'⟩
    exact ⟨⟨hpx, hpx0, hpx'⟩, hpy, hpy0, hpy'⟩

/-- **Filling clips** to the screen the rectangles that are partly on it; of another one it fills
what the edges of the screen are nearest to. -/
theorem fillsClipped_iff (fb : PixelFb) (x1 y1 x2 y2 : ℤ) :
    FillsClipped fb x1 y1 x2 y2 ↔ (onScreen fb.toScreen (spanned x1 y1 x2 y2)).Nonempty := by
  refine ⟨FillsClipped.nonempty, fun h coloridx m => ?_⟩
  rw [← fillPixels_eq_onScreen h]
  exact fbFillrect_paintsOnce fb x1 y1 x2 y2 coloridx m

/-- The screen of the sorting line, red. -/
def lcd16 : PixelFb where
  toScreen := lcd
  bytesPerPixel := 2
  bytesPerPixel_pos := by decide
  bytesPerPixel_le := by decide
  mColorMap _ := 0xF800

/-- Five pixels to the left of the screen. -/
theorem not_fillsClipped_left : ¬ FillsClipped lcd16 (-5) 0 (-1) 0 := by
  intro h
  obtain ⟨p, ⟨hpx, -⟩, hx, -⟩ := h.nonempty
  rw [Set.mem_uIcc] at hpx
  omega

end SortingLine.Fb
