import Mathlib.Algebra.Order.Ring.Int
import Mathlib.Tactic.Linarith

/-!
# The frame buffer

The memory from `smem_start` on, as `ls1x_fb_utils.c` reads and writes it.  The display modes have
16 bits per pixel, so a pixel is the half word at `FB_ADDR(x, y)`; the processor is little-endian.
-/

namespace SortingLine.Fb

/-- The bytes of the memory, by their distance from `smem_start`. -/
abbrev Vram := ℤ → UInt8

/-- The resolution, within what `LS1x_fb_parse_vgamode` accepts. -/
structure Screen where
  xres : ℕ
  yres : ℕ
  xres_pos : 0 < xres
  yres_pos : 0 < yres
  xres_le : xres ≤ 2000
  yres_le : yres ≤ 2000

/-- The screen of the sorting line. -/
def lcd : Screen := ⟨800, 480, by decide, by decide, by decide, by decide⟩

namespace Screen

variable (fb : Screen)

/-- `IN_BOUND` -/
def InBound (x y : ℤ) : Prop := 0 ≤ x ∧ x < fb.xres ∧ 0 ≤ y ∧ y < fb.yres

instance (x y : ℤ) : Decidable (fb.InBound x y) := inferInstanceAs (Decidable (_ ∧ _ ∧ _ ∧ _))

/-- `FB_ADDR` -/
def fbAddr (x y : ℤ) : ℤ := (x + y * fb.xres) * 2

end Screen

/-- `RD_FB16` -/
def rdFb16 (addr : ℤ) (m : Vram) : UInt16 := (m addr).toUInt16 ||| (m (addr + 1)).toUInt16 <<< 8

/-- `WR_FB16` -/
def wrFb16 (addr : ℤ) (v : UInt16) (m : Vram) : Vram := fun a =>
  if a = addr then v.toUInt8 else if a = addr + 1 then (v >>> 8).toUInt8 else m a

/-- `XORMODE` -/
def xormode : UInt32 := 0x80000000

/-- A point in a colour: with `XORMODE` the colour is mixed with what is there. -/
def wrPixel (xor : Bool) (color : UInt16) (ptr : ℤ) (m : Vram) : Vram :=
  wrFb16 ptr (if xor then color ^^^ rdFb16 ptr m else color) m

/-! ### Pixels -/

namespace Screen

variable {fb : Screen}

/-- The bytes of the pixels of a region, as far as they are on the screen. -/
def bytesOf (fb : Screen) (B : Set (ℤ × ℤ)) : Set ℤ :=
  {a | ∃ p ∈ B, fb.InBound p.1 p.2 ∧ (a = fb.fbAddr p.1 p.2 ∨ a = fb.fbAddr p.1 p.2 + 1)}

/-- Two pixels of the screen are at different places. -/
theorem fbAddr_inj {x y x' y' : ℤ} (h : fb.InBound x y) (h' : fb.InBound x' y')
    (ha : fb.fbAddr x y = fb.fbAddr x' y') : x = x' ∧ y = y' := by
  obtain ⟨hx, hx', -, -⟩ := h
  obtain ⟨hz, hz', -, -⟩ := h'
  have heq : x + y * fb.xres = x' + y' * fb.xres := by
    unfold fbAddr at ha
    omega
  have hpos : (0 : ℤ) < fb.xres := by omega
  have hmod : (x + y * fb.xres) % fb.xres = (x' + y' * fb.xres) % fb.xres := by rw [heq]
  rw [Int.add_mul_emod_self_right, Int.add_mul_emod_self_right, Int.emod_eq_of_lt hx hx',
    Int.emod_eq_of_lt hz hz'] at hmod
  subst hmod
  exact ⟨rfl, mul_right_cancel₀ hpos.ne' (by linarith)⟩

end Screen

/-- Writing a pixel changes its two bytes only. -/
theorem wrPixel_of_ne {xor : Bool} {color : UInt16} {ptr a : ℤ} {m : Vram} (h : a ≠ ptr)
    (h' : a ≠ ptr + 1) : wrPixel xor color ptr m a = m a := by
  unfold wrPixel wrFb16
  rw [if_neg h, if_neg h']

end SortingLine.Fb
