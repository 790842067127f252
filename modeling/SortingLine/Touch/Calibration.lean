import SortingLine.Library.CInt
import SortingLine.Touch.Task

/-!
# The check of a calibration

At its end `perform_calibration` of `touch_utils.c` applies the seven coefficients to the reference
points, with `int` arithmetic, and prints what it gets.  The coefficients are then those that
`CALIBRATE_TOUCH_VALUES` applies to every touch.

The least squares before it, which are done with `float`, are not modelled.
-/

namespace SortingLine.Touch

/-- There are seven coefficients. -/
instance neZero_seven : NeZero 7 := ⟨by decide⟩

/-- A point as the controller reports it: the conversion has 12 bits. -/
structure RawPoint where
  x : ℕ
  y : ℕ
  x_lt : x < 4096
  y_lt : y < 4096

/-- The touch task calibrates a raw point. -/
def RawPoint.calibrated (p : RawPoint) (a : Fin 7 → Int32) : Int32 × Int32 :=
  calibrateTouchValues a (.ofNat p.x) (.ofNat p.y)

/-- One line of the check, `(c1 * x + c2 * y + c0) / c6`, unless it overflows. -/
def checkLine (c1 c2 c0 c6 x y : ℤ) : Option ℤ := do
  let u ← checked (c1 * x)
  let v ← checked (c2 * y)
  let w ← checked (u + v)
  let s ← checked (w + c0)
  if c6 = 0 then none else checked (s.tdiv c6)

/-- What `perform_calibration` computes for a point, before it is stored in a `float`. -/
def checkPoint (a : Fin 7 → Int32) (p : RawPoint) : Option (ℤ × ℤ) := do
  let c (i : Fin 7) : ℤ := (a i).toInt
  let x ← checkLine (c 1) (c 2) (c 0) (c 6) p.x p.y
  let y ← checkLine (c 4) (c 5) (c 3) (c 6) p.x p.y
  some (x, y)

end SortingLine.Touch
