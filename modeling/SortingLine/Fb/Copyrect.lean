import SortingLine.Fb.Screen
import SortingLine.Library.Loop

/-!
# Copying a rectangle

`fb_copyrect` and `fb_copyrect_internal` of `ls1x_fb_utils.c`, which take the same arguments: the
corners of the source and the corner of the destination.  Arithmetic of `int` that overflows has no
result.
-/

namespace SortingLine.Fb

/-- The arguments. -/
structure Copy where
  x1 : ℤ
  y1 : ℤ
  x2 : ℤ
  y2 : ℤ
  px : ℤ
  py : ℤ

/-- `fb_copyrect_internal` -/
def fbCopyrectInternal (fb : Screen) (c : Copy) (m : Vram) : Option Vram := do
  let dx ← checked (c.px - c.x1)
  let dy ← checked (c.py - c.y1)
  forLoop c.y1 c.y2 (fun y m =>
    if y < 0 ∨ fb.yres ≤ y then some m
    else do
      let y' ← checked (y + dy)
      if y' < 0 ∨ fb.yres ≤ y' then some m
      else
        forLoop c.x1 c.x2 (fun x m =>
          if x < 0 ∨ fb.xres ≤ x then some m
          else do
            let x' ← checked (x + dx)
            if x' < 0 ∨ fb.xres ≤ x' then some m
            else
              let color := rdFb16 (fb.fbAddr x y) m
              some (wrFb16 (fb.fbAddr x' y') color m)) m) m

/-- `u + v - w` -/
def addSub (u v w : ℤ) : Option ℤ := do
  let s ← checked (u + v)
  checked (s - w)

/-- `p * 2 - v` -/
def twiceSub (p v : ℤ) : Option ℤ := do
  let s ← checked (p * 2)
  checked (s - v)

/-- `p - v + w + 1`, or with `- 1` at the end. -/
def subAdd (p v w step : ℤ) : Option ℤ := do
  let s ← checked (p - v)
  let s ← checked (s + w)
  checked (s + step)

/-- How the destination lies to the source: the branches of `fb_copyrect`. -/
inductive Direction
  | same
  | down
  | up
  | right
  | left
  | rightDown
  | rightUp
  | leftUp
  | leftDown
  | apart

/-- The conditions of the branches, in order; `x2'` and `y2'` are `_x2` and `_y2`. -/
def direction (c : Copy) (x2' y2' : ℤ) : Direction :=
  if c.px = c.x1 ∧ c.py = c.y1 then .same
  else if c.px = c.x1 ∧ c.y1 < c.py ∧ c.py ≤ c.y2 then .down
  else if c.px = c.x1 ∧ c.py < c.y1 ∧ c.y1 ≤ y2' then .up
  else if c.py = c.y1 ∧ c.x1 < c.px ∧ c.px ≤ c.x2 then .right
  else if c.py = c.y1 ∧ c.px < c.x1 ∧ c.x1 ≤ x2' then .left
  else if (c.x1 < c.px ∧ c.px ≤ c.x2) ∧ c.y1 < c.py ∧ c.py ≤ c.y2 then .rightDown
  else if (c.x1 < c.px ∧ c.px ≤ c.x2) ∧ c.y1 ≤ y2' ∧ y2' < c.y2 then .rightUp
  else if (c.x1 ≤ x2' ∧ x2' < c.x2) ∧ c.y1 ≤ y2' ∧ y2' < c.y2 then .leftUp
  else if (c.x1 ≤ x2' ∧ x2' < c.x2) ∧ c.y1 < c.py ∧ c.py ≤ c.y2 then .leftDown
  else .apart

/-- The strips that a branch copies, in order. -/
def stripsOf (c : Copy) (x2' y2' : ℤ) : Direction → Option (List Copy)
  | .same => return []
  | .down => do
    return [⟨c.x1, c.py, c.x2, c.y2, c.px, ← twiceSub c.py c.y1⟩,
      ⟨c.x1, c.y1, c.x2, ← checked (c.py - 1), c.px, c.py⟩]
  | .up => do
    return [⟨c.x1, c.y1, c.x2, y2', c.px, c.py⟩,
      ⟨c.x1, ← checked (y2' - 1), c.x2, c.y2, c.px, ← subAdd c.py c.y1 y2' (-1)⟩]
  | .right => do
    return [⟨c.px, c.y1, c.x2, c.y2, ← twiceSub c.px c.x1, c.py⟩,
      ⟨c.x1, c.y1, ← checked (c.px - 1), c.y2, c.px, c.py⟩]
  | .left => do
    return [⟨c.x1, c.y1, x2', c.y2, c.px, c.py⟩,
      ⟨← checked (x2' + 1), c.y1, c.x2, c.y2, ← subAdd c.px c.x1 x2' 1, c.py⟩]
  | .rightDown => do
    return [⟨c.px, c.py, c.x2, c.y2, ← twiceSub c.px c.x1, ← twiceSub c.py c.y1⟩,
      ⟨c.x1, c.py, ← checked (c.px - 1), c.y2, c.px, ← twiceSub c.py c.y1⟩,
      ⟨c.x1, c.y1, c.x2, ← checked (c.py - 1), c.px, c.py⟩]
  | .rightUp => do
    return [⟨c.px, c.y1, c.x2, y2', ← twiceSub c.px c.x1, c.py⟩,
      ⟨c.x1, c.y1, ← checked (c.px - 1), y2', c.px, c.py⟩,
      ⟨c.x1, ← checked (y2' + 1), c.x2, c.y2, c.px, ← subAdd c.py c.y1 y2' 1⟩]
  | .leftUp => do
    return [⟨c.x1, c.y1, x2', y2', c.px, c.py⟩,
      ⟨← checked (x2' + 1), c.y1, c.x2, y2', ← subAdd c.px c.x1 x2' 1, c.py⟩,
      ⟨c.x1, ← checked (y2' + 1), c.x2, c.y2, c.px, ← subAdd c.py c.y1 y2' 1⟩]
  | .leftDown => do
    return [⟨c.x1, c.py, x2', c.y2, c.px, ← twiceSub c.py c.y1⟩,
      ⟨← checked (x2' + 1), c.py, c.x2, c.y2, ← subAdd c.px c.x1 x2' 1, ← twiceSub c.py c.y1⟩,
      ⟨c.x1, c.y1, c.x2, ← checked (c.py - 1), c.px, c.py⟩]
  | .apart => return [c]

/-- The strips that `fb_copyrect` copies. -/
def copyrectStrips (c : Copy) : Option (List Copy) := do
  let x2' ← addSub c.px c.x2 c.x1
  let y2' ← addSub c.py c.y2 c.y1
  stripsOf c x2' y2' (direction c x2' y2')

/-- `fb_copyrect` -/
def fbCopyrect (fb : Screen) (c : Copy) (m : Vram) : Option Vram := do
  let strips ← copyrectStrips c
  strips.foldlM (fun m strip => fbCopyrectInternal fb strip m) m

end SortingLine.Fb
