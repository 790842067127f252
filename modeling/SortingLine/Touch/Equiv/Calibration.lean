import Mathlib.Algebra.Order.Ring.Abs
import SortingLine.Touch.Calibration

/-!
# The calibration that is applied

The affine map of seven coefficients, with both components taken from the raw point (`idealX`,
`idealY`), is what `perform_calibration` checks.  `CALIBRATE_TOUCH_VALUES` sets `_x` to the first
component and then uses `_x` in the second line, so its sum is off by `a4` times the distance that
the point was moved by.  It gives the affine map only where that does not change the quotient
(`Unmoved`).
-/

namespace SortingLine.Touch

variable (a : Fin 7 → Int32) (p : RawPoint)

/-! ### The affine map -/

/-- The sum of the first line. -/
def sumX : ℤ := (a 0).toInt + (a 1).toInt * p.x + (a 2).toInt * p.y

/-- The sum of the second line. -/
def sumY : ℤ := (a 3).toInt + (a 4).toInt * p.x + (a 5).toInt * p.y

/-- The first component. -/
def idealX : ℤ := (sumX a p).tdiv (a 6).toInt

/-- The second component. -/
def idealY : ℤ := (sumY a p).tdiv (a 6).toInt

/-- The point is replaced by both components. -/
def Replaces : Prop :=
  (p.calibrated a).1.toInt = idealX a p ∧ (p.calibrated a).2.toInt = idealY a p

/-- Where the check does not overflow, the touch task computes the same. -/
def AgreesWithCheck : Prop :=
  ∀ v, checkPoint a p = some v → ((p.calibrated a).1.toInt, (p.calibrated a).2.toInt) = v

/-- Moving the raw `x` to where the first line puts it leaves the second sum in the cell of its
quotient, up to the multiples of `2 ^ 32` that the assignment drops. -/
def Unmoved : Prop :=
  ∃ k : ℤ, InCell (a 6).toInt (idealY a p + k * 4294967296)
    (sumY a p + (a 4).toInt * (idealX a p - p.x))

variable {a p}

/-! ### The sums of `int64_t` -/

private theorem abs_toInt_le (c : Int32) : |c.toInt| ≤ 2147483648 := by
  obtain ⟨hle, hge⟩ := inInt_toInt c
  exact abs_le.mpr ⟨hle, by omega⟩

/-- A coefficient times a coordinate. -/
private theorem abs_toInt_mul_le (c : Int32) {v n : ℤ} (hv : |v| ≤ n) :
    |c.toInt * v| ≤ 2147483648 * n :=
  calc |c.toInt * v| = |c.toInt| * |v| := abs_mul _ _
    _ ≤ 2147483648 * |v| := mul_le_mul_of_nonneg_right (abs_toInt_le c) (abs_nonneg v)
    _ ≤ 2147483648 * n := mul_le_mul_of_nonneg_left hv (by decide)

/-- No sum of either line overflows: `u` is the raw `x`, or what the first line has made of it. -/
theorem inInt64_sum (c₀ c₁ c₂ u : Int32) {y : ℕ} (hy : y < 4096) :
    InInt64 (c₀.toInt + c₁.toInt * u.toInt) ∧
      InInt64 (c₀.toInt + c₁.toInt * u.toInt + c₂.toInt * y) := by
  have h₀ := abs_le.mp (abs_toInt_le c₀)
  have h₁ := abs_le.mp (abs_toInt_mul_le c₁ (abs_toInt_le u))
  have h₃ : |(y : ℤ)| ≤ 4096 := abs_le.mpr ⟨by omega, by omega⟩
  have h₂ := abs_le.mp (abs_toInt_mul_le c₂ h₃)
  constructor
  all_goals
    unfold InInt64
    omega

/-! ### The check -/

theorem toInt_ofNat_of_lt {n : ℕ} (hn : n < 4096) : (Int32.ofNat n).toInt = n :=
  Int32.toInt_ofNat_of_lt (by omega)

/-- A line of the check computes its quotient exactly. -/
theorem checkLine_eq_some {c₁ c₂ c₀ c₆ x y v : ℤ} (h : checkLine c₁ c₂ c₀ c₆ x y = some v) :
    InInt v ∧ v = (c₀ + c₁ * x + c₂ * y).tdiv c₆ := by
  simp only [checkLine, Option.bind_eq_bind, Option.bind_eq_some_iff, checked_eq_some_iff] at h
  obtain ⟨_, ⟨-, rfl⟩, _, ⟨-, rfl⟩, _, ⟨-, rfl⟩, _, ⟨-, rfl⟩, h⟩ := h
  split_ifs at h
  obtain ⟨hv, rfl⟩ := checked_eq_some_iff.mp h
  refine ⟨hv, congrArg (Int.tdiv · c₆) ?_⟩
  ring

/-- So the check computes the affine map. -/
theorem checkPoint_eq_some {v : ℤ × ℤ} (h : checkPoint a p = some v) :
    InInt (idealX a p) ∧ InInt (idealY a p) ∧ v = (idealX a p, idealY a p) := by
  simp only [checkPoint, Option.bind_eq_bind, Option.bind_eq_some_iff, Option.some.injEq] at h
  obtain ⟨x, hx, y, hy, rfl⟩ := h
  obtain ⟨hxi, rfl⟩ := checkLine_eq_some hx
  obtain ⟨hyi, rfl⟩ := checkLine_eq_some hy
  exact ⟨hxi, hyi, rfl⟩

/-! ### The macro -/

/-- The two assignments. -/
theorem calibrated_eq (ha : 0 < a 6) :
    p.calibrated a = (Int32.ofInt (idealX a p),
      Int32.ofInt (((a 3).toInt + (a 4).toInt * (Int32.ofInt (idealX a p)).toInt +
        (a 5).toInt * p.y).tdiv (a 6).toInt)) := by
  simp only [RawPoint.calibrated, calibrateTouchValues, if_pos ha, toInt_ofNat_of_lt p.x_lt,
    toInt_ofNat_of_lt p.y_lt, idealX, sumX]

/-- The first component, where it is an `int`. -/
theorem calibrated_fst_eq_iff (ha : 0 < a 6) :
    (p.calibrated a).1.toInt = idealX a p ↔ InInt (idealX a p) := by
  rw [calibrated_eq ha]
  exact toInt_ofInt_eq_self_iff

/-- The second component, once the first is right. -/
theorem calibrated_snd_eq_iff (ha : 0 < a 6) (hx : InInt (idealX a p)) :
    (p.calibrated a).2.toInt = idealY a p ↔ InInt (idealY a p) ∧ Unmoved a p := by
  have hc : 0 < (a 6).toInt := Int32.lt_iff_toInt_lt.mp ha
  have hsum : (a 3).toInt + (a 4).toInt * idealX a p + (a 5).toInt * p.y =
      sumY a p + (a 4).toInt * (idealX a p - p.x) := by
    unfold sumY
    ring
  rw [calibrated_eq ha, toInt_ofInt_eq_self_iff.mpr hx, hsum, toInt_ofInt_eq_iff]
  simp only [tdiv_eq_iff hc, Unmoved]

theorem replaces_iff (ha : 0 < a 6) :
    Replaces a p ↔ InInt (idealX a p) ∧ InInt (idealY a p) ∧ Unmoved a p := by
  unfold Replaces
  rw [calibrated_fst_eq_iff ha]
  exact and_congr_right (calibrated_snd_eq_iff ha)

/-- Without a share of `x` in `y` (a panel that is not turned) the point is right. -/
theorem replaces_iff_of_eq_zero (ha : 0 < a 6) (h4 : a 4 = 0) :
    Replaces a p ↔ InInt (idealX a p) ∧ InInt (idealY a p) := by
  have hunmoved : Unmoved a p := by
    refine ⟨0, ?_⟩
    have hzero : (a 4).toInt = 0 := by rw [h4]; rfl
    rw [hzero, zero_mul, zero_mul, add_zero, add_zero]
    exact inCell_tdiv (Int32.lt_iff_toInt_lt.mp ha) _
  rw [replaces_iff ha, and_iff_left hunmoved]

/-- What the macro makes of a point is what the affine map gives when both quotients are of 32 bits
and `Unmoved` holds; where the check gives a value, `Unmoved` is all that is needed. -/
theorem calibration_applied_iff (ha : 0 < a 6) :
    (Replaces a p ↔ InInt (idealX a p) ∧ InInt (idealY a p) ∧ Unmoved a p) ∧
      (AgreesWithCheck a p ↔ ((checkPoint a p).isSome → Unmoved a p)) := by
  refine ⟨replaces_iff ha, ?_⟩
  constructor
  · intro h hsome
    obtain ⟨v, hv⟩ := Option.isSome_iff_exists.mp hsome
    obtain ⟨hx, hy, rfl⟩ := checkPoint_eq_some hv
    have heq := Prod.mk.inj (h _ hv)
    exact ((replaces_iff ha).mp heq).2.2
  · intro h v hv
    obtain ⟨hx, hy, rfl⟩ := checkPoint_eq_some hv
    obtain ⟨hfst, hsnd⟩ := (replaces_iff ha).mpr ⟨hx, hy, h (hv ▸ rfl)⟩
    rw [hfst, hsnd]

/-- A panel whose axes are exchanged, as `perform_calibration` scales it. -/
def turned (i : Fin 7) : Int32 := if i = 2 ∨ i = 4 ∨ i = 6 then 65535 else 0

theorem calibration_applied_iff_turned :
    0 < turned 6 ∧
      (Replaces turned ⟨100, 100, by decide, by decide⟩ ↔
        InInt (idealX turned ⟨100, 100, by decide, by decide⟩) ∧
          InInt (idealY turned ⟨100, 100, by decide, by decide⟩) ∧
            Unmoved turned ⟨100, 100, by decide, by decide⟩) :=
  ⟨by decide, (calibration_applied_iff (by decide)).1⟩

/-- The check gives `(200, 100)` for it, the touch task `(200, 200)`. -/
theorem not_calibration_applied :
    ¬ ∀ (a : Fin 7 → Int32) (p : RawPoint), 0 < a 6 → Replaces a p ∧ AgreesWithCheck a p := by
  intro h
  have hagree := (h turned ⟨100, 200, by decide, by decide⟩ (by decide)).2
  have heq := hagree (200, 100) (by decide)
  exact absurd heq (by decide)

end SortingLine.Touch
