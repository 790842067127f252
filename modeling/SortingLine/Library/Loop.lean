import Mathlib.Algebra.Order.Group.Int
import Mathlib.Data.Int.Range
import SortingLine.Library.CInt

/-!
# Loops of C

One round of a `while` is a step that may fail, that may find the loop at its end, or that goes on
with a new state.  `loop step n` makes at most `n` rounds.  The rule is that of total correctness:
an invariant that no round fails from, and a measure that every round makes smaller.

`forLoop` counts an `int` up.  Where it is only the counter that decides if the body is defined, the
loop is a fold over the numbers it runs through (`forLoop_eq`); the counter must not overflow after
the last round either.
-/

namespace SortingLine

variable {σ : Type*}

/-- The state in which the test ends the loop, if that is within `n` rounds and none fails. -/
def loop (step : σ → Option (Option σ)) : ℕ → σ → Option σ
  | n, s =>
    match step s with
    | none => none
    | some none => some s
    | some (some s') =>
      match n with
      | 0 => none
      | n + 1 => loop step n s'

/-- **Loop rule**. -/
theorem loop_eq_some {step : σ → Option (Option σ)} {I : σ → Prop} {μ : σ → ℕ}
    (hstep : ∀ s, I s → ∃ r, step s = some r ∧ ∀ s', r = some s' → I s' ∧ μ s' < μ s) :
    ∀ (n : ℕ) (s : σ), I s → μ s ≤ n →
      ∃ s', loop step n s = some s' ∧ I s' ∧ step s' = some none := by
  intro n
  induction n with
  | zero =>
    intro s hs hn
    obtain ⟨r, hr, hnext⟩ := hstep s hs
    cases r with
    | none => exact ⟨s, by simp only [loop, hr], hs, hr⟩
    | some s' =>
      have hlt := (hnext s' rfl).2
      omega
  | succ n ih =>
    intro s hs hn
    obtain ⟨r, hr, hnext⟩ := hstep s hs
    cases r with
    | none => exact ⟨s, by simp only [loop, hr], hs, hr⟩
    | some s' =>
      obtain ⟨hs', hlt⟩ := hnext s' rfl
      obtain ⟨s'', hloop, h⟩ := ih s' hs' (by omega)
      exact ⟨s'', by simp only [loop, hr, hloop], h⟩

/-! ### Counting -/

/-- `n` rounds, from `v` on. -/
def countUp (body : ℤ → σ → Option σ) : ℕ → ℤ → σ → Option σ
  | 0, _, s => some s
  | n + 1, v, s => (body v s).bind fun s => (checked (v + 1)).bind fun v => countUp body n v s

/-- `for (v = lo; v <= hi; v++)` -/
def forLoop (lo hi : ℤ) (body : ℤ → σ → Option σ) (s : σ) : Option σ :=
  countUp body (hi + 1 - lo).toNat lo s

/-- The numbers from `v` on begin with `v`. -/
theorem range_succ (v : ℤ) (n : ℕ) :
    Int.range v (v + (n + 1 : ℕ)) = v :: Int.range (v + 1) (v + 1 + n) := by
  unfold Int.range
  rw [show (v + (n + 1 : ℕ) - v).toNat = n + 1 by omega,
    show (v + 1 + (n : ℤ) - (v + 1)).toNat = n by omega, List.range_succ_eq_map, List.map_cons,
    List.map_map]
  refine congr (congrArg _ (by simp)) (List.map_congr_left fun i _ => ?_)
  simp only [Function.comp_apply]
  omega

/-- A loop counts up. -/
theorem pairwise_lt_range (a b : ℤ) : (Int.range a b).Pairwise (· < ·) := by
  refine List.Pairwise.map _ (fun i j hij => ?_) List.pairwise_lt_range
  exact add_lt_add_right (Int.ofNat_lt.mpr hij) a

variable {body : ℤ → σ → Option σ} {D : ℤ → Prop} {g : σ → ℤ → σ}

theorem countUp_eq_some_iff (hbody : ∀ v s s', body v s = some s' ↔ D v ∧ g s v = s') :
    ∀ (n : ℕ) (v : ℤ) (s s' : σ), countUp body n v s = some s' ↔
      (∀ w, v ≤ w → w < v + n → D w ∧ InInt (w + 1)) ∧
        (Int.range v (v + n)).foldl g s = s' := by
  intro n
  induction n with
  | zero =>
    intro v s s'
    have hempty : Int.range v (v + (0 : ℕ)) = [] := by simp [Int.range]
    rw [hempty, and_iff_right fun w hw hlt => by omega]
    exact Option.some_inj
  | succ n ih =>
    intro v s s'
    rw [range_succ, List.foldl_cons]
    simp only [countUp, Option.bind_eq_some_iff, hbody, checked_eq_some_iff]
    constructor
    · rintro ⟨_, ⟨hD, rfl⟩, _, ⟨hint, rfl⟩, hrest⟩
      obtain ⟨hall, heq⟩ := (ih _ _ _).mp hrest
      refine ⟨fun w hw hlt => ?_, heq⟩
      rcases hw.eq_or_lt with rfl | hw
      · exact ⟨hD, hint⟩
      · exact hall w (by omega) (by omega)
    · rintro ⟨hall, heq⟩
      obtain ⟨hD, hint⟩ := hall v le_rfl (by omega)
      exact ⟨_, ⟨hD, rfl⟩, _, ⟨hint, rfl⟩,
        (ih _ _ _).mpr ⟨fun w hw hlt => hall w (by omega) (by omega), heq⟩⟩

/-- **Counting** from `lo` to `hi`. -/
theorem forLoop_eq_some_iff (hbody : ∀ v s s', body v s = some s' ↔ D v ∧ g s v = s')
    {lo hi : ℤ} {s s' : σ} :
    forLoop lo hi body s = some s' ↔
      (∀ v, lo ≤ v → v ≤ hi → D v ∧ InInt (v + 1)) ∧
        (Int.range lo (hi + 1)).foldl g s = s' := by
  have hrange : Int.range lo (lo + (hi + 1 - lo).toNat) = Int.range lo (hi + 1) := by
    unfold Int.range
    rw [show (lo + ((hi + 1 - lo).toNat : ℤ) - lo).toNat = (hi + 1 - lo).toNat by omega]
  rw [forLoop, countUp_eq_some_iff hbody, hrange]
  refine and_congr_left fun _ => forall₂_congr fun v hv => ?_
  exact imp_congr_left (by omega)

end SortingLine
