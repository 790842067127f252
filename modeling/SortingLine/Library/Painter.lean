import Mathlib.Data.Set.Basic

/-!
# Painters

A painter gives the points of one set one value and leaves all others alone (`Paints`).  Painters of
one value compose to a painter of the union.  What is drawn, erased and drawn anew leaves no residue
in a region when all that was drawn in it is erased (`Paints.redraw`), and a painter within a region
leaves the outside alone (`Paints.outside`).
-/

namespace SortingLine

variable {P C : Type*} {c b : C} {A B E I : Set P} {f g h : (P → C) → P → C}

/-- `f` gives the points of `A` the value `c`, and leaves all others. -/
structure Paints (A : Set P) (c : C) (f : (P → C) → P → C) : Prop where
  inside : ∀ s, ∀ p ∈ A, f s p = c
  outside : ∀ s, ∀ p ∉ A, f s p = s p

namespace Paints

theorem id (c : C) : Paints (∅ : Set P) c fun s => s :=
  ⟨fun _ p hp => absurd hp (Set.notMem_empty p), fun _ _ _ => rfl⟩

/-- One painter after the other, of the same value. -/
theorem comp (hf : Paints A c f) (hg : Paints B c g) : Paints (A ∪ B) c fun s => g (f s) := by
  refine ⟨fun s p hp => ?_, fun s p hp => ?_⟩
  · by_cases hB : p ∈ B
    · exact hg.inside _ p hB
    · rw [hg.outside _ p hB]
      exact hf.inside s p (hp.resolve_right hB)
  · rw [hg.outside _ p fun hB => hp (Or.inr hB), hf.outside s p fun hA => hp (Or.inl hA)]

/-- Where two pictures agree, they do so after the same painter. -/
theorem agree (hf : Paints A c f) {s s' : P → C} {p : P} (hs : s p = s' p) : f s p = f s' p := by
  by_cases hA : p ∈ A
  · rw [hf.inside s p hA, hf.inside s' p hA]
  · rw [hf.outside s p hA, hf.outside s' p hA, hs]

/-- **No residue**: a region that showed what `f` draws on a plain ground, and in which `g` erases
all of that, shows what `h` draws on the ground when `h` is done. -/
theorem redraw (hf : Paints A c f) (hg : Paints E b g) (hh : Paints B c h)
    (hAE : ∀ p ∈ I, p ∈ A → p ∈ E) {s : P → C} (hs : ∀ p ∈ I, s p = f (fun _ => b) p) :
    ∀ p ∈ I, h (g s) p = h (fun _ => b) p := by
  intro p hp
  apply hh.agree
  by_cases hE : p ∈ E
  · exact hg.inside s p hE
  · rw [hg.outside s p hE, hs p hp, hf.outside _ p fun hA => hE (hAE p hp hA)]

end Paints

end SortingLine
