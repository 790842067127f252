import SortingLine.Library.Bytes

/-!
# Where the bytes of a file come from

A file is written at offsets, and loses its tail when the power fails.  A `Provenance ι` says for
every byte which of the writes `ι` it comes from; `none` stands for a byte that no such write put
there.  It is a history value: `Describes` ties it to the bytes of the file, and is kept by a write
(`Describes.write`), by a write that is not recorded (`Describes.erase`) and by the loss of a tail
(`Describes.cut`).
-/

namespace SortingLine

/-- For every byte, the write it comes from. -/
abbrev Provenance (ι : Type*) : Type _ := Nat → Option ι

namespace Provenance

variable {ι : Type*}

/-- No byte comes from a write. -/
def empty : Provenance ι := fun _ => none

/-- After a write of `len` bytes at offset `off`. -/
def write (o : Provenance ι) (off len : Nat) (w : Option ι) : Provenance ι :=
  fun k => if off ≤ k ∧ k < off + len then w else o k

/-- After the loss of all but the first `n` bytes. -/
def cut (o : Provenance ι) (n : Nat) : Provenance ι := fun k => if k < n then o k else none

/-- The bytes of `b` are those of the writes named by `o`; the write `w` puts `data w` at offset
`off w`. -/
def Describes (off : ι → Nat) (data : ι → List UInt8) (o : Provenance ι) (b : List UInt8) : Prop :=
  ∀ k w, o k = some w → k < b.length ∧ off w ≤ k ∧ b.getD k 0 = (data w).getD (k - off w) 0

variable {off : ι → Nat} {data : ι → List UInt8} {o : Provenance ι} {b : List UInt8}

/-- What is known of a byte after a loss was known before. -/
theorem of_cut {n k : Nat} {w : ι} (h : o.cut n k = some w) : k < n ∧ o k = some w := by
  unfold Provenance.cut at h
  split_ifs at h with hk
  exact ⟨hk, h⟩

theorem describes_empty : Describes off data empty b := fun _ _ h => by cases h

/-- A write. -/
theorem Describes.write (h : Describes off data o b) (w : ι) :
    Describes off data (o.write (off w) (data w).length (some w)) (patch b (off w) (data w)) := by
  intro k w' hk
  rw [length_patch, getD_patch]
  unfold Provenance.write at hk
  split_ifs at hk ⊢ with hin
  · obtain rfl := Option.some.inj hk
    exact ⟨by omega, hin.1, rfl⟩
  · obtain ⟨hlt, hle, hb⟩ := h k w' hk
    exact ⟨by omega, hle, hb⟩

/-- A write that is not recorded. -/
theorem Describes.erase (h : Describes off data o b) (j : Nat) (src : List UInt8) :
    Describes off data (o.write j src.length none) (patch b j src) := by
  intro k w' hk
  rw [length_patch, getD_patch]
  unfold Provenance.write at hk
  split_ifs at hk ⊢ with hin
  obtain ⟨hlt, hle, hb⟩ := h k w' hk
  exact ⟨by omega, hle, hb⟩

/-- The loss of a tail. -/
theorem Describes.cut (h : Describes off data o b) (n : Nat) :
    Describes off data (o.cut n) (b.take n) := by
  intro k w' hk
  unfold Provenance.cut at hk
  split_ifs at hk with hn
  obtain ⟨hlt, hle, hb⟩ := h k w' hk
  refine ⟨by rw [List.length_take]; omega, hle, ?_⟩
  rw [← hb]
  simp [List.getD_eq_getElem?_getD, hn]

end Provenance

end SortingLine
