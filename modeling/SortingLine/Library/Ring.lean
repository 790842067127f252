import Mathlib.Data.List.Basic
import Mathlib.Data.Nat.ModEq
import Mathlib.Logic.Function.Basic

/-!
# Ring buffers that keep the newest elements

A buffer of `n` slots with a count, a head (the oldest element) and a tail (the next free slot).
`enqueue` always writes all it is given, over the oldest elements when there is no room, and then
moves the head behind what it has overwritten; `dequeue` takes from the head.

While `enqueue` writes, the count may pass `n`, so the loop runs on a `RingData`, which promises
nothing; a `Ring` carries the invariant.  `RingData.Represents` relates both to the list they stand
for, of which a buffer can show the last `n` elements:

* `Ring.toList_enqueue`: the list becomes the last `n` elements of the old one with the new behind.
* `Ring.fst_dequeue`, `Ring.toList_dequeue`: the list loses its first elements, which are returned.
-/

namespace SortingLine

variable {α : Type*} {n : ℕ}

/-- The fields of a ring buffer of `n` slots. -/
structure RingData (α : Type*) (n : ℕ) where
  buf : Fin n → α
  count : ℕ
  head : Fin n
  tail : Fin n

namespace RingData

/-- The slot after `i`, around the end. -/
def next (i : Fin n) : Fin n :=
  if h : i.val + 1 < n then ⟨i.val + 1, h⟩ else ⟨0, i.pos⟩

/-- The slot `k` places after `i`. -/
def slot (i : Fin n) (k : ℕ) : Fin n := ⟨(i.val + k) % n, Nat.mod_lt _ i.pos⟩

/-- Write at the tail. -/
def put (d : RingData α n) (a : α) : RingData α n :=
  { d with buf := Function.update d.buf d.tail a, count := d.count + 1, tail := next d.tail }

/-- After an overflow the oldest element is the one at the tail. -/
def trim (d : RingData α n) : RingData α n :=
  if n < d.count then { d with count := n, head := d.tail } else d

/-- Take `k` elements from the head. -/
def take (d : RingData α n) : ℕ → List α × RingData α n
  | 0 => ([], d)
  | k + 1 =>
    let r := take { d with count := d.count - 1, head := next d.head } k
    (d.buf d.head :: r.1, r.2)

/-- `d` stands for the list `as`, of which it holds the last `n` elements. -/
structure Represents (d : RingData α n) (as : List α) : Prop where
  count_eq : d.count = as.length
  tail_eq : d.tail = slot d.head as.length
  buf_eq : ∀ i (hi : i < as.length), as.length ≤ i + n → d.buf (slot d.head i) = as[i]

/-! ### Slots -/

@[simp]
theorem slot_zero (i : Fin n) : slot i 0 = i := by
  apply Fin.ext
  exact Nat.mod_eq_of_lt i.isLt

theorem next_eq_slot (i : Fin n) : next i = slot i 1 := by
  unfold next slot
  split_ifs with h
  · exact Fin.ext (Nat.mod_eq_of_lt h).symm
  · have hn : i.val + 1 = n := by omega
    apply Fin.ext
    show 0 = (i.val + 1) % n
    rw [hn, Nat.mod_self]

@[simp]
theorem slot_slot (i : Fin n) (j k : ℕ) : slot (slot i j) k = slot i (j + k) := by
  apply Fin.ext
  show ((i.val + j) % n + k) % n = (i.val + (j + k)) % n
  rw [Nat.mod_add_mod, Nat.add_assoc]

/-- Going once around comes back to the same slot. -/
theorem slot_add_self (i : Fin n) (k : ℕ) : slot i (k + n) = slot i k := by
  apply Fin.ext
  show (i.val + (k + n)) % n = (i.val + k) % n
  rw [← Nat.add_assoc, Nat.add_mod_right]

/-- Less than once around is another slot. -/
theorem slot_ne_slot {i : Fin n} {j k : ℕ} (hjk : j < k) (hkj : k < j + n) :
    slot i j ≠ slot i k := by
  intro h
  have hmod : (i.val + j) % n = (i.val + k) % n := congrArg Fin.val h
  have hdvd : n ∣ k - j := by
    have := (Nat.modEq_iff_dvd' (by omega : i.val + j ≤ i.val + k)).mp hmod
    rwa [Nat.add_sub_add_left] at this
  have := Nat.le_of_dvd (by omega) hdvd
  omega

/-! ### What the operations do to the list -/

variable {d : RingData α n} {as : List α}

theorem Represents.put (h : d.Represents as) (a : α) : (d.put a).Represents (as ++ [a]) where
  count_eq := by
    rw [List.length_append, List.length_singleton, ← h.count_eq]
    rfl
  tail_eq := by
    show next d.tail = slot d.head (as ++ [a]).length
    rw [h.tail_eq, next_eq_slot, slot_slot, List.length_append, List.length_singleton]
  buf_eq := by
    intro i hi hn
    simp only [List.length_append, List.length_singleton] at hi hn
    show Function.update d.buf d.tail a (slot d.head i) = _
    rcases Nat.lt_succ_iff_lt_or_eq.mp hi with hlt | rfl
    · -- An older element, which the write has not reached.
      rw [h.tail_eq, Function.update_of_ne (slot_ne_slot hlt (by omega)),
        List.getElem_append_left hlt]
      exact h.buf_eq i hlt (by omega)
    · rw [h.tail_eq, Function.update_self, List.getElem_concat_length rfl]

theorem Represents.foldl_put (h : d.Represents as) (bs : List α) :
    (bs.foldl RingData.put d).Represents (as ++ bs) := by
  induction bs generalizing d as with
  | nil => simpa using h
  | cons b bs ih => simpa using ih (h.put b)

theorem Represents.trim (h : d.Represents as) :
    d.trim.Represents (as.drop (as.length - n)) := by
  unfold RingData.trim
  split_ifs with hn
  · have hlen : n ≤ as.length := h.count_eq ▸ Nat.le_of_lt hn
    have hdrop : (as.drop (as.length - n)).length = n := by
      rw [List.length_drop]
      omega
    refine ⟨hdrop.symm, ?_, ?_⟩
    · show d.tail = slot d.tail _
      rw [hdrop]
      simpa using (slot_add_self d.tail 0).symm
    · intro i hi _
      -- From the tail, `i` slots on is where element `length - n + i` was written.
      show d.buf (slot d.tail i) = _
      have hslot : slot d.tail i = slot d.head (as.length - n + i) := by
        rw [h.tail_eq, slot_slot, ← slot_add_self d.head (as.length - n + i)]
        congr 1
        omega
      rw [hslot, List.getElem_drop]
      exact h.buf_eq _ (by omega) (by omega)
  · have hlen : as.length - n = 0 := by
      have := h.count_eq
      omega
    rw [hlen, List.drop_zero]
    exact h

theorem Represents.take (h : d.Represents as) (hn : as.length ≤ n) {k : ℕ} (hk : k ≤ as.length) :
    (d.take k).1 = as.take k ∧ (d.take k).2.Represents (as.drop k) := by
  induction k generalizing d as with
  | zero => exact ⟨by rw [List.take_zero]; rfl, h⟩
  | succ k ih =>
    obtain ⟨a, as, rfl⟩ := List.exists_cons_of_length_pos (by omega : 0 < as.length)
    rw [List.length_cons] at hn hk
    have hhead : d.buf d.head = a := by
      have := h.buf_eq 0 (by simp) (by simpa using hn)
      rwa [slot_zero] at this
    have htail : RingData.Represents
        { d with count := d.count - 1, head := next d.head } as := by
      refine ⟨?_, ?_, ?_⟩
      · have := h.count_eq
        rw [List.length_cons] at this
        simp [this]
      · have := h.tail_eq
        rw [List.length_cons, Nat.add_comm] at this
        simp [next_eq_slot, this]
      · intro i hi _
        have := h.buf_eq (i + 1) (by simpa using hi) (by simp only [List.length_cons]; omega)
        simpa [next_eq_slot, Nat.add_comm] using this
    obtain ⟨hfst, hsnd⟩ := ih htail (by omega) (by omega)
    refine ⟨?_, hsnd⟩
    show d.buf d.head :: _ = _
    rw [hhead, hfst, List.take_succ_cons]

end RingData

/-- A ring buffer of `n` slots, the oldest element at the head. -/
structure Ring (α : Type*) (n : ℕ) extends RingData α n where
  count_le : count ≤ n
  tail_eq : tail = RingData.slot head count

namespace Ring

open RingData (slot Represents)

/-- What the buffer holds, oldest first. -/
def toList (r : Ring α n) : List α := (List.range r.count).map fun i => r.buf (slot r.head i)

@[simp]
theorem length_toList (r : Ring α n) : r.toList.length = r.count := by simp [toList]

theorem length_toList_le (r : Ring α n) : r.toList.length ≤ n := by
  rw [length_toList]
  exact r.count_le

theorem represents_toList (r : Ring α n) : r.Represents r.toList where
  count_eq := r.length_toList.symm
  tail_eq := by rw [length_toList, r.tail_eq]
  buf_eq := by simp [toList]

/-- A buffer represents one list of at most `n` elements. -/
theorem toList_eq_of_represents {r : Ring α n} {as : List α} (h : r.Represents as)
    (hn : as.length ≤ n) : r.toList = as := by
  apply List.ext_getElem
  · rw [length_toList, h.count_eq]
  · intro i _ hi
    simpa [toList] using h.buf_eq i hi (by omega)

/-- The ring with these fields. -/
def ofRepresents {d : RingData α n} {as : List α} (h : d.Represents as) (hn : as.length ≤ n) :
    Ring α n :=
  { d with
    count_le := h.count_eq ▸ hn
    tail_eq := h.count_eq ▸ h.tail_eq }

theorem toList_ofRepresents {d : RingData α n} {as : List α} (h : d.Represents as)
    (hn : as.length ≤ n) : (ofRepresents h hn).toList = as :=
  toList_eq_of_represents (r := ofRepresents h hn) h hn

/-- Empty the buffer; the slots keep what they hold. -/
def clear [NeZero n] (d : RingData α n) : Ring α n where
  buf := d.buf
  count := 0
  head := 0
  tail := 0
  count_le := Nat.zero_le n
  tail_eq := (RingData.slot_zero 0).symm

@[simp]
theorem count_clear [NeZero n] (d : RingData α n) : (clear d).count = 0 := rfl

@[simp]
theorem toList_clear [NeZero n] (d : RingData α n) : (clear d).toList = [] := rfl

private theorem length_newest_le (as : List α) (n : ℕ) : (as.drop (as.length - n)).length ≤ n := by
  rw [List.length_drop]
  omega

private theorem length_drop_le {as : List α} (h : as.length ≤ n) (k : ℕ) :
    (as.drop k).length ≤ n := by
  rw [List.length_drop]
  omega

/-- Write `as`, over the oldest elements if there is no room. -/
def enqueue (r : Ring α n) (as : List α) : Ring α n :=
  ofRepresents (d := (as.foldl RingData.put r.toRingData).trim)
    (r.represents_toList.foldl_put as).trim (length_newest_le _ n)

private theorem min_le_length (r : Ring α n) (k : ℕ) : min k r.count ≤ r.toList.length := by
  rw [length_toList]
  exact Nat.min_le_right k r.count

/-- Take up to `k` of the oldest elements. -/
def dequeue (r : Ring α n) (k : ℕ) : List α × Ring α n :=
  ((r.take (min k r.count)).1,
    ofRepresents (d := (r.take (min k r.count)).2)
      (r.represents_toList.take r.length_toList_le (r.min_le_length k)).2
      (length_drop_le r.length_toList_le _))

/-- **Keep the newest**: the last `n` of the old elements followed by the new ones. -/
theorem toList_enqueue (r : Ring α n) (as : List α) :
    (r.enqueue as).toList = (r.toList ++ as).drop ((r.toList ++ as).length - n) :=
  toList_ofRepresents _ _

/-- With room for all of them, the new elements go behind the old ones. -/
theorem toList_enqueue_of_le {r : Ring α n} {as : List α} (h : r.count + as.length ≤ n) :
    (r.enqueue as).toList = r.toList ++ as := by
  have hlen : (r.toList ++ as).length - n = 0 := by
    rw [List.length_append, length_toList]
    omega
  rw [toList_enqueue, hlen, List.drop_zero]

theorem count_enqueue (r : Ring α n) (as : List α) :
    (r.enqueue as).count = min (r.count + as.length) n := by
  rw [← length_toList, toList_enqueue, List.length_drop, List.length_append, length_toList]
  omega

/-- **First in, first out**: what is taken is the front of the list. -/
theorem fst_dequeue (r : Ring α n) (k : ℕ) : (r.dequeue k).1 = r.toList.take k := by
  have h := (r.represents_toList.take r.length_toList_le (r.min_le_length k)).1
  rw [← length_toList, ← List.take_eq_take_min] at h
  rw [← h, length_toList]
  rfl

theorem toList_dequeue (r : Ring α n) (k : ℕ) : (r.dequeue k).2.toList = r.toList.drop k := by
  have h : (r.dequeue k).2.toList = r.toList.drop (min k r.count) :=
    toList_ofRepresents
      (r.represents_toList.take r.length_toList_le (r.min_le_length k)).2
      (length_drop_le r.length_toList_le _)
  rw [h, ← length_toList, ← List.drop_eq_drop_min]

end Ring

end SortingLine
