import Mathlib.Data.List.Perm.Subperm
import SortingLine.RtMq.Equiv.Linked

/-!
# Each slot is in one place

`Slots mq held queue free`: every slot of the pool is in the queue, or in the free list, or held by
one thread that copies a message to it or from it.  The critical sections move a slot from one place
to the next: from the free list to a sender (`Slots.takeFree`), from the sender into the queue
(`Slots.linkTail`, `Slots.linkHead`), from the queue to a receiver (`Slots.takeHead`), and from the
receiver to the free list (`Slots.giveFree`).
-/

namespace SortingLine.RtMessagequeue

variable {mq mq' : RtMessagequeue} {held : ℕ → Option ℕ} {queue free : List ℕ}
  {data : List UInt8} {msg t : ℕ}

/-- Every slot of the pool is in one place, and `entry` counts those in the queue. -/
structure Slots (mq : RtMessagequeue) (held : ℕ → Option ℕ) (queue free : List ℕ) : Prop where
  lists : mq.Lists queue free
  entry : mq.entry.toNat = queue.length
  place : ∀ i, i < mq.maxMsgs.toNat ↔ i ∈ queue ∨ i ∈ free ∨ ∃ t, held t = some i
  apart : ∀ t i, held t = some i → Apart i queue free
  single : ∀ t u i, held t = some i → held u = some i → t = u
  size : ∀ i < mq.maxMsgs.toNat, (mq.slot i).length = mq.msgSize

theorem exists_update_eq_some {x : Option ℕ} {i : ℕ} :
    (∃ u, Function.update held t x u = some i) ↔ x = some i ∨ ∃ u, u ≠ t ∧ held u = some i := by
  constructor
  · rintro ⟨u, hu⟩
    rw [Function.update_apply] at hu
    split_ifs at hu with h
    · exact .inl hu
    · exact .inr ⟨u, h, hu⟩
  · rintro (hx | ⟨u, hne, hu⟩)
    · exact ⟨t, by rw [Function.update_self, hx]⟩
    · exact ⟨u, by rw [Function.update_of_ne hne, hu]⟩

namespace Slots

theorem mem_queue_lt (h : Slots mq held queue free) (hm : msg ∈ queue) : msg < mq.maxMsgs.toNat :=
  (h.place msg).mpr (.inl hm)

theorem held_lt (h : Slots mq held queue free) (hm : held t = some msg) :
    msg < mq.maxMsgs.toNat :=
  (h.place msg).mpr (.inr (.inr ⟨t, hm⟩))

/-- The queue never has more messages than the pool has slots. -/
theorem length_le (h : Slots mq held queue free) : queue.length ≤ mq.maxMsgs.toNat := by
  have hsub : queue ⊆ List.range mq.maxMsgs.toNat := fun i hi =>
    List.mem_range.mpr (h.mem_queue_lt hi)
  simpa using (List.subperm_of_subset h.lists.nodup_queue hsub).length_le

theorem length_lt (h : Slots mq held queue free) (hm : held t = some msg) :
    queue.length < mq.maxMsgs.toNat := by
  have hnodup : (msg :: queue).Nodup :=
    List.nodup_cons.mpr ⟨(h.apart t msg hm).queue, h.lists.nodup_queue⟩
  have hsub : msg :: queue ⊆ List.range mq.maxMsgs.toNat := by
    intro i hi
    rw [List.mem_range]
    rcases List.mem_cons.mp hi with rfl | hi
    · exact h.held_lt hm
    · exact h.mem_queue_lt hi
  have hle := (List.subperm_of_subset hnodup hsub).length_le
  rwa [List.length_cons, List.length_range] at hle

/-- A queue without entries has no head. -/
theorem entry_eq_zero_iff (h : Slots mq held queue free) : mq.entry = 0 ↔ queue = [] := by
  rw [← UInt16.toNat_inj, h.entry]
  exact List.length_eq_zero_iff

/-- The lists of threads that wait play no part. -/
theorem congr (h : Slots mq held queue free) (hnext : mq'.next = mq.next)
    (hhead : mq'.msgQueueHead = mq.msgQueueHead) (htail : mq'.msgQueueTail = mq.msgQueueTail)
    (hfree : mq'.msgQueueFree = mq.msgQueueFree) (hentry : mq'.entry = mq.entry)
    (hslot : mq'.slot = mq.slot) (hmax : mq'.maxMsgs = mq.maxMsgs)
    (hsize : mq'.msgSize = mq.msgSize) : Slots mq' held queue free := by
  refine ⟨⟨?_, ?_, ?_, h.lists.nodup⟩, ?_, ?_, h.apart, h.single, ?_⟩
  · rw [hnext, hhead]
    exact h.lists.head
  · rw [htail, h.lists.tail]
  · rw [hnext, hfree]
    exact h.lists.unused
  · rw [hentry, h.entry]
  · rw [hmax]
    exact h.place
  · rw [hmax, hslot, hsize]
    exact h.size

theorem takeFree (h : Slots mq held queue (msg :: free)) (ht : held t = none) :
    Slots (mq.takeFree msg) (Function.update held t (some msg)) queue free := by
  have hother : ∀ u i, held u = some i → i ≠ msg := by
    rintro u i hu rfl
    exact (h.apart u i hu).free (List.mem_cons_self ..)
  refine ⟨h.lists.takeFree, h.entry, fun i => ?_, fun u i hu => ?_, fun u v i hu hv => ?_, h.size⟩
  · rw [exists_update_eq_some]
    change i < mq.maxMsgs.toNat ↔ _
    rw [h.place, List.mem_cons]
    constructor
    · rintro (hq | (rfl | hf) | ⟨u, hu⟩)
      · exact .inl hq
      · exact .inr (.inr (.inl rfl))
      · exact .inr (.inl hf)
      · exact .inr (.inr (.inr ⟨u, fun he => by simp [he, ht] at hu, hu⟩))
    · rintro (hq | hf | hmsg | ⟨u, -, hu⟩)
      · exact .inl hq
      · exact .inr (.inl (.inr hf))
      · exact .inr (.inl (.inl (Option.some.inj hmsg).symm))
      · exact .inr (.inr ⟨u, hu⟩)
  · rw [Function.update_apply] at hu
    split_ifs at hu with he
    · obtain rfl := Option.some.inj hu
      exact h.lists.apart_of_free
    · exact ⟨(h.apart u i hu).queue, fun hf => (h.apart u i hu).free (List.mem_cons_of_mem _ hf)⟩
  · rw [Function.update_apply] at hu hv
    split_ifs at hu hv with he he' he'
    · rw [he, he']
    · exact absurd (Option.some.inj hu).symm (hother v i hv)
    · exact absurd (Option.some.inj hv).symm (hother u i hu)
    · exact h.single u v i hu hv

/-- The slot of a thread goes to a list. -/
theorem place_drop (h : Slots mq held queue free) (ht : held t = some msg) {i : ℕ} :
    i < mq.maxMsgs.toNat ↔
      i = msg ∨ i ∈ queue ∨ i ∈ free ∨ ∃ u, Function.update held t none u = some i := by
  rw [exists_update_eq_some, h.place]
  constructor
  · rintro (hq | hf | ⟨u, hu⟩)
    · exact .inr (.inl hq)
    · exact .inr (.inr (.inl hf))
    · by_cases he : u = t
      · rw [he, ht] at hu
        exact .inl (Option.some.inj hu).symm
      · exact .inr (.inr (.inr (.inr ⟨u, he, hu⟩)))
  · rintro (rfl | hq | hf | hnone | ⟨u, -, hu⟩)
    · exact .inr (.inr ⟨t, ht⟩)
    · exact .inl hq
    · exact .inr (.inl hf)
    · exact absurd hnone (by simp)
    · exact .inr (.inr ⟨u, hu⟩)

theorem held_of_update_none {u i : ℕ} (hu : Function.update held t none u = some i) :
    u ≠ t ∧ held u = some i := by
  rw [Function.update_apply] at hu
  split_ifs at hu with he
  exact ⟨he, hu⟩

/-- What another thread holds is not the slot. -/
theorem ne_of_held (h : Slots mq held queue free) (ht : held t = some msg) {u i : ℕ}
    (hne : u ≠ t) (hu : held u = some i) : i ≠ msg := by
  rintro rfl
  exact hne (h.single u t i hu ht)

theorem single_drop (h : Slots mq held queue free) {u v i : ℕ}
    (hu : Function.update held t none u = some i) (hv : Function.update held t none v = some i) :
    u = v :=
  h.single u v i (held_of_update_none hu).2 (held_of_update_none hv).2

theorem toNat_entry_add_one (h : Slots mq held queue free) (ht : held t = some msg) :
    (mq.entry + 1).toNat = queue.length + 1 := by
  have hlt := h.length_lt ht
  have hmax := mq.maxMsgs.toNat_lt
  rw [UInt16.toNat_add, h.entry]
  exact Nat.mod_eq_of_lt (by simp only [UInt16.reduceToNat]; omega)

theorem linkTail (h : Slots mq held queue free) (ht : held t = some msg)
    (hnext : mq.next msg = none) :
    Slots (mq.linkTail msg) (Function.update held t none) (queue ++ [msg]) free := by
  refine ⟨h.lists.linkTail (h.apart t msg ht) hnext, ?_, fun i => ?_, fun u i hu => ?_,
    fun u v i => h.single_drop, h.size⟩
  · rw [List.length_append, List.length_singleton]
    exact h.toNat_entry_add_one ht
  · refine (h.place_drop ht).trans ?_
    rw [List.mem_append, List.mem_singleton]
    tauto
  · obtain ⟨hne, hu⟩ := held_of_update_none hu
    have hi := h.ne_of_held ht hne hu
    exact ⟨by simpa [hi] using (h.apart u i hu).queue, (h.apart u i hu).free⟩

theorem linkHead (h : Slots mq held queue free) (ht : held t = some msg) :
    Slots (mq.linkHead msg) (Function.update held t none) (msg :: queue) free := by
  refine ⟨h.lists.linkHead (h.apart t msg ht), h.toNat_entry_add_one ht, fun i => ?_,
    fun u i hu => ?_, fun u v i => h.single_drop, h.size⟩
  · refine (h.place_drop ht).trans ?_
    rw [List.mem_cons, or_assoc]
  · obtain ⟨hne, hu⟩ := held_of_update_none hu
    have hi := h.ne_of_held ht hne hu
    exact ⟨by simpa [hi] using (h.apart u i hu).queue, (h.apart u i hu).free⟩

theorem giveFree (h : Slots mq held queue free) (ht : held t = some msg) :
    Slots (mq.giveFree msg) (Function.update held t none) queue (msg :: free) := by
  refine ⟨h.lists.giveFree (h.apart t msg ht), h.entry, fun i => ?_,
    fun u i hu => ?_, fun u v i => h.single_drop, h.size⟩
  · refine (h.place_drop ht).trans ?_
    rw [List.mem_cons]
    tauto
  · obtain ⟨hne, hu⟩ := held_of_update_none hu
    have hi := h.ne_of_held ht hne hu
    exact ⟨(h.apart u i hu).queue, by simpa [hi] using (h.apart u i hu).free⟩

theorem takeHead (h : Slots mq held (msg :: queue) free) (ht : held t = none) :
    Slots (mq.takeHead msg) (Function.update held t (some msg)) queue free := by
  have hother : ∀ u i, held u = some i → i ≠ msg := by
    rintro u i hu rfl
    exact (h.apart u i hu).queue (List.mem_cons_self ..)
  refine ⟨h.lists.takeHead, ?_, fun i => ?_, fun u i hu => ?_, fun u v i hu hv => ?_, h.size⟩
  · have hentry := h.entry
    rw [List.length_cons] at hentry
    change (mq.entry - 1).toNat = _
    have hle : (1 : UInt16) ≤ mq.entry := by
      rw [UInt16.le_iff_toNat_le, hentry]
      exact Nat.succ_le_succ (Nat.zero_le _)
    rw [UInt16.toNat_sub_of_le _ _ hle, hentry]
    rfl
  · rw [exists_update_eq_some]
    change i < mq.maxMsgs.toNat ↔ _
    rw [h.place, List.mem_cons]
    constructor
    · rintro ((rfl | hq) | hf | ⟨u, hu⟩)
      · exact .inr (.inr (.inl rfl))
      · exact .inl hq
      · exact .inr (.inl hf)
      · exact .inr (.inr (.inr ⟨u, fun he => by simp [he, ht] at hu, hu⟩))
    · rintro (hq | hf | hmsg | ⟨u, -, hu⟩)
      · exact .inl (.inr hq)
      · exact .inr (.inl hf)
      · exact .inl (.inl (Option.some.inj hmsg).symm)
      · exact .inr (.inr ⟨u, hu⟩)
  · rw [Function.update_apply] at hu
    split_ifs at hu with he
    · obtain rfl := Option.some.inj hu
      exact h.lists.apart_of_queue
    · exact ⟨fun hq => (h.apart u i hu).queue (List.mem_cons_of_mem _ hq), (h.apart u i hu).free⟩
  · rw [Function.update_apply] at hu hv
    split_ifs at hu hv with he he' he'
    · rw [he, he']
    · exact absurd (Option.some.inj hu).symm (hother v i hv)
    · exact absurd (Option.some.inj hv).symm (hother u i hu)
    · exact h.single u v i hu hv

/-- A thread writes to the slot it holds. -/
theorem copyIn (h : Slots mq held queue free) (ht : held t = some msg)
    (hdata : data.length ≤ mq.msgSize) : Slots (mq.copyIn msg data) held queue free := by
  refine ⟨h.lists.copyIn, h.entry, h.place, h.apart, h.single, fun i hi => ?_⟩
  change (Function.update mq.slot msg _ i).length = mq.msgSize
  rw [Function.update_apply]
  split_ifs with he
  · rw [length_patch, h.size msg (h.held_lt ht)]
    omega
  · exact h.size i hi

/-- A thread cuts off what its slot led to. -/
theorem update (h : Slots mq held queue free) (ht : held t = some msg) (p : Option ℕ) :
    Slots { mq with next := Function.update mq.next msg p } held queue free :=
  ⟨h.lists.update (h.apart t msg ht) p, h.entry, h.place, h.apart, h.single, h.size⟩

theorem releaseAll (h : Slots mq held queue free) :
    Slots { mq.releaseAll mq.maxMsgs.toNat with entry := 0 } held [] (queue.reverse ++ free) := by
  obtain ⟨hslot, hmax, hsize⟩ := releaseAll_frame mq mq.maxMsgs.toNat
  have hlists := h.lists.releaseAll h.length_le
  refine ⟨⟨hlists.head, hlists.tail, hlists.unused, hlists.nodup⟩, rfl, fun i => ?_,
    fun t i ht => ⟨List.not_mem_nil, ?_⟩, h.single, ?_⟩
  · change i < (mq.releaseAll _).maxMsgs.toNat ↔ _
    rw [hmax, h.place, List.mem_append, List.mem_reverse, or_assoc]
    simp only [List.not_mem_nil, false_or]
  · rw [List.mem_append, List.mem_reverse]
    exact not_or.mpr ⟨(h.apart t i ht).queue, (h.apart t i ht).free⟩
  · change ∀ i < (mq.releaseAll _).maxMsgs.toNat,
      ((mq.releaseAll _).slot i).length = (mq.releaseAll _).msgSize
    rw [hmax, hslot, hsize]
    exact h.size

end Slots

end SortingLine.RtMessagequeue
