import Mathlib.Data.List.Basic

/-!
# Bounded queues with a non-blocking send

A first-in first-out queue of at most `cap` elements.  `send` appends when there is room and
leaves the queue as it is when there is none: the element is dropped and the sender is not told.
-/

namespace SortingLine

/-- A queue of at most `cap` elements, oldest first. -/
structure BQueue (α : Type*) (cap : Nat) where
  items : List α
  length_le : items.length ≤ cap
deriving DecidableEq

namespace BQueue

variable {α : Type*} {cap : Nat}

/-- The empty queue. -/
def empty : BQueue α cap := ⟨[], Nat.zero_le _⟩

/-- No free slot. -/
def Full (q : BQueue α cap) : Prop := cap ≤ q.items.length

instance (q : BQueue α cap) : Decidable q.Full := inferInstanceAs (Decidable (_ ≤ _))

/-- Non-blocking send: append, or drop the element when the queue is full. -/
def send (q : BQueue α cap) (a : α) : BQueue α cap :=
  if h : q.items.length < cap then ⟨q.items ++ [a], by simpa using Nat.succ_le_of_lt h⟩ else q

/-- Take the oldest element. -/
def recv (q : BQueue α cap) : Option (α × BQueue α cap) :=
  match q with
  | ⟨[], _⟩ => none
  | ⟨a :: as, h⟩ => some (a, ⟨as, Nat.le_of_succ_le h⟩)

@[ext]
theorem ext {q q' : BQueue α cap} (h : q.items = q'.items) : q = q' := by
  cases q; cases q'; simpa using h

@[simp]
theorem items_empty : (empty : BQueue α cap).items = [] := rfl

theorem items_send_of_not_full {q : BQueue α cap} (h : ¬ q.Full) (a : α) :
    (q.send a).items = q.items ++ [a] := by
  rw [send, dif_pos (Nat.not_le.mp h)]

theorem send_of_full {q : BQueue α cap} (h : q.Full) (a : α) : q.send a = q := by
  rw [send, dif_neg (Nat.not_lt.mpr h)]

/-- A send adds at most its own element, at the end. -/
theorem items_send (q : BQueue α cap) (a : α) :
    (q.send a).items = q.items ∨ (q.send a).items = q.items ++ [a] := by
  by_cases h : q.Full
  · exact .inl (by rw [send_of_full h])
  · exact .inr (items_send_of_not_full h a)

/-- Sending another element does not change how often `b` occurs. -/
theorem count_send_of_ne [BEq α] [LawfulBEq α] (q : BQueue α cap) {a b : α} (h : a ≠ b) :
    (q.send a).items.count b = q.items.count b := by
  rcases q.items_send a with e | e <;> rw [e]
  rw [List.count_append, List.count_singleton, if_neg (by simpa using h), Nat.add_zero]

theorem recv_eq_some {q q' : BQueue α cap} {a : α} :
    q.recv = some (a, q') ↔ q.items = a :: q'.items := by
  rcases q with ⟨_ | ⟨b, bs⟩, h⟩
  · simp [recv]
  · rcases q' with ⟨as, h'⟩
    simp [recv]

theorem map_recv_eq_some {β : Type*} {q : BQueue α cap} {f : α × BQueue α cap → β} {b : β} :
    q.recv.map f = some b ↔ ∃ a q', q.items = a :: q'.items ∧ f (a, q') = b := by
  rw [Option.map_eq_some_iff]
  constructor
  · rintro ⟨⟨a, q'⟩, h, hb⟩
    exact ⟨a, q', recv_eq_some.mp h, hb⟩
  · rintro ⟨a, q', h, hb⟩
    exact ⟨(a, q'), recv_eq_some.mpr h, hb⟩

theorem mem_send {q : BQueue α cap} {a b : α} (h : b ∈ (q.send a).items) : b ∈ q.items ∨ b = a := by
  rcases q.items_send a with e | e <;> rw [e] at h
  · exact .inl h
  · simpa using h

theorem mem_sendAll {as : List α} {q : BQueue α cap} {b : α}
    (h : b ∈ (as.foldl send q).items) : b ∈ q.items ∨ b ∈ as := by
  induction as generalizing q with
  | nil => exact .inl h
  | cons a as ih =>
    rcases ih h with h | h
    · rcases mem_send h with h | rfl
      · exact .inl h
      · exact .inr (List.mem_cons_self ..)
    · exact .inr (List.mem_cons_of_mem _ h)

/-! ### Steps -/

/-- One step of a queue: its oldest element is taken, or the elements `as` are sent to it. -/
inductive Moves (takes : Prop) (as : List α) (q q' : BQueue α cap) : Prop
  | take (a : α) : takes → as = [] → q.items = a :: q'.items → Moves takes as q q'
  | send : ¬ takes → q' = as.foldl send q → Moves takes as q q'

/-! ### Other elements -/

section Map

variable {β : Type*} (f : α → β) (q : BQueue α cap)

/-- The queue with `f` applied to its elements. -/
def map : BQueue β cap := ⟨q.items.map f, by simpa using q.length_le⟩

@[simp]
theorem items_map : (q.map f).items = q.items.map f := rfl

theorem map_send (a : α) : (q.send a).map f = (q.map f).send (f a) := by
  apply ext
  by_cases h : q.Full
  · have h' : (q.map f).Full := by simpa [Full] using h
    rw [send_of_full h, send_of_full h']
  · have h' : ¬ (q.map f).Full := by simpa [Full] using h
    rw [items_send_of_not_full h', items_map, items_send_of_not_full h, List.map_append]
    rfl

theorem map_sendAll (as : List α) :
    (as.foldl send q).map f = (as.map f).foldl send (q.map f) := by
  induction as generalizing q with
  | nil => rfl
  | cons a as ih => rw [List.foldl_cons, ih, map_send, List.map_cons, List.foldl_cons]

theorem Moves.map {takes : Prop} {as : List α} {q q' : BQueue α cap} (h : Moves takes as q q') :
    Moves takes (as.map f) (q.map f) (q'.map f) := by
  cases h with
  | take a ht has hq => exact .take (f a) ht (by rw [has]; rfl) (by simp [hq])
  | send ht hq => exact .send ht (by rw [hq, map_sendAll])

end Map

/-! ### Histories -/

/-- The history of a queue: what was sent to it, and what was taken out of it.  Nothing is
duplicated or reordered, and `lossless` says exactly when nothing was dropped. -/
structure Flow (sent taken : List α) (q : BQueue α cap) (lossless : Prop) : Prop where
  sublist : List.Sublist (taken ++ q.items) sent
  eq_iff : taken ++ q.items = sent ↔ lossless

variable {sent taken : List α} {q q' : BQueue α cap} {lossless : Prop}

/-- A send is lossless when it finds a free slot. -/
theorem Flow.send (h : Flow sent taken q lossless) (a : α) :
    Flow (sent ++ [a]) taken (q.send a) (lossless ∧ ¬ q.Full) := by
  by_cases hf : q.Full
  · rw [send_of_full hf]
    refine ⟨h.sublist.trans (List.sublist_append_left _ _), iff_of_false (fun he => ?_) (by tauto)⟩
    -- what was dropped makes the history longer for good
    have hlen := h.sublist.length_le
    rw [he, List.length_append, List.length_singleton] at hlen
    omega
  · have he : taken ++ (q.send a).items = (taken ++ q.items) ++ [a] := by
      rw [items_send_of_not_full hf, List.append_assoc]
    constructor
    · rw [he]
      exact h.sublist.append (List.Sublist.refl _)
    · rw [he, List.append_left_inj, h.eq_iff]
      simp [hf]

/-- Several sends in a row are lossless when there are enough free slots for all. -/
theorem Flow.sendAll (h : Flow sent taken q lossless) (as : List α) :
    Flow (sent ++ as) taken (as.foldl BQueue.send q)
      (lossless ∧ (as = [] ∨ q.items.length + as.length ≤ cap)) := by
  induction as generalizing sent q lossless with
  | nil => simpa using h
  | cons a as ih =>
    have := ih (h.send a)
    rw [List.append_assoc, List.singleton_append] at this
    refine ⟨this.sublist, this.eq_iff.trans ?_⟩
    by_cases hf : q.Full
    · have : cap ≤ q.items.length := hf
      simp [hf]
      omega
    · have : q.items.length < cap := Nat.not_le.mp hf
      rw [items_send_of_not_full hf, List.length_append, List.length_singleton, List.length_cons]
      rcases as with _ | ⟨b, bs⟩
      · simp [hf]; omega
      · simp [hf]; omega

theorem Flow.recv {a : α} (h : Flow sent taken q lossless) (hq : q.items = a :: q'.items) :
    Flow sent (taken ++ [a]) q' lossless := by
  have he : taken ++ [a] ++ q'.items = taken ++ q.items := by simp [hq]
  exact ⟨he ▸ h.sublist, he ▸ h.eq_iff⟩

theorem Flow.congr {lossless' : Prop} (h : Flow sent taken q lossless)
    (hl : lossless ↔ lossless') : Flow sent taken q lossless' :=
  ⟨h.sublist, h.eq_iff.trans hl⟩

/-- A step is lossless when there are enough free slots for what it sends; `t` is what it takes. -/
theorem Flow.moves {takes : Prop} {as t : List α} (h : Flow sent taken q lossless)
    (hm : Moves takes as q q') (ht : takes → t = q.items.take 1) (hn : ¬ takes → t = []) :
    Flow (sent ++ as) (taken ++ t) q'
      (lossless ∧ (as = [] ∨ q.items.length + as.length ≤ cap)) := by
  cases hm with
  | take a htake has hq =>
    rw [has, List.append_nil, ht htake, hq]
    exact (h.recv hq).congr (by simp)
  | send hsend hq =>
    rw [hn hsend, List.append_nil, hq]
    exact h.sendAll as

end BQueue

end SortingLine
