import Mathlib.Data.List.Induction

/-!
# A queue with two ends and its takers

What a queue of messages is for, event by event: a message is put behind the others or before them,
one of the users takes the first, or all are dropped.  `Deque.replay` is the state that a history of
such events leads to.  A message that was put into the queue is taken once or still waits, unless
all were dropped (`taken_append_items_perm`); if none was put in front they are taken in the order
they came in (`taken_append_items_eq`).
-/

namespace SortingLine

variable {ι α : Type*}

/-- What happens to a queue. -/
inductive DequeEvent (ι α : Type*)
  | back (a : α)
  | front (a : α)
  | take (i : ι)
  | clear
deriving DecidableEq, Repr

/-- The messages that wait, and those that were taken, with their takers. -/
structure Deque (ι α : Type*) where
  items : List α
  taken : List (ι × α)

namespace Deque

def empty : Deque ι α := ⟨[], []⟩

def apply (d : Deque ι α) : DequeEvent ι α → Deque ι α
  | .back a => { d with items := d.items ++ [a] }
  | .front a => { d with items := a :: d.items }
  | .take i =>
    match d.items with
    | [] => d
    | a :: items => { items, taken := d.taken ++ [(i, a)] }
  | .clear => { d with items := [] }

/-- The state that a history leads to. -/
def replay (events : List (DequeEvent ι α)) : Deque ι α := events.foldl apply empty

/-- What a user has taken last. -/
def hand [DecidableEq ι] (d : Deque ι α) (i : ι) : Option α :=
  (d.taken.reverse.find? (fun x => x.1 = i)).map Prod.snd

/-- The messages that were put into the queue, in order. -/
def sent (events : List (DequeEvent ι α)) : List α :=
  events.filterMap fun
    | .back a => some a
    | .front a => some a
    | _ => none

section Lemmas

variable {d : Deque ι α} {events : List (DequeEvent ι α)} {e : DequeEvent ι α} {a : α} {i j : ι}
  {items : List α}

@[simp]
theorem items_empty : (empty : Deque ι α).items = [] := rfl

@[simp]
theorem replay_nil : replay ([] : List (DequeEvent ι α)) = empty := rfl

@[simp]
theorem replay_concat : replay (events ++ [e]) = (replay events).apply e := by
  rw [replay, List.foldl_append]
  rfl

theorem apply_take (h : d.items = a :: items) :
    d.apply (.take i) = { items, taken := d.taken ++ [(i, a)] } := by
  rw [apply, h]

section Hand

variable [DecidableEq ι]

theorem hand_take (h : d.items = a :: items) : (d.apply (.take i)).hand i = some a := by
  rw [apply_take h, hand, List.reverse_append, List.reverse_singleton, List.singleton_append,
    List.find?_cons_of_pos (by simp)]
  rfl

/-- A user keeps what it has when another one takes a message. -/
theorem hand_take_of_ne (h : d.items = a :: items) (hne : j ≠ i) :
    (d.apply (.take i)).hand j = d.hand j := by
  rw [apply_take h, hand, hand, List.reverse_append, List.reverse_singleton,
    List.singleton_append, List.find?_cons_of_neg (by simpa using hne.symm)]

end Hand

theorem sent_concat_back : sent (events ++ [DequeEvent.back a]) = sent events ++ [a] := by
  simp [sent]

theorem sent_concat_front : sent (events ++ [DequeEvent.front a]) = sent events ++ [a] := by
  simp [sent]

theorem sent_concat_take : sent (events ++ [DequeEvent.take i]) = sent events := by simp [sent]

/-- A message that was sent is taken once, or it waits. -/
theorem taken_append_items_perm (hclear : .clear ∉ events) :
    ((replay events).taken.map Prod.snd ++ (replay events).items).Perm (sent events) := by
  induction events using List.reverseRecOn with
  | nil => exact .refl _
  | append_singleton events e ih =>
    rw [List.mem_append, not_or, List.mem_singleton] at hclear
    have hp := ih hclear.1
    rw [replay_concat]
    cases e with
    | back a =>
      rw [sent_concat_back]
      change (_ ++ (_ ++ [a])).Perm _
      rw [← List.append_assoc]
      exact hp.append_right [a]
    | front a =>
      rw [sent_concat_front]
      change (_ ++ (a :: _)).Perm _
      exact List.perm_middle.trans ((hp.cons a).trans (List.perm_append_singleton ..).symm)
    | take i =>
      rw [sent_concat_take]
      cases hitems : (replay events).items with
      | nil =>
        rw [hitems] at hp
        rw [apply, hitems]
        simpa [hitems] using hp
      | cons a items =>
        rw [hitems] at hp
        rw [apply_take hitems]
        simpa using hp
    | clear => exact absurd rfl hclear.2

/-- Messages that are put behind the others are taken in the order they were sent. -/
theorem taken_append_items_eq (hclear : .clear ∉ events) (hfront : ∀ a, .front a ∉ events) :
    (replay events).taken.map Prod.snd ++ (replay events).items = sent events := by
  induction events using List.reverseRecOn with
  | nil => rfl
  | append_singleton events e ih =>
    simp only [List.mem_append, not_or, List.mem_singleton] at hclear hfront
    have hp := ih hclear.1 fun a => (hfront a).1
    rw [replay_concat]
    cases e with
    | back a =>
      rw [sent_concat_back, ← hp]
      exact (List.append_assoc ..).symm
    | front a => exact absurd rfl (hfront a).2
    | take i =>
      rw [sent_concat_take]
      cases hitems : (replay events).items with
      | nil =>
        rw [apply, hitems]
        exact hp
      | cons a items =>
        rw [hitems] at hp
        rw [apply_take hitems, ← hp]
        simp
    | clear => exact absurd rfl hclear.2

end Lemmas

end Deque

end SortingLine
