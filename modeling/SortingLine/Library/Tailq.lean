import Mathlib.Data.List.Nodup
import Mathlib.Logic.Function.Basic

/-!
# Intrusive tail queues

A tail queue is a list that goes through its nodes: each holds the next node and the address of the
pointer that points to it, which is the `next` pointer of the node before it or that of the head;
the head has the first node and the address of the last `next` pointer.  Nodes are in a heap, where
a node that has been freed has no entry; reading or writing it has no result.

* `Seg q p l p'`: the links from one pointer to another are those of the list `l`; `Seg.congr` says
  which they are.
* `Represents q l`: the whole queue is the list `l`.
* `Represents.nodes`, `Represents.find`, `Represents.lastNode`: what is read from it.
-/

namespace SortingLine

/-- The address of a `next` pointer: that of the head, or of a node. -/
inductive Link (ι : Type*)
  | head
  | next (a : ι)
deriving DecidableEq

/-- A node: its links and its data. -/
structure TailqEntry (ι β : Type*) where
  next : Option ι
  prev : Link ι
  data : β

/-- A tail queue, and the heap that its nodes are in. -/
structure Tailq (ι β : Type*) where
  first : Option ι
  last : Link ι
  entry : ι → Option (TailqEntry ι β)

namespace Tailq

variable {ι β : Type*}

/-! ### Reading and writing -/

/-- What is at the address of a `next` pointer. -/
def read (q : Tailq ι β) : Link ι → Option (Option ι)
  | .head => some q.first
  | .next a => (q.entry a).map TailqEntry.next

/-- The address that a node has of the pointer to it. -/
def prevOf (q : Tailq ι β) (a : ι) : Option (Link ι) := (q.entry a).map TailqEntry.prev

/-- The data of a node. -/
def dataOf (q : Tailq ι β) (a : ι) : Option β := (q.entry a).map TailqEntry.data

theorem exists_entry {q : Tailq ι β} {a : ι} : (∃ e, q.entry a = some e) ↔ q.dataOf a ≠ none := by
  cases he : q.entry a <;> simp [dataOf, he]

theorem prevOf_ne_none {q : Tailq ι β} {a : ι} : q.prevOf a ≠ none ↔ q.dataOf a ≠ none := by
  cases he : q.entry a <;> simp [dataOf, prevOf, he]

theorem read_next_ne_none {q : Tailq ι β} {a : ι} :
    q.read (.next a) ≠ none ↔ q.dataOf a ≠ none := by
  cases he : q.entry a <;> simp [dataOf, read, he]

/-- The empty queue, in a heap without nodes. -/
def empty : Tailq ι β := { first := none, last := .head, entry := fun _ => none }

/-! ### Segments -/

/-- From the pointer at `p` the nodes of `l` follow one another, and the pointer at `p'` is that of
the last one. -/
def Seg (q : Tailq ι β) : Link ι → List ι → Link ι → Prop
  | p, [], p' => p = p'
  | p, a :: l, p' => q.read p = some (some a) ∧ q.prevOf a = some p ∧ q.Seg (.next a) l p'

section Segments

variable {q q' : Tailq ι β} {p p' : Link ι} {l l₁ l₂ : List ι} {a : ι}

theorem seg_append :
    q.Seg p (l₁ ++ l₂) p' ↔ ∃ r, q.Seg p l₁ r ∧ q.Seg r l₂ p' := by
  induction l₁ generalizing p with
  | nil => simp [Seg]
  | cons b l₁ ih =>
    simp only [List.cons_append, Seg, ih]
    constructor
    · rintro ⟨hread, hprev, r, h₁, h₂⟩
      exact ⟨r, ⟨hread, hprev, h₁⟩, h₂⟩
    · rintro ⟨r, ⟨hread, hprev, h₁⟩, h₂⟩
      exact ⟨hread, hprev, r, h₁, h₂⟩

/-- Where a segment ends. -/
theorem Seg.end_eq (h : q.Seg p l p') : (l = [] ∧ p' = p) ∨ ∃ a ∈ l, p' = .next a := by
  induction l generalizing p with
  | nil => exact .inl ⟨rfl, h.symm⟩
  | cons b l ih =>
    obtain ⟨-, -, hrest⟩ := h
    rcases ih hrest with ⟨rfl, rfl⟩ | ⟨a, ha, rfl⟩
    · exact .inr ⟨b, List.mem_singleton_self b, rfl⟩
    · exact .inr ⟨a, List.mem_cons_of_mem b ha, rfl⟩

/-- The pointers of a segment differ from `r` if the one before it and those of its nodes do. -/
theorem ne_of_pointer {r s : Link ι} (hp : p ≠ s) (hl : ∀ x ∈ l, Link.next x ≠ s)
    (hr : r = p ∨ ∃ x ∈ l, r = .next x) : r ≠ s := by
  rcases hr with rfl | ⟨x, hx, rfl⟩
  · exact hp
  · exact hl x hx

theorem head_ne_next (a : ι) : Link.head ≠ .next a := nofun

theorem next_ne_of_notMem (ha : a ∉ l) : ∀ x ∈ l, Link.next x ≠ .next a := by
  intro x hx heq
  exact ha (Link.next.inj heq ▸ hx)

theorem Seg.end_ne {s : Link ι} (h : q.Seg p l p') (hp : p ≠ s) (hl : ∀ x ∈ l, Link.next x ≠ s) :
    p' ≠ s := by
  rcases h.end_eq with ⟨-, heq⟩ | hend
  · exact ne_of_pointer hp hl (.inl heq)
  · exact ne_of_pointer hp hl (.inr hend)

/-- The nodes of a segment are in the heap. -/
theorem Seg.dataOf_ne_none (h : q.Seg p l p') (ha : a ∈ l) : q.dataOf a ≠ none := by
  induction l generalizing p with
  | nil => cases ha
  | cons b l ih =>
    obtain ⟨-, hprev, hrest⟩ := h
    rcases List.mem_cons.mp ha with rfl | ha
    · exact prevOf_ne_none.mp (by simp [hprev])
    · exact ih hrest ha

/-- **A segment depends on its own links only**, without the pointer at its end. -/
theorem Seg.congr (h : q.Seg p l p') (hl : l.Nodup) (hp : ∀ a ∈ l, p ≠ .next a)
    (hread : ∀ r, r ≠ p' → (r = p ∨ ∃ a ∈ l, r = .next a) → q'.read r = q.read r)
    (hprev : ∀ a ∈ l, q'.prevOf a = q.prevOf a) : q'.Seg p l p' := by
  induction l generalizing p with
  | nil => exact h
  | cons b l ih =>
    obtain ⟨hb, hbprev, hrest⟩ := h
    obtain ⟨hnotin, hl⟩ := List.nodup_cons.mp hl
    have hne : p ≠ p' := by
      refine (hrest.end_ne (hp b List.mem_cons_self).symm fun a ha => ?_).symm
      exact (hp a (List.mem_cons_of_mem b ha)).symm
    refine ⟨?_, ?_, ih hrest hl ?_ ?_ ?_⟩
    · rw [hread p hne (.inl rfl), hb]
    · rw [hprev b List.mem_cons_self, hbprev]
    · rintro a ha heq
      obtain rfl := Link.next.inj heq
      exact hnotin ha
    · rintro r hr (rfl | ⟨a, ha, rfl⟩)
      · exact hread _ hr (.inr ⟨b, List.mem_cons_self, rfl⟩)
      · exact hread _ hr (.inr ⟨a, List.mem_cons_of_mem b ha, rfl⟩)
    · exact fun a ha => hprev a (List.mem_cons_of_mem b ha)

/-- **The queue is this list of nodes.** -/
structure Represents (q : Tailq ι β) (l : List ι) : Prop where
  nodup : l.Nodup
  seg : q.Seg .head l q.last
  ends : q.read q.last = some none

theorem represents_empty : (empty : Tailq ι β).Represents [] := ⟨List.nodup_nil, rfl, rfl⟩

theorem Represents.dataOf_ne_none (h : q.Represents l) (ha : a ∈ l) : q.dataOf a ≠ none :=
  h.seg.dataOf_ne_none ha

/-- What the pointer before a list at the end of the queue points to. -/
theorem Seg.read_eq (h : q.Seg p l p') (hends : q.read p' = some none) :
    q.read p = some l.head? := by
  cases l with
  | nil =>
    obtain rfl := h
    exact hends
  | cons b l => exact h.1

/-- The queue before and after a node. -/
theorem Represents.split (h : q.Represents (l₁ ++ a :: l₂)) :
    ∃ p, q.Seg .head l₁ p ∧ q.read p = some (some a) ∧ q.prevOf a = some p ∧
      q.Seg (.next a) l₂ q.last ∧ q.read (.next a) = some l₂.head? ∧
      ∀ x, (∀ y ∈ l₁, x ≠ y) → p ≠ .next x := by
  obtain ⟨p, h₁, hread, hprev, h₂⟩ := seg_append.mp h.seg
  refine ⟨p, h₁, hread, hprev, h₂, h₂.read_eq h.ends, fun x hx => ?_⟩
  exact h₁.end_ne nofun fun y hy heq => hx y hy (Link.next.inj heq).symm

/-- A queue depends on its own links only. -/
theorem Represents.congr {q' : Tailq ι β} (h : q.Represents l) (hlast : q'.last = q.last)
    (hread : ∀ r, (r = .head ∨ ∃ a ∈ l, r = .next a) → q'.read r = q.read r)
    (hprev : ∀ a ∈ l, q'.prevOf a = q.prevOf a) : q'.Represents l := by
  refine ⟨h.nodup, ?_, ?_⟩
  · rw [hlast]
    exact h.seg.congr h.nodup nofun (fun r _ hr => hread r hr) hprev
  · rw [hlast, hread, h.ends]
    rcases h.seg.end_eq with ⟨-, h⟩ | h
    · exact .inl h
    · exact .inr h

theorem Seg.of_eq (hread : q'.read = q.read) (hprev : q'.prevOf = q.prevOf) (h : q.Seg p l p') :
    q'.Seg p l p' := by
  induction l generalizing p with
  | nil => exact h
  | cons a l ih =>
    obtain ⟨ha, ha', hrest⟩ := h
    exact ⟨hread ▸ ha, hprev ▸ ha', ih hrest⟩

end Segments

/-! ### Reading a queue -/

/-- `TAILQ_LAST`: the head and a node both have a `next` pointer and an address after it. -/
def lastNode (q : Tailq ι β) : Option (Option ι) :=
  (match q.last with
    | .head => some q.last
    | .next a => q.prevOf a).bind q.read

/-- The nodes in the order of a loop over them, with at most so many passes: there is no result
where the loop would go on. -/
def nodes (q : Tailq ι β) : ℕ → Option ι → Option (List ι)
  | _, none => some []
  | 0, some _ => none
  | n + 1, some a => (q.entry a).bind fun e => (q.nodes n e.next).map (a :: ·)

/-- The loop over the nodes that looks for one. -/
def find (q : Tailq ι β) (test : β → Bool) : ℕ → Option ι → Option (Option ι)
  | _, none => some none
  | 0, some _ => none
  | n + 1, some a => (q.entry a).bind fun e =>
      if test e.data then some (some a) else q.find test n e.next

section Reading

variable {q : Tailq ι β} {l : List ι} {p p' : Link ι} {v : Option ι}

/-- `TAILQ_LAST` -/
theorem Represents.lastNode (h : q.Represents l) : q.lastNode = some l.getLast? := by
  rcases List.eq_nil_or_concat l with rfl | ⟨l', a, rfl⟩
  · have hlast : q.last = .head := h.seg.symm
    have hends := h.ends
    rw [hlast] at hends
    rw [Tailq.lastNode, hlast]
    exact hends
  · rw [List.concat_eq_append] at h ⊢
    obtain ⟨p, -, hread, hprev, hlast, -, -⟩ := h.split
    have hlast : q.last = .next a := hlast.symm
    rw [Tailq.lastNode, hlast]
    show (q.prevOf a).bind q.read = _
    rw [hprev, Option.bind_some, hread, List.getLast?_concat]

/-- The node that a pointer points to, and the rest. -/
theorem Seg.of_read {a : ι} (h : q.Seg p (a :: l) p') (hv : q.read p = some v) :
    v = some a ∧ ∃ e, q.entry a = some e ∧ q.read (.next a) = some e.next ∧
      q.Seg (.next a) l p' := by
  obtain ⟨hread, hprev, hrest⟩ := h
  obtain ⟨e, he, -⟩ := Option.map_eq_some_iff.mp hprev
  refine ⟨Option.some.inj (hv.symm.trans hread), e, he, ?_, hrest⟩
  rw [read, he, Option.map_some]

theorem Seg.nodes (h : q.Seg p l p') (hends : q.read p' = some none) (hv : q.read p = some v)
    {n : ℕ} (hn : l.length ≤ n) : q.nodes n v = some l := by
  induction l generalizing p v n with
  | nil =>
    obtain rfl := h
    obtain rfl := Option.some.inj (hends.symm.trans hv)
    cases n <;> rfl
  | cons a l ih =>
    obtain ⟨rfl, e, he, hnext, hrest⟩ := h.of_read hv
    obtain ⟨n, rfl⟩ : ∃ k, n = k + 1 := Nat.exists_eq_add_one_of_ne_zero (by
      rw [List.length_cons] at hn
      omega)
    rw [Tailq.nodes, he, Option.bind_some, ih hrest hnext (Nat.le_of_succ_le_succ hn),
      Option.map_some]

/-- **The nodes that a loop over the queue visits.** -/
theorem Represents.nodes (h : q.Represents l) {n : ℕ} (hn : l.length ≤ n) :
    q.nodes n q.first = some l :=
  h.seg.nodes h.ends rfl hn

/-- A queue is one list only. -/
theorem Represents.unique {l' : List ι} (h : q.Represents l) (h' : q.Represents l') : l = l' :=
  Option.some.inj ((h.nodes (Nat.le_max_left l.length l'.length)).symm.trans
    (h'.nodes (Nat.le_max_right l.length l'.length)))

theorem Seg.find (h : q.Seg p l p') (hends : q.read p' = some none) (hv : q.read p = some v)
    (test : β → Bool) {n : ℕ} (hn : l.length ≤ n) :
    q.find test n v = some (l.find? fun a => (q.dataOf a).any test) := by
  induction l generalizing p v n with
  | nil =>
    obtain rfl := h
    obtain rfl := Option.some.inj (hends.symm.trans hv)
    cases n <;> rfl
  | cons a l ih =>
    obtain ⟨rfl, e, he, hnext, hrest⟩ := h.of_read hv
    obtain ⟨n, rfl⟩ : ∃ k, n = k + 1 := Nat.exists_eq_add_one_of_ne_zero (by
      rw [List.length_cons] at hn
      omega)
    have hdata : (q.dataOf a).any test = test e.data := by
      rw [dataOf, he, Option.map_some, Option.any_some]
    rw [Tailq.find, he, Option.bind_some, List.find?_cons, hdata]
    cases test e.data with
    | true => rfl
    | false => exact ih hrest hnext (Nat.le_of_succ_le_succ hn)

/-- **The loop that looks for a node finds the first one.** -/
theorem Represents.find (h : q.Represents l) (test : β → Bool) {n : ℕ} (hn : l.length ≤ n) :
    q.find test n q.first = some (l.find? fun a => (q.dataOf a).any test) :=
  h.seg.find h.ends rfl test hn

end Reading

end Tailq

end SortingLine
