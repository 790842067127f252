import SortingLine.Library.Tailq

/-!
# Changing tail queues

The operations that insert and remove nodes, the heap that they come from, and the loop that changes
the data of each node.

* `insertTail_spec`, `insertBefore_spec`, `remove_spec`: the links after an operation, pointer by
  pointer, whatever the queue was.
* `Represents.insertTail` and its companions: the list after an operation.
* `Represents.foreach`: the data after a loop over all nodes.
* `Seg.foreach_of_selfLoop`: a loop that comes to a node that is its own successor does not end.
-/

namespace SortingLine.Tailq

variable {ι β : Type*}

theorem read_setLast (q : Tailq ι β) (p : Link ι) : { q with last := p }.read = q.read := by
  funext r
  cases r <;> rfl

variable [DecidableEq ι]

/-- Write a `next` pointer. -/
def write (q : Tailq ι β) (p : Link ι) (v : Option ι) : Option (Tailq ι β) :=
  match p with
  | .head => some { q with first := v }
  | .next a => (q.entry a).map fun e =>
      { q with entry := Function.update q.entry a (some { e with next := v }) }

/-- Write the `prev` field of a node. -/
def setPrev (q : Tailq ι β) (a : ι) (p : Link ι) : Option (Tailq ι β) :=
  (q.entry a).map fun e =>
    { q with entry := Function.update q.entry a (some { e with prev := p }) }

/-- Write the data of a node. -/
def setData (q : Tailq ι β) (a : ι) (data : β) : Option (Tailq ι β) :=
  (q.entry a).map fun e =>
    { q with entry := Function.update q.entry a (some { e with data }) }

/-! ### Operations -/

/-- A new node in the heap; its links are written before they are read. -/
def alloc (q : Tailq ι β) (a : ι) (data : β) : Tailq ι β :=
  { q with entry := Function.update q.entry a (some { next := none, prev := .head, data }) }

/-- The node is no longer in the heap. -/
def free (q : Tailq ι β) (a : ι) : Tailq ι β :=
  { q with entry := Function.update q.entry a none }

/-- `TAILQ_INSERT_TAIL` -/
def insertTail (q : Tailq ι β) (a : ι) : Option (Tailq ι β) :=
  (q.write (.next a) none).bind fun q =>
  (q.setPrev a q.last).bind fun q =>
  (q.write q.last (some a)).map fun q => { q with last := .next a }

/-- `TAILQ_INSERT_BEFORE` -/
def insertBefore (q : Tailq ι β) (b a : ι) : Option (Tailq ι β) :=
  (q.prevOf b).bind fun p =>
  (q.setPrev a p).bind fun q =>
  (q.write (.next a) (some b)).bind fun q =>
  (q.prevOf b).bind fun p =>
  (q.write p (some a)).bind fun q => q.setPrev b (.next a)

/-- `TAILQ_REMOVE` -/
def remove (q : Tailq ι β) (a : ι) : Option (Tailq ι β) :=
  (q.entry a).bind fun e =>
  (match e.next with
    | some b => q.setPrev b e.prev
    | none => some { q with last := e.prev }).bind fun q =>
  (q.entry a).bind fun e => q.write e.prev e.next

/-- The loop over the nodes that changes the data of each, with a state of its own. -/
def foreach {σ : Type*} (f : σ → β → β × σ) : ℕ → Tailq ι β → σ → Option ι → Option (Tailq ι β)
  | _, q, _, none => some q
  | 0, _, _, some _ => none
  | n + 1, q, s, some a => (q.entry a).bind fun e =>
      (q.setData a (f s e.data).1).bind fun q =>
      (q.entry a).bind fun e' => foreach f n q (f s e.data).2 e'.next

/-- The data after such a loop. -/
def foreachData {σ : Type*} (f : σ → β → β × σ) : σ → List β → List β
  | _, [] => []
  | s, d :: ds => (f s d).1 :: foreachData f (f s d).2 ds

/-! ### The effect of a write -/

section Writes

variable {q : Tailq ι β}

/-- What a write to a `next` pointer changes. -/
theorem write_spec {p : Link ι} (hp : q.read p ≠ none) (v : Option ι) :
    ∃ q', q.write p v = some q' ∧ q'.last = q.last ∧ q'.prevOf = q.prevOf ∧
      q'.dataOf = q.dataOf ∧ ∀ r, q'.read r = if r = p then some v else q.read r := by
  cases p with
  | head =>
    refine ⟨_, rfl, rfl, rfl, rfl, fun r => ?_⟩
    cases r <;> simp [read]
  | next a =>
    obtain ⟨e, he⟩ := exists_entry.mpr (read_next_ne_none.mp hp)
    refine ⟨{ q with entry := Function.update q.entry a (some { e with next := v }) }, ?_, rfl,
      ?_, ?_, fun r => ?_⟩
    · rw [write, he, Option.map_some]
    · funext b
      by_cases hb : b = a
      · subst hb
        simp [prevOf, he]
      · simp [prevOf, hb]
    · funext b
      by_cases hb : b = a
      · subst hb
        simp [dataOf, he]
      · simp [dataOf, hb]
    · cases r with
      | head => simp [read]
      | next b =>
        by_cases hb : b = a
        · subst hb
          simp [read]
        · simp [read, hb]

/-- What a write to a `prev` field changes. -/
theorem setPrev_spec {a : ι} (ha : q.dataOf a ≠ none) (p : Link ι) :
    ∃ q', q.setPrev a p = some q' ∧ q'.last = q.last ∧ q'.read = q.read ∧
      q'.dataOf = q.dataOf ∧ ∀ b, q'.prevOf b = if b = a then some p else q.prevOf b := by
  obtain ⟨e, he⟩ := exists_entry.mpr ha
  refine ⟨{ q with entry := Function.update q.entry a (some { e with prev := p }) }, ?_, rfl,
    ?_, ?_, fun b => ?_⟩
  · rw [setPrev, he, Option.map_some]
  · funext r
    cases r with
    | head => rfl
    | next b =>
      by_cases hb : b = a
      · subst hb
        simp [read, he]
      · simp [read, hb]
  · funext b
    by_cases hb : b = a
    · subst hb
      simp [dataOf, he]
    · simp [dataOf, hb]
  · by_cases hb : b = a
    · subst hb
      simp [prevOf]
    · simp [prevOf, hb]

/-- What a write of data changes. -/
theorem setData_spec {a : ι} (ha : q.dataOf a ≠ none) (data : β) :
    ∃ q', q.setData a data = some q' ∧ q'.last = q.last ∧ q'.read = q.read ∧
      q'.prevOf = q.prevOf ∧ ∀ b, q'.dataOf b = if b = a then some data else q.dataOf b := by
  obtain ⟨e, he⟩ := exists_entry.mpr ha
  refine ⟨{ q with entry := Function.update q.entry a (some { e with data }) }, ?_, rfl,
    ?_, ?_, fun b => ?_⟩
  · rw [setData, he, Option.map_some]
  · funext r
    cases r with
    | head => rfl
    | next b =>
      by_cases hb : b = a
      · subst hb
        simp [read, he]
      · simp [read, hb]
  · funext b
    by_cases hb : b = a
    · subst hb
      simp [prevOf, he]
    · simp [prevOf, hb]
  · by_cases hb : b = a
    · subst hb
      simp [dataOf]
    · simp [dataOf, hb]

theorem dataOf_alloc (a : ι) (data : β) (b : ι) :
    (q.alloc a data).dataOf b = if b = a then some data else q.dataOf b := by
  by_cases hb : b = a
  · subst hb
    simp [alloc, dataOf]
  · simp [alloc, dataOf, hb]

theorem dataOf_free (a b : ι) : (q.free a).dataOf b = if b = a then none else q.dataOf b := by
  by_cases hb : b = a
  · subst hb
    simp [free, dataOf]
  · simp [free, dataOf, hb]

end Writes

/-! ### The links after an operation -/

section Effects

variable {q : Tailq ι β} {a b : ι} {p : Link ι}

/-- What `TAILQ_INSERT_TAIL` changes. -/
theorem insertTail_spec (ha : q.dataOf a ≠ none) (hlast : q.read q.last ≠ none) :
    ∃ q', q.insertTail a = some q' ∧ q'.last = .next a ∧ q'.dataOf = q.dataOf ∧
      (∀ r, q'.read r =
        if r = q.last then some (some a) else if r = .next a then some none else q.read r) ∧
      ∀ c, q'.prevOf c = if c = a then some q.last else q.prevOf c := by
  obtain ⟨q₁, hq₁, hlast₁, hprev₁, hdata₁, hread₁⟩ := write_spec (read_next_ne_none.mpr ha) none
  obtain ⟨q₂, hq₂, hlast₂, hread₂, hdata₂, hprev₂⟩ := setPrev_spec (hdata₁ ▸ ha) q₁.last
  have hlive : q₂.read q₂.last ≠ none := by
    rw [hlast₂, hlast₁, hread₂, hread₁]
    split_ifs
    · exact Option.some_ne_none _
    · exact hlast
  obtain ⟨q₃, hq₃, hlast₃, hprev₃, hdata₃, hread₃⟩ := write_spec hlive (some a)
  refine ⟨{ q₃ with last := .next a }, ?_, rfl, ?_, fun r => ?_, fun c => ?_⟩
  · rw [insertTail, hq₁, Option.bind_some, hq₂, Option.bind_some, hq₃, Option.map_some]
  · exact hdata₃.trans (hdata₂.trans hdata₁)
  · rw [read_setLast, hread₃, hread₂, hread₁, hlast₂, hlast₁]
  · show q₃.prevOf c = _
    rw [hprev₃, hprev₂, hprev₁, hlast₁]

/-- What `TAILQ_INSERT_BEFORE` changes, also for a node before itself. -/
theorem insertBefore_spec (ha : q.dataOf a ≠ none) (hb : q.prevOf b = some p)
    (hp : q.read p ≠ none) :
    ∃ q', q.insertBefore b a = some q' ∧ q'.last = q.last ∧ q'.dataOf = q.dataOf ∧
      (∀ r, q'.read r =
        if r = p then some (some a) else if r = .next a then some (some b) else q.read r) ∧
      ∀ c, q'.prevOf c =
        if c = b then some (.next a) else if c = a then some p else q.prevOf c := by
  obtain ⟨q₁, hq₁, hlast₁, hread₁, hdata₁, hprev₁⟩ := setPrev_spec ha p
  obtain ⟨q₂, hq₂, hlast₂, hprev₂, hdata₂, hread₂⟩ :=
    write_spec (read_next_ne_none.mpr (hdata₁ ▸ ha)) (some b)
  have hprev : q₂.prevOf b = some p := by
    rw [hprev₂, hprev₁]
    split_ifs
    · rfl
    · exact hb
  have hlive : q₂.read p ≠ none := by
    rw [hread₂, hread₁]
    split_ifs
    · exact Option.some_ne_none _
    · exact hp
  obtain ⟨q₃, hq₃, hlast₃, hprev₃, hdata₃, hread₃⟩ := write_spec hlive (some a)
  have hdata : q₃.dataOf = q.dataOf := hdata₃.trans (hdata₂.trans hdata₁)
  have hblive : q₃.dataOf b ≠ none := by
    rw [hdata]
    exact prevOf_ne_none.mp (hb ▸ Option.some_ne_none p)
  obtain ⟨q₄, hq₄, hlast₄, hread₄, hdata₄, hprev₄⟩ := setPrev_spec hblive (.next a)
  refine ⟨q₄, ?_, ?_, hdata₄.trans hdata, fun r => ?_, fun c => ?_⟩
  · rw [insertBefore, hb, Option.bind_some, hq₁, Option.bind_some, hq₂, Option.bind_some, hprev,
      Option.bind_some, hq₃, Option.bind_some, hq₄]
  · rw [hlast₄, hlast₃, hlast₂, hlast₁]
  · rw [hread₄, hread₃, hread₂, hread₁]
  · rw [hprev₄, hprev₃, hprev₂, hprev₁]

/-- What `TAILQ_REMOVE` changes. -/
theorem remove_spec {n : Option ι} (hprev : q.prevOf a = some p) (hnext : q.read (.next a) = some n)
    (hp : q.read p ≠ none) (hn : ∀ b, n = some b → q.dataOf b ≠ none) :
    ∃ q', q.remove a = some q' ∧ q'.last = (if n = none then p else q.last) ∧
      q'.dataOf = q.dataOf ∧ (∀ r, q'.read r = if r = p then some n else q.read r) ∧
      ∀ c, q'.prevOf c = if n = some c then some p else q.prevOf c := by
  obtain ⟨e, he, rfl⟩ := Option.map_eq_some_iff.mp hprev
  have hen : e.next = n := by
    rw [read, he] at hnext
    exact Option.some.inj hnext
  subst hen
  -- the queue after the first write, which leaves the links of the node as they are
  obtain ⟨q₁, hq₁, hlast₁, hread₁, hdata₁, hprev₁⟩ : ∃ q₁,
      (match e.next with
        | some b => q.setPrev b e.prev
        | none => some { q with last := e.prev }) = some q₁ ∧
      q₁.last = (if e.next = none then e.prev else q.last) ∧ q₁.read = q.read ∧
      q₁.dataOf = q.dataOf ∧ ∀ c, q₁.prevOf c = if e.next = some c then some e.prev
        else q.prevOf c := by
    cases hb : e.next with
    | none => exact ⟨_, rfl, rfl, read_setLast q e.prev, rfl, fun c => rfl⟩
    | some b =>
      obtain ⟨q₁, hq₁, hlast₁, hread₁, hdata₁, hprev₁⟩ := setPrev_spec (hn b hb) e.prev
      refine ⟨q₁, hq₁, hlast₁, hread₁, hdata₁, fun c => ?_⟩
      rw [hprev₁]
      simp only [Option.some_inj, eq_comm]
  have hprev' : q₁.prevOf a = some e.prev := by
    rw [hprev₁]
    split_ifs
    · rfl
    · exact hprev
  obtain ⟨e₁, he₁, hep⟩ := Option.map_eq_some_iff.mp hprev'
  have hen : e₁.next = e.next := by
    have h := congrFun hread₁ (.next a)
    rw [read, read, he, he₁] at h
    exact Option.some.inj h
  have hlive : q₁.read e.prev ≠ none := hread₁ ▸ hp
  obtain ⟨q₂, hq₂, hlast₂, hprev₂, hdata₂, hread₂⟩ := write_spec hlive e.next
  refine ⟨q₂, ?_, hlast₂.trans hlast₁, hdata₂.trans hdata₁, fun r => ?_, fun c => ?_⟩
  · rw [remove, he, Option.bind_some, hq₁, Option.bind_some, he₁, Option.bind_some, hep, hen, hq₂]
  · rw [hread₂, hread₁]
  · rw [hprev₂, hprev₁]

end Effects

/-! ### The list after an operation -/

section Lists

variable {q : Tailq ι β} {l l₁ l₂ : List ι} {a b : ι}

/-- `TAILQ_INSERT_TAIL` of a node that is not in the queue. -/
theorem Represents.insertTail (h : q.Represents l) (ha : q.dataOf a ≠ none) (hnew : a ∉ l) :
    ∃ q', q.insertTail a = some q' ∧ q'.Represents (l ++ [a]) ∧ q'.dataOf = q.dataOf := by
  obtain ⟨hl, hseg, hends⟩ := h
  obtain ⟨q', hq', hlast, hdata, hread, hprev⟩ :=
    insertTail_spec ha (hends ▸ Option.some_ne_none none)
  have hnext := next_ne_of_notMem hnew
  have hne : q.last ≠ .next a := hseg.end_ne (head_ne_next a) hnext
  refine ⟨q', hq', ⟨?_, ?_, ?_⟩, hdata⟩
  · exact List.nodup_append.mpr ⟨hl, List.nodup_singleton a, fun b hb c hc heq =>
      hnew (List.eq_of_mem_singleton hc ▸ heq ▸ hb)⟩
  · refine seg_append.mpr ⟨q.last, hseg.congr hl nofun ?_ ?_, ?_, ?_, hlast.symm⟩
    · intro r hr hmem
      rw [hread, if_neg hr, if_neg (ne_of_pointer (head_ne_next a) hnext hmem)]
    · intro c hc
      rw [hprev, if_neg]
      rintro rfl
      exact hnew hc
    · rw [hread, if_pos rfl]
    · rw [hprev, if_pos rfl]
  · rw [hlast, hread, if_neg hne.symm, if_pos rfl]

/-- `TAILQ_REMOVE`: the node keeps its links. -/
theorem Represents.remove (h : q.Represents (l₁ ++ a :: l₂)) :
    ∃ q' p, q.remove a = some q' ∧ q'.Represents (l₁ ++ l₂) ∧ q'.dataOf = q.dataOf ∧
      q'.Seg .head l₁ p ∧ q'.read p = some l₂.head? ∧ q'.prevOf a = some p := by
  have hnodup := h.nodup
  obtain ⟨hl₁, hal₂, hdisj⟩ := List.nodup_append.mp hnodup
  obtain ⟨hal, hl₂⟩ := List.nodup_cons.mp hal₂
  obtain ⟨p, h₁, hreada, hpreva, h₂, hnext, hp⟩ := h.split
  have hn (b : ι) (hb : l₂.head? = some b) : q.dataOf b ≠ none :=
    h₂.dataOf_ne_none (List.mem_of_head? hb)
  obtain ⟨q', hq', hlast, hdata, hread, hprev⟩ :=
    remove_spec hpreva hnext (hreada ▸ Option.some_ne_none _) hn
  have hout (x : ι) (hx : x ∈ a :: l₂) : Link.next x ≠ p :=
    (hp x fun y hy h => hdisj y hy x hx h.symm).symm
  obtain ⟨houta, hout₂⟩ := List.forall_mem_cons.mp hout
  have hseg₁ : q'.Seg .head l₁ p := by
    refine h₁.congr hl₁ nofun (fun r hr _ => by rw [hread, if_neg hr]) fun c hc => ?_
    rw [hprev, if_neg]
    intro hhead
    exact hdisj c hc c (List.mem_cons_of_mem a (List.mem_of_head? hhead)) rfl
  refine ⟨q', p, hq', ⟨?_, ?_, ?_⟩, hdata, hseg₁, by rw [hread, if_pos rfl], ?_⟩
  · exact List.nodup_append.mpr
      ⟨hl₁, hl₂, fun x hx y hy => hdisj x hx y (List.mem_cons_of_mem a hy)⟩
  · refine seg_append.mpr ⟨p, hseg₁, ?_⟩
    cases l₂ with
    | nil => exact hlast.symm
    | cons b l₃ =>
      obtain ⟨hb, hl₃⟩ := List.nodup_cons.mp hl₂
      obtain ⟨-, -, hrest⟩ := h₂
      rw [List.head?_cons] at hread hprev
      rw [List.head?_cons, if_neg (Option.some_ne_none b)] at hlast
      refine ⟨by rw [hread, if_pos rfl], by rw [hprev, if_pos rfl], ?_⟩
      rw [hlast]
      refine hrest.congr hl₃ (fun x hx heq => hb (Link.next.inj heq ▸ hx)) ?_ ?_
      · intro r _ hr
        obtain ⟨houtb, hout₃⟩ := List.forall_mem_cons.mp hout₂
        rw [hread, if_neg (ne_of_pointer houtb hout₃ hr)]
      · intro c hc
        rw [hprev, if_neg]
        intro heq
        exact hb (Option.some.inj heq ▸ hc)
  · rw [hlast, hread]
    by_cases hnil : l₂.head? = none
    · rw [if_pos hnil, if_pos rfl, hnil]
    · rw [if_neg hnil, if_neg (h₂.end_ne houta hout₂), h.ends]
  · rw [hprev, hpreva, ite_self]

/-- `TAILQ_INSERT_BEFORE` of a node that is not in the queue. -/
theorem Represents.insertBefore (h : q.Represents (l₁ ++ b :: l₂)) (ha : q.dataOf a ≠ none)
    (hnew : a ∉ l₁ ++ b :: l₂) :
    ∃ q', q.insertBefore b a = some q' ∧ q'.Represents (l₁ ++ a :: b :: l₂) ∧
      q'.dataOf = q.dataOf := by
  have hnodup := h.nodup
  obtain ⟨hl₁, hbl₂, hdisj⟩ := List.nodup_append.mp hnodup
  obtain ⟨hb, hl₂⟩ := List.nodup_cons.mp hbl₂
  obtain ⟨p, h₁, hreadb, hprevb, h₂, hnext, hp⟩ := h.split
  obtain ⟨q', hq', hlast, hdata, hread, hprev⟩ :=
    insertBefore_spec ha hprevb (hreadb ▸ Option.some_ne_none _)
  have hnew₁ : a ∉ l₁ := fun h => hnew (List.mem_append_left _ h)
  have hnew₂ : a ∉ b :: l₂ := fun h => hnew (List.mem_append_right _ h)
  have hab : a ≠ b := fun h => hnew₂ (h ▸ List.mem_cons_self)
  have hpa : p ≠ .next a := hp a fun y hy h => hnew₁ (h ▸ hy)
  have hout (x : ι) (hx : x ∈ b :: l₂) : Link.next x ≠ p :=
    (hp x fun y hy h => hdisj y hy x hx h.symm).symm
  obtain ⟨houtb, hout₂⟩ := List.forall_mem_cons.mp hout
  have hnext₁ := next_ne_of_notMem hnew₁
  obtain ⟨hnextb, hnext₂⟩ := List.forall_mem_cons.mp (next_ne_of_notMem hnew₂)
  refine ⟨q', hq', ⟨?_, ?_, ?_⟩, hdata⟩
  · exact List.nodup_middle.mpr (List.nodup_cons.mpr ⟨hnew, hnodup⟩)
  · refine seg_append.mpr ⟨p, ?_, ?_, ?_, ?_, ?_, ?_⟩
    · refine h₁.congr hl₁ nofun ?_ ?_
      · intro r hr hmem
        rw [hread, if_neg hr, if_neg (ne_of_pointer (head_ne_next a) hnext₁ hmem)]
      · intro c hc
        rw [hprev, if_neg, if_neg]
        · rintro rfl
          exact hnew₁ hc
        · rintro rfl
          exact hdisj c hc c List.mem_cons_self rfl
    · rw [hread, if_pos rfl]
    · rw [hprev, if_neg hab, if_pos rfl]
    · rw [hread, if_neg hpa.symm, if_pos rfl]
    · rw [hprev, if_pos rfl]
    · rw [hlast]
      refine h₂.congr hl₂ (fun x hx heq => hb (Link.next.inj heq ▸ hx)) ?_ ?_
      · intro r _ hr
        rw [hread, if_neg (ne_of_pointer houtb hout₂ hr),
          if_neg (ne_of_pointer hnextb hnext₂ hr)]
      · intro c hc
        rw [hprev, if_neg, if_neg]
        · rintro rfl
          exact hnew₂ (List.mem_cons_of_mem b hc)
        · rintro rfl
          exact hb hc
  · rw [hlast, hread, if_neg (h₂.end_ne houtb hout₂), if_neg (h₂.end_ne hnextb hnext₂), h.ends]

/-- A node that is taken out and inserted before itself is its own successor. -/
theorem Represents.insertBefore_self (h : q.Represents (l₁ ++ a :: l₂)) :
    ∃ q₁ q₂ p, q.remove a = some q₁ ∧ q₁.insertBefore a a = some q₂ ∧ q₂.Seg .head l₁ p ∧
      q₂.read p = some (some a) ∧ q₂.read (.next a) = some (some a) := by
  obtain ⟨hl₁, -, hdisj⟩ := List.nodup_append.mp h.nodup
  have hnotin : a ∉ l₁ := fun ha => hdisj a ha a List.mem_cons_self rfl
  have hlive : q.dataOf a ≠ none :=
    h.dataOf_ne_none (List.mem_append_right l₁ List.mem_cons_self)
  obtain ⟨q₁, p, hq₁, -, hdata₁, hseg, hread, hprev⟩ := h.remove
  obtain ⟨q₂, hq₂, -, -, hread₂, hprev₂⟩ :=
    insertBefore_spec (hdata₁ ▸ hlive) hprev (hread ▸ Option.some_ne_none _)
  refine ⟨q₁, q₂, p, hq₁, hq₂, hseg.congr hl₁ nofun ?_ ?_, ?_, ?_⟩
  · intro r hr hmem
    rw [hread₂, if_neg hr, if_neg (ne_of_pointer (head_ne_next a) (next_ne_of_notMem hnotin) hmem)]
  · intro c hc
    rw [hprev₂, if_neg, if_neg]
    all_goals
      rintro rfl
      exact hnotin hc
  · rw [hread₂, if_pos rfl]
  · rw [hread₂, if_pos (rfl : Link.next a = .next a), ite_self]

theorem Represents.alloc (h : q.Represents l) (ha : a ∉ l) (data : β) :
    (q.alloc a data).Represents l := by
  refine h.congr rfl (fun r hr => ?_) fun b hb => ?_
  · rcases hr with rfl | ⟨b, hb, rfl⟩
    · rfl
    · have hne : b ≠ a := fun h => ha (h ▸ hb)
      simp [Tailq.alloc, read, hne]
  · have hne : b ≠ a := fun h => ha (h ▸ hb)
    simp [Tailq.alloc, prevOf, hne]

theorem Represents.free (h : q.Represents l) (ha : a ∉ l) : (q.free a).Represents l := by
  refine h.congr rfl (fun r hr => ?_) fun b hb => ?_
  · rcases hr with rfl | ⟨b, hb, rfl⟩
    · rfl
    · have hne : b ≠ a := fun h => ha (h ▸ hb)
      simp [Tailq.free, read, hne]
  · have hne : b ≠ a := fun h => ha (h ▸ hb)
    simp [Tailq.free, prevOf, hne]

end Lists

/-! ### Loops over a queue -/

section Loops

variable {q q' : Tailq ι β} {l : List ι} {p p' : Link ι} {v : Option ι}

variable {σ : Type*}

theorem Seg.foreach (f : σ → β → β × σ) (h : q.Seg p l p') (hl : l.Nodup)
    (hends : q.read p' = some none) (hv : q.read p = some v) {ds : List β}
    (hdata : l.map q.dataOf = ds.map some) {n : ℕ} (hn : l.length ≤ n) (s : σ) :
    ∃ q', Tailq.foreach f n q s v = some q' ∧ q'.last = q.last ∧ q'.read = q.read ∧
      q'.prevOf = q.prevOf ∧ l.map q'.dataOf = (foreachData f s ds).map some ∧
      ∀ b, b ∉ l → q'.dataOf b = q.dataOf b := by
  induction l generalizing p v n q s ds with
  | nil =>
    obtain rfl := h
    obtain rfl := Option.some.inj (hends.symm.trans hv)
    obtain rfl : ds = [] := List.map_eq_nil_iff.mp hdata.symm
    refine ⟨q, ?_, rfl, rfl, rfl, rfl, fun _ _ => rfl⟩
    cases n <;> rfl
  | cons a l ih =>
    obtain ⟨ha, hl⟩ := List.nodup_cons.mp hl
    obtain ⟨rfl, e, he, hnext, hrest⟩ := h.of_read hv
    obtain ⟨n, rfl⟩ : ∃ k, n = k + 1 := Nat.exists_eq_add_one_of_ne_zero (by
      rw [List.length_cons] at hn
      omega)
    obtain ⟨d, ds, rfl⟩ : ∃ d ds', ds = d :: ds' := by
      cases ds with
      | nil => cases hdata
      | cons d ds => exact ⟨d, ds, rfl⟩
    rw [List.map_cons, List.map_cons, List.cons.injEq] at hdata
    obtain ⟨hd, hds⟩ := hdata
    have hed : e.data = d := by
      rw [dataOf, he, Option.map_some] at hd
      exact Option.some.inj hd
    subst hed
    obtain ⟨q₁, hq₁, hlast₁, hread₁, hprev₁, hdata₁⟩ :=
      setData_spec (hd ▸ Option.some_ne_none _) (f s e.data).1
    have hnext₁ : q₁.read (.next a) = some e.next := hread₁ ▸ hnext
    obtain ⟨e₁, he₁, hen⟩ := Option.map_eq_some_iff.mp hnext₁
    have hds₁ : l.map q₁.dataOf = ds.map some := by
      rw [← hds]
      refine List.map_congr_left fun b hb => ?_
      rw [hdata₁, if_neg]
      rintro rfl
      exact ha hb
    obtain ⟨q₂, hq₂, hlast₂, hread₂, hprev₂, hdata₂, hother⟩ :=
      ih (hrest.of_eq hread₁ hprev₁) hl (hread₁ ▸ hends) hnext₁ hds₁
        (Nat.le_of_succ_le_succ hn) (f s e.data).2
    refine ⟨q₂, ?_, hlast₂.trans hlast₁, hread₂.trans hread₁, hprev₂.trans hprev₁, ?_, ?_⟩
    · rw [Tailq.foreach, he, Option.bind_some, hq₁, Option.bind_some, he₁, Option.bind_some, hen,
        hq₂]
    · rw [List.map_cons, foreachData, List.map_cons, hdata₂, hother a ha, hdata₁, if_pos rfl]
    · intro b hb
      obtain ⟨hba, hbl⟩ := not_or.mp (mt List.mem_cons.mpr hb)
      rw [hother b hbl, hdata₁, if_neg hba]

/-- **A loop that changes the data of each node.** -/
theorem Represents.foreach (h : q.Represents l) (f : σ → β → β × σ) {ds : List β}
    (hdata : l.map q.dataOf = ds.map some) {n : ℕ} (hn : l.length ≤ n) (s : σ) :
    ∃ q', Tailq.foreach f n q s q.first = some q' ∧ q'.Represents l ∧
      l.map q'.dataOf = (foreachData f s ds).map some := by
  obtain ⟨q', hq', hlast, hread, hprev, hdata', -⟩ :=
    h.seg.foreach f h.nodup h.ends rfl hdata hn s
  exact ⟨q', hq', h.congr hlast (fun r _ => by rw [hread]) fun a _ => by rw [hprev], hdata'⟩

/-- A node that is its own successor is visited for ever. -/
theorem foreach_of_selfLoop (f : σ → β → β × σ) {a : ι} (h : q.read (.next a) = some (some a))
    (n : ℕ) (s : σ) : Tailq.foreach f n q s (some a) = none := by
  induction n generalizing q s with
  | zero => rfl
  | succ n ih =>
    obtain ⟨e, he, hen⟩ := Option.map_eq_some_iff.mp h
    have ha : q.dataOf a ≠ none := read_next_ne_none.mp (h ▸ Option.some_ne_none _)
    obtain ⟨q₁, hq₁, -, hread₁, -, -⟩ := setData_spec ha (f s e.data).1
    have hnext₁ : q₁.read (.next a) = some (some a) := hread₁ ▸ h
    obtain ⟨e₁, he₁, hen₁⟩ := Option.map_eq_some_iff.mp hnext₁
    rw [Tailq.foreach, he, Option.bind_some, hq₁, Option.bind_some, he₁, Option.bind_some, hen₁]
    exact ih hnext₁ _

/-- **A loop does not end** where the nodes lead to one that is its own successor. -/
theorem Seg.foreach_of_selfLoop (f : σ → β → β × σ) {a : ι} (h : q.Seg p l p')
    (hv : q.read p = some v) (ha : q.read p' = some (some a))
    (hself : q.read (.next a) = some (some a)) (n : ℕ) (s : σ) :
    Tailq.foreach f n q s v = none := by
  induction l generalizing p v n q s with
  | nil =>
    obtain rfl := h
    obtain rfl := Option.some.inj (ha.symm.trans hv)
    exact Tailq.foreach_of_selfLoop f hself n s
  | cons b l ih =>
    obtain ⟨rfl, e, he, hnext, hrest⟩ := h.of_read hv
    cases n with
    | zero => rfl
    | succ n =>
      have hb : q.dataOf b ≠ none := exists_entry.mp ⟨e, he⟩
      obtain ⟨q₁, hq₁, -, hread₁, hprev₁, -⟩ := setData_spec hb (f s e.data).1
      have hnext₁ : q₁.read (.next b) = some e.next := hread₁ ▸ hnext
      obtain ⟨e₁, he₁, hen₁⟩ := Option.map_eq_some_iff.mp hnext₁
      rw [Tailq.foreach, he, Option.bind_some, hq₁, Option.bind_some, he₁, Option.bind_some, hen₁]
      exact ih (hrest.of_eq hread₁ hprev₁) hnext₁ (hread₁ ▸ ha) (hread₁ ▸ hself) n _

end Loops

end SortingLine.Tailq
