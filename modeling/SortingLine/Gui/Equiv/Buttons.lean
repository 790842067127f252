import Mathlib.Data.List.Find
import SortingLine.Gui.Buttons

/-!
# Is the registry of buttons the list that it should be?

A call that finds one button takes it out of the queue before it frees it, and the queue is that of
the list without it.  `delete_button_by_group` finds the buttons in a loop over the queue, and frees
the node that the loop is at: the first button of the group is the last one that it reaches.
-/

namespace SortingLine.Gui.Buttons

variable {ι : Type*}

/-- The registry is this list of buttons, and has no other nodes. -/
structure Holds (r : Registry ι) (l : List (ι × TButton)) : Prop where
  nodes : r.buttons.Represents (l.map Prod.fst)
  data : ∀ x ∈ l, r.buttons.dataOf x.1 = some x.2
  only : ∀ a, r.buttons.dataOf a ≠ none → a ∈ l.map Prod.fst
  guids : (l.map fun x => x.2.guid).Nodup
  bound : l.length ≤ r.created

section Lists

variable {l l₁ l₂ : List (ι × TButton)} {x : ι × TButton}

/-- Different buttons have different numbers. -/
theorem eq_of_guid (hl : (l.map fun x => x.2.guid).Nodup) {y : ι × TButton} (hx : x ∈ l)
    (hy : y ∈ l) (h : x.2.guid = y.2.guid) : x = y :=
  List.inj_on_of_nodup_map hl hx hy h

/-- The list without one button is the list without those that have its number. -/
theorem filter_of_split {p : ι × TButton → Bool} (hp : ∀ y ∈ l₁ ++ l₂, p y = true)
    (hx : p x = false) : (l₁ ++ x :: l₂).filter p = l₁ ++ l₂ := by
  rw [List.filter_append, List.filter_cons_of_neg (by simp [hx]), ← List.filter_append,
    List.filter_eq_self.mpr hp]

end Lists

section Calls

variable {r : Registry ι} {l l₁ l₂ : List (ι × TButton)} {x : ι × TButton}

/-- `find_button` finds the button with the number. -/
theorem Holds.findButton_eq (h : Holds r l) (guid : ℤ) :
    findButton r guid = some ((l.find? fun x => x.2.guid = guid).map Prod.fst) := by
  have hbound : (l.map Prod.fst).length ≤ r.created := by
    rw [List.length_map]
    exact h.bound
  rw [findButton, h.nodes.find _ hbound, List.find?_map]
  refine congrArg (fun x => some (Option.map Prod.fst x)) (List.find?_congr fun x hx => ?_)
  rw [Function.comp_apply, h.data x hx, Option.any_some]

theorem Holds.findButton_of_mem (h : Holds r l) (hx : x ∈ l) :
    findButton r x.2.guid = some (some x.1) := by
  rw [h.findButton_eq]
  cases hy : l.find? (fun y => y.2.guid = x.2.guid) with
  | none =>
    have hnone := List.find?_eq_none.mp hy x hx
    exact absurd (decide_eq_true rfl) hnone
  | some y =>
    have hguid : y.2.guid = x.2.guid := by simpa using List.find?_some hy
    rw [eq_of_guid h.guids (List.mem_of_find?_eq_some hy) hx hguid, Option.map_some]

theorem Holds.findButton_of_unused (h : Holds r l) {guid : ℤ} (hno : ∀ x ∈ l, x.2.guid ≠ guid) :
    findButton r guid = some none := by
  rw [h.findButton_eq, List.find?_eq_none.mpr fun x hx => by simpa using hno x hx, Option.map_none]

variable [DecidableEq ι]

/-- **A button is taken out and freed**: its node has no links then. -/
theorem Holds.remove (h : Holds r (l₁ ++ x :: l₂)) :
    ∃ buttons, r.buttons.remove x.1 = some buttons ∧
      Holds { r with buttons := buttons.free x.1 } (l₁ ++ l₂) ∧
      (buttons.free x.1).read (.next x.1) = none := by
  have hnodes := h.nodes
  rw [List.map_append, List.map_cons] at hnodes
  obtain ⟨q, p, hq, hrep, hdata, -, -, -⟩ := hnodes.remove
  have hnotin : x.1 ∉ l₁.map Prod.fst ++ l₂.map Prod.fst :=
    (List.nodup_cons.mp (List.nodup_middle.mp hnodes.nodup)).1
  have hmem {y : ι × TButton} (hy : y ∈ l₁ ++ l₂) : y ∈ l₁ ++ x :: l₂ := by
    rcases List.mem_append.mp hy with hy | hy
    · exact List.mem_append_left _ hy
    · exact List.mem_append_right _ (List.mem_cons_of_mem x hy)
  rw [← List.map_append] at hrep hnotin
  refine ⟨q, hq, ⟨hrep.free hnotin, ?_, ?_, ?_, ?_⟩, ?_⟩
  · intro y hy
    rw [Tailq.dataOf_free, if_neg, hdata]
    · exact h.data y (hmem hy)
    · intro heq
      exact hnotin (heq ▸ List.mem_map_of_mem hy)
  · intro a ha
    rw [Tailq.dataOf_free] at ha
    split_ifs at ha with hax
    · exact absurd rfl ha
    · have hin := h.only a (hdata ▸ ha)
      rw [List.map_append, List.map_cons, List.mem_append, List.mem_cons] at hin
      rw [List.map_append, List.mem_append]
      rcases hin with hin | rfl | hin
      · exact .inl hin
      · exact absurd rfl hax
      · exact .inr hin
  · have hguids := h.guids
    rw [List.map_append, List.map_cons] at hguids
    rw [List.map_append]
    exact (List.nodup_cons.mp (List.nodup_middle.mp hguids)).2
  · have hbound := h.bound
    rw [List.length_append, List.length_cons] at hbound
    show (l₁ ++ l₂).length ≤ r.created
    rw [List.length_append]
    omega
  · by_contra hread
    have hfreed := Tailq.read_next_ne_none.mp hread
    rw [Tailq.dataOf_free, if_pos rfl] at hfreed
    exact hfreed rfl

theorem Holds.delete (h : Holds r (l₁ ++ x :: l₂)) :
    ∃ r', deleteButtonByGuid r x.2.guid = some (r', 0) ∧ Holds r' (l₁ ++ l₂) ∧
      r'.buttons.read (.next x.1) = none := by
  obtain ⟨buttons, hremove, hholds, hread⟩ := h.remove
  refine ⟨_, ?_, hholds, hread⟩
  rw [deleteButtonByGuid,
    h.findButton_of_mem (List.mem_append_right l₁ List.mem_cons_self), Option.bind_some]
  dsimp only
  rw [hremove, Option.map_some]

/-- A button with a number that is not in use is put at the end. -/
theorem Holds.newButton_of_unused (h : Holds r l) {addr : ι} (haddr : r.buttons.dataOf addr = none)
    {btn : TButton} (hno : ∀ x ∈ l, x.2.guid ≠ btn.guid) :
    ∃ r', newButton r (some addr) btn = some (r', some addr) ∧ Holds r' (l ++ [(addr, btn)]) := by
  have hnotin : addr ∉ l.map Prod.fst := by
    intro hmem
    obtain ⟨x, hx, rfl⟩ := List.mem_map.mp hmem
    exact Option.some_ne_none _ ((h.data x hx).symm.trans haddr)
  have hlive : (r.buttons.alloc addr btn).dataOf addr ≠ none := by
    rw [Tailq.dataOf_alloc, if_pos rfl]
    exact Option.some_ne_none btn
  obtain ⟨q, hq, hrep, hdata⟩ := (h.nodes.alloc hnotin btn).insertTail hlive hnotin
  refine ⟨{ buttons := q, created := r.created + 1 }, ?_, ⟨?_, ?_, ?_, ?_, ?_⟩⟩
  · rw [newButton, h.findButton_of_unused hno, Option.bind_some]
    dsimp only
    rw [hq, Option.map_some]
  · rw [List.map_append]
    exact hrep
  · intro x hx
    show q.dataOf x.1 = some x.2
    rw [hdata, Tailq.dataOf_alloc]
    rcases List.mem_append.mp hx with hx | hx
    · rw [if_neg, h.data x hx]
      intro heq
      exact hnotin (heq ▸ List.mem_map_of_mem hx)
    · rw [List.eq_of_mem_singleton hx, if_pos rfl]
  · intro a ha
    have ha' : q.dataOf a ≠ none := ha
    rw [hdata, Tailq.dataOf_alloc] at ha'
    rw [List.map_append, List.mem_append]
    split_ifs at ha' with haa
    · exact .inr (List.mem_singleton.mpr haa)
    · exact .inl (h.only a ha')
  · rw [List.map_append]
    refine List.nodup_append.mpr ⟨h.guids, List.nodup_singleton _, fun g hg g' hg' heq => ?_⟩
    obtain ⟨x, hx, rfl⟩ := List.mem_map.mp hg
    exact hno x hx (heq.trans (List.eq_of_mem_singleton hg'))
  · rw [List.length_append, List.length_singleton]
    exact Nat.succ_le_succ h.bound

/-- The loop over a part of the queue without a button of the group. -/
theorem groupLoop_of_none {group : ℤ} {p p' : Link ι} {v : Option ι}
    (hseg : r.buttons.Seg p (l.map Prod.fst) p') (hends : r.buttons.read p' = some none)
    (hv : r.buttons.read p = some v) (hdata : ∀ x ∈ l, r.buttons.dataOf x.1 = some x.2)
    (hno : ∀ x ∈ l, x.2.group ≠ group) {n : ℕ} (hn : l.length ≤ n) :
    groupLoop group n r v = some r := by
  induction l generalizing p v n with
  | nil =>
    obtain rfl := hseg
    obtain rfl := Option.some.inj (hends.symm.trans hv)
    cases n <;> rfl
  | cons x l ih =>
    obtain ⟨rfl, e, -, hnext, hrest⟩ := hseg.of_read hv
    obtain ⟨n, rfl⟩ : ∃ k, n = k + 1 := Nat.exists_eq_add_one_of_ne_zero (by
      rw [List.length_cons] at hn
      omega)
    obtain ⟨hx, hdata⟩ := List.forall_mem_cons.mp hdata
    obtain ⟨hgroup, hno⟩ := List.forall_mem_cons.mp hno
    rw [groupLoop, hx, Option.bind_some, if_neg hgroup, Option.bind_some, hnext, Option.bind_some]
    exact ih hrest hnext hdata hno (Nat.le_of_succ_le_succ hn)

/-- **The loop over a part of the queue with a button of the group** follows a link of the first
one after it is freed. -/
theorem groupLoop_of_some {group : ℤ} {p p' : Link ι} {v : Option ι}
    (hseg : r.buttons.Seg p (l.map Prod.fst) p') (hv : r.buttons.read p = some v)
    (hdata : ∀ x ∈ l, r.buttons.dataOf x.1 = some x.2)
    (hdelete : ∀ x ∈ l, ∃ r', deleteButtonByGuid r x.2.guid = some (r', 0) ∧
      r'.buttons.read (.next x.1) = none)
    (hsome : ∃ x ∈ l, x.2.group = group) (n : ℕ) : groupLoop group n r v = none := by
  induction l generalizing p v n with
  | nil =>
    obtain ⟨x, hx, -⟩ := hsome
    cases hx
  | cons x l ih =>
    obtain ⟨rfl, e, -, hnext, hrest⟩ := hseg.of_read hv
    cases n with
    | zero => rfl
    | succ n =>
      obtain ⟨hx, hdata⟩ := List.forall_mem_cons.mp hdata
      obtain ⟨⟨r', hr', hread⟩, hdelete⟩ := List.forall_mem_cons.mp hdelete
      rw [groupLoop, hx, Option.bind_some]
      by_cases hgroup : x.2.group = group
      · rw [if_pos hgroup, hr', Option.map_some, Option.bind_some, hread, Option.bind_none]
      · rw [if_neg hgroup, Option.bind_some, hnext, Option.bind_some]
        refine ih hrest hnext hdata hdelete ?_ n
        obtain ⟨y, hy, hygroup⟩ := hsome
        rcases List.mem_cons.mp hy with rfl | hy
        · exact absurd hygroup hgroup
        · exact ⟨y, hy, hygroup⟩

theorem Holds.deleteButtonByGroup_of_none (h : Holds r l) {group : ℤ}
    (hno : ∀ x ∈ l, x.2.group ≠ group) : deleteButtonByGroup r group = some (r, 0) := by
  rw [deleteButtonByGroup, groupLoop_of_none h.nodes.seg h.nodes.ends rfl h.data hno h.bound,
    Option.map_some]

theorem Holds.deleteButtonByGroup_of_some (h : Holds r l) {group : ℤ}
    (hsome : ∃ x ∈ l, x.2.group = group) : deleteButtonByGroup r group = none := by
  have hdelete (x : ι × TButton) (hx : x ∈ l) : ∃ r', deleteButtonByGuid r x.2.guid = some (r', 0) ∧
      r'.buttons.read (.next x.1) = none := by
    obtain ⟨l₁, l₂, rfl⟩ := List.append_of_mem hx
    obtain ⟨r', hr', -, hread⟩ := h.delete
    exact ⟨r', hr', hread⟩
  rw [deleteButtonByGroup, groupLoop_of_some h.nodes.seg rfl h.data hdelete hsome, Option.map_none]

/-- The loop of `delete_button_all` takes the buttons from the end. -/
theorem Holds.allLoop_eq (h : Holds r l) {n : ℕ} (hn : l.length ≤ n) :
    ∃ r', allLoop n r = some r' ∧ Holds r' [] := by
  induction n generalizing r l with
  | zero =>
    obtain rfl := List.eq_nil_of_length_eq_zero (Nat.le_zero.mp hn)
    refine ⟨r, ?_, h⟩
    rw [allLoop, h.nodes.lastNode]
    rfl
  | succ n ih =>
    rcases List.eq_nil_or_concat l with rfl | ⟨l, x, rfl⟩
    · refine ⟨r, ?_, h⟩
      rw [allLoop, h.nodes.lastNode]
      rfl
    · rw [List.concat_eq_append] at h hn
      obtain ⟨buttons, hremove, hholds, -⟩ := h.remove
      rw [List.append_nil] at hholds
      rw [List.length_append, List.length_singleton] at hn
      obtain ⟨r', hr', hall⟩ := ih hholds (by omega)
      refine ⟨r', ?_, hall⟩
      rw [allLoop, h.nodes.lastNode, List.map_append, List.map_singleton, List.getLast?_concat,
        Option.bind_some]
      dsimp only
      rw [hremove, Option.bind_some, hr']

/-! ### What a call does -/

/-- A call of `delete_button_by_group` for a group without buttons, or any other call. -/
def Harmless (l : List (ι × TButton)) : Call ι → Prop
  | .deleteByGroup group => ∀ x ∈ l, x.2.group ≠ group
  | _ => True

instance (l : List (ι × TButton)) (c : Call ι) : Decidable (Harmless l c) :=
  match c with
  | .deleteByGroup group => inferInstanceAs (Decidable (∀ x ∈ l, x.2.group ≠ group))
  | .new _ _ => .isTrue trivial
  | .deleteByGuid _ => .isTrue trivial
  | .delete _ => .isTrue trivial
  | .deleteAll => .isTrue trivial

theorem Holds.deleteByGuid_eq (h : Holds r l) (guid : ℤ) :
    ∃ r', call r (.deleteByGuid guid) = some (r', (expected l (.deleteByGuid guid)).2) ∧
      Holds r' (expected l (.deleteByGuid guid)).1 := by
  rw [expected, call]
  by_cases hused : ∃ x ∈ l, x.2.guid = guid
  · have hany : (l.any fun x => x.2.guid = guid) = true := by simpa using hused
    obtain ⟨x, hx, rfl⟩ := hused
    obtain ⟨l₁, l₂, rfl⟩ := List.append_of_mem hx
    obtain ⟨r', hr', hholds, -⟩ := h.delete
    refine ⟨r', ?_, ?_⟩
    · rw [hr', if_pos hany]
      rfl
    · rw [filter_of_split (fun y hy => ?_) (by simp)]
      · exact hholds
      · have hguids := h.guids
        rw [List.map_append, List.map_cons] at hguids
        have hnotin := (List.nodup_cons.mp (List.nodup_middle.mp hguids)).1
        rw [← List.map_append] at hnotin
        refine decide_eq_true fun heq => hnotin ?_
        exact heq ▸ List.mem_map_of_mem hy
  · have hno (x : ι × TButton) (hx : x ∈ l) : x.2.guid ≠ guid := fun heq => hused ⟨x, hx, heq⟩
    have hany : ¬ (l.any fun x => x.2.guid = guid) = true := by simpa using hno
    refine ⟨r, ?_, ?_⟩
    · rw [deleteButtonByGuid, h.findButton_of_unused hno, if_neg hany]
      rfl
    · rw [List.filter_eq_self.mpr fun x hx => decide_eq_true (hno x hx)]
      exact h

theorem Holds.delete_eq (h : Holds r l) (pBtn : Option ι) (hallowed : Allowed r (.delete pBtn)) :
    ∃ r', call r (.delete pBtn) = some (r', (expected l (.delete pBtn)).2) ∧
      Holds r' (expected l (.delete pBtn)).1 := by
  cases pBtn with
  | none => exact ⟨r, rfl, h⟩
  | some pBtn =>
    obtain ⟨x, hx, rfl⟩ := List.mem_map.mp (h.only pBtn hallowed)
    have hdata := h.data x hx
    obtain ⟨l₁, l₂, rfl⟩ := List.append_of_mem hx
    obtain ⟨r', hr', hholds, -⟩ := h.delete
    refine ⟨r', ?_, ?_⟩
    · rw [call, deleteButton, hdata, Option.bind_some, hr']
      rfl
    · rw [expected, filter_of_split (fun y hy => ?_) (by simp)]
      · exact hholds
      · have hnodup := h.nodes.nodup
        rw [List.map_append, List.map_cons] at hnodup
        have hnotin := (List.nodup_cons.mp (List.nodup_middle.mp hnodup)).1
        rw [← List.map_append] at hnotin
        refine decide_eq_true fun heq => hnotin ?_
        exact heq ▸ List.mem_map_of_mem hy

theorem Holds.new_eq (h : Holds r l) (addr : Option ι) (btn : TButton)
    (hallowed : Allowed r (.new addr btn)) :
    ∃ r', call r (.new addr btn) = some (r', (expected l (.new addr btn)).2) ∧
      Holds r' (expected l (.new addr btn)).1 := by
  rw [call]
  by_cases hused : ∃ x ∈ l, x.2.guid = btn.guid
  · -- the number is in use
    have hany : (l.any fun x => x.2.guid = btn.guid) = true := by simpa using hused
    obtain ⟨x, hx, hguid⟩ := hused
    have hfind := hguid ▸ h.findButton_of_mem hx
    refine ⟨r, ?_, ?_⟩
    · rw [newButton, hfind]
      cases addr with
      | none => rfl
      | some addr =>
        rw [expected, if_pos hany]
        rfl
    · cases addr with
      | none => exact h
      | some addr =>
        rw [expected, if_pos hany]
        exact h
  · have hno (x : ι × TButton) (hx : x ∈ l) : x.2.guid ≠ btn.guid :=
      fun heq => hused ⟨x, hx, heq⟩
    have hany : ¬ (l.any fun x => x.2.guid = btn.guid) = true := by simpa using hno
    cases addr with
    | none =>
      refine ⟨r, ?_, h⟩
      rw [newButton, h.findButton_of_unused hno]
      rfl
    | some addr =>
      obtain ⟨r', hr', hholds⟩ := h.newButton_of_unused hallowed hno
      refine ⟨r', ?_, ?_⟩
      · rw [hr', expected, if_neg hany]
        rfl
      · rw [expected, if_neg hany]
        exact hholds

/-- **A harmless call** does to the registry what it should do to the list. -/
theorem Holds.call_eq (h : Holds r l) {c : Call ι} (hallowed : Allowed r c)
    (hharmless : Harmless l c) :
    ∃ r', call r c = some (r', (expected l c).2) ∧ Holds r' (expected l c).1 := by
  cases c with
  | new addr btn => exact h.new_eq addr btn hallowed
  | deleteByGuid guid => exact h.deleteByGuid_eq guid
  | delete pBtn => exact h.delete_eq pBtn hallowed
  | deleteByGroup group =>
    have hno : ∀ x ∈ l, x.2.group ≠ group := hharmless
    refine ⟨r, ?_, ?_⟩
    · rw [call, h.deleteButtonByGroup_of_none hno]
      rfl
    · rw [expected, List.filter_eq_self.mpr fun x hx => decide_eq_true (hno x hx)]
      exact h
  | deleteAll =>
    obtain ⟨r', hr', hall⟩ := h.allLoop_eq h.bound
    refine ⟨r', ?_, hall⟩
    rw [call, deleteButtonAll, hr']
    rfl

/-- A call that is not harmless follows a link of a node that it has freed. -/
theorem Holds.call_of_not_harmless (h : Holds r l) {c : Call ι} (hharmful : ¬ Harmless l c) :
    call r c = none := by
  cases c with
  | deleteByGroup group =>
    have hsome : ∃ x ∈ l, x.2.group = group := by
      by_contra hno
      exact hharmful fun x hx heq => hno ⟨x, hx, heq⟩
    rw [call, h.deleteButtonByGroup_of_some hsome, Option.map_none]
  | _ => exact absurd trivial hharmful

end Calls

/-! ### Runs of calls -/

section Runs

variable {s s' : Paired ι} {c : Call ι} {tr : List (Paired ι × Call ι)}

/-- As long as no link was followed that is not there, the registry is as it should be. -/
def Kept (s : Paired ι) : Prop :=
  ∀ r, s.registry = some r → Holds r s.list ∧ s.ret = s.listRet

theorem holds_empty : Holds (empty : Registry ι) [] :=
  ⟨Tailq.represents_empty, fun _ hx => absurd hx List.not_mem_nil, fun _ ha => absurd rfl ha,
    List.nodup_nil, le_rfl⟩

theorem Kept.sound_iff_registry (h : Kept s) : Sound s ↔ s.registry ≠ none := by
  constructor
  · rintro ⟨r, hr⟩
    rw [hr.registry]
    exact Option.some_ne_none r
  · intro hne
    obtain ⟨r, hr⟩ := Option.ne_none_iff_exists'.mp hne
    obtain ⟨hholds, hret⟩ := h r hr
    exact ⟨r, hr, hholds.nodes, hholds.data, hholds.guids, hret⟩

variable [DecidableEq ι]

theorem step_kept (hkept : Kept s) (hstep : step s c = some s') :
    Kept s' ∧ (s'.registry ≠ none ↔ Harmless s.list c) := by
  obtain ⟨r, hr, hstep⟩ := Option.bind_eq_some_iff.mp hstep
  obtain ⟨hholds, -⟩ := hkept r hr
  split_ifs at hstep with hallowed
  obtain rfl := Option.some.inj hstep
  by_cases hharmless : Harmless s.list c
  · obtain ⟨r', hr', hholds'⟩ := hholds.call_eq hallowed hharmless
    refine ⟨fun r'' hr'' => ?_, iff_of_true ?_ hharmless⟩
    · rw [hr'] at hr''
      obtain rfl := Option.some.inj hr''
      refine ⟨hholds', ?_⟩
      dsimp only
      rw [hr']
      rfl
    · rw [hr']
      exact Option.some_ne_none r'
  · have hnone := hholds.call_of_not_harmless hharmless
    refine ⟨fun r' hr' => ?_, iff_of_false (fun hne => hne ?_) hharmless⟩
    · rw [hnone] at hr'
      cases hr'
    · rw [hnone]
      rfl

theorem kept_of_reaches (h : Reaches tr s) : Kept s := by
  refine Run.invariant ?_ (fun s c s' hs hstep => (step_kept hs hstep).1) h
  intro r hr
  obtain rfl := Option.some.inj hr
  exact ⟨holds_empty, rfl⟩

/-- **When the registry is as it should be**, in all states of a run: when no call of
`delete_button_by_group` is for a group that has a button. -/
theorem sound_iff (h : Reaches tr s) :
    ((∀ x ∈ tr, Sound x.1) ∧ Sound s) ↔ ∀ x ∈ tr, Harmless x.1.list x.2 := by
  have hstart : Sound (Paired.start : Paired ι) :=
    ⟨empty, rfl, Tailq.represents_empty, fun _ hx => absurd hx List.not_mem_nil, List.nodup_nil,
      rfl⟩
  refine Run.forall_iff (C := fun x => Harmless x.1.list x.2) hstart ?_ h
  intro tr s c s' hr _ hstep
  obtain ⟨hkept, hiff⟩ := step_kept (kept_of_reaches hr) hstep
  rw [hkept.sound_iff_registry, hiff]

end Runs

/-! ### A few calls -/

/-- A button with this number, of this group. -/
def sampleButton (guid group : ℤ) : TButton :=
  { rect := ⟨0, 0, 90, 40⟩, caption := [], guid, group, onclick := none }

/-- Two buttons are created, a third one is refused, and the first one is deleted. -/
def sampleCalls : List (Call ℕ) :=
  [.new (some 0) (sampleButton 1 1), .new (some 1) (sampleButton 2 2),
    .new (some 2) (sampleButton 1 3), .deleteByGroup 3, .deleteByGuid 1]

theorem exists_reaches (calls : List (Call ι)) [DecidableEq ι]
    (p : List (Paired ι × Call ι) × Paired ι → Prop) [DecidablePred p]
    (h : (exec step Paired.start calls).any (fun r => p r) = true) :
    ∃ tr s, Reaches tr s ∧ tr.map Prod.snd = calls ∧ p (tr, s) :=
  exists_run_of_exec calls p h

theorem sound_iff_sampleCalls : ∃ tr s, Reaches tr s ∧ tr.map Prod.snd = sampleCalls ∧
    (∀ x ∈ tr, Sound x.1) ∧ Sound s := by
  obtain ⟨tr, s, hr, hcalls, hharmless⟩ := exists_reaches sampleCalls
    (fun r => ∀ x ∈ r.1, Harmless x.1.list x.2) (by decide)
  exact ⟨tr, s, hr, hcalls, (sound_iff hr).mpr hharmless⟩

/-- A button is deleted with its group: the loop reads the link of the node that was freed. -/
theorem not_sound_deleteByGroup : ∃ tr s, Reaches tr s ∧
    tr.map Prod.snd = [.new (some 0) (sampleButton 1 1), .deleteByGroup 1] ∧ ¬ Sound s := by
  obtain ⟨tr, s, hr, hcalls, hnone⟩ := exists_reaches
    [Call.new (some 0) (sampleButton 1 1), .deleteByGroup 1]
    (fun r => r.2.registry.isNone = true) (by decide)
  refine ⟨tr, s, hr, hcalls, ?_⟩
  rintro ⟨r, hsound⟩
  rw [hsound.registry] at hnone
  cases hnone

end SortingLine.Gui.Buttons
