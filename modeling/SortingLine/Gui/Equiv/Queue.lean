import SortingLine.Gui.Equiv.Columns
import SortingLine.Gui.Queue

/-!
# Does a column go where it is moved?

`grid_set_column_index` looks for the column at the place asked for and inserts before it.  When the
moved column comes from the right, that place is then its own; when it comes from the left, the
other column has moved up by one, and it arrives one place short.  A column that is moved to its own
place is inserted before itself, and no loop over the columns ends any more.
-/

namespace SortingLine.Gui.Queue

open Layout

variable {ι : Type*}

/-! ### Lists -/

section Lists

variable {l : List ι} {p i : ℕ} {a b : ι}

/-- The column before which another one is inserted. -/
theorem getElem?_eraseIdx_moved (hb : l[i]? = some b) (hne : i ≠ p) :
    (l.eraseIdx p)[if i < p then i else i - 1]? = some b := by
  rw [List.getElem?_eraseIdx]
  split_ifs with hlt
  · exact hb
  · omega
  · have hi : i - 1 + 1 = i := by omega
    rw [hi, hb]

theorem eq_append_of_getElem? (h : l[i]? = some a) : l = l.take i ++ a :: l.drop (i + 1) := by
  obtain ⟨hlt, rfl⟩ := List.getElem?_eq_some_iff.mp h
  rw [← List.drop_eq_getElem_cons hlt, List.take_append_drop]

theorem insertIdx_of_append (a : ι) {l₁ : List ι} (l₂ : List ι) (hi : l₁.length = i) :
    (l₁ ++ l₂).insertIdx i a = l₁ ++ a :: l₂ := by
  subst hi
  induction l₁ with
  | nil => exact List.insertIdx_zero
  | cons b l₁ ih =>
    rw [List.cons_append, List.length_cons, List.insertIdx_succ_cons, ih, List.cons_append]

/-- Where a column arrives. -/
theorem moveBefore_eq (hp : l[p]? = some a) :
    moveBefore l p i = (l.eraseIdx p).insertIdx (if i < p then i else i - 1) a := by
  rw [moveBefore, hp]

/-- A column from the left arrives one place short. -/
theorem moveBefore_eq_iff (hl : l.Nodup) (hp : l[p]? = some a) (hi : i < l.length) (hne : i ≠ p) :
    moveBefore l p i = (l.eraseIdx p).insertIdx i a ↔ i < p := by
  obtain ⟨hplt, -⟩ := List.getElem?_eq_some_iff.mp hp
  have hlen := List.length_eraseIdx_of_lt hplt
  rw [moveBefore_eq hp]
  constructor
  · intro heq
    by_contra hle
    rw [if_neg hle] at heq
    -- the column at place `i` is the one that has moved up
    have hget := congrArg (fun l => l[i]?) heq
    rw [List.getElem?_insertIdx_of_gt (by omega), List.getElem?_insertIdx_self,
      if_pos (by omega), List.getElem?_eraseIdx_of_ge (by omega)] at hget
    have hi' : i - 1 + 1 = i := by omega
    rw [hi', ← hp] at hget
    exact hne ((List.getElem?_inj hi hl).mp hget)
  · intro hlt
    rw [if_pos hlt]

end Lists

/-! ### The layout pass -/

theorem foreachData_layColumn (f : Frame) (i : ℕ) (left : ℤ) (columns : List TColumn) :
    Tailq.foreachData (layColumn f) (i, left) columns = layColumns f i left columns := by
  induction columns generalizing i left with
  | nil => rfl
  | cons column columns ih => rw [Tailq.foreachData, layColumns, ← ih]; rfl

section Grids

variable {g : LinkedGrid ι} {l : List ι}

/-- The data of the columns. -/
structure Holds (g : LinkedGrid ι) (l : List ι) (columns : List TColumn) : Prop where
  represents : g.columns.Represents l
  data : l.map g.columns.dataOf = columns.map some

/-- The grid with the list of its columns. -/
def toTGrid (g : LinkedGrid ι) (columns : List TColumn) : TGrid := { g.grid with columns }

theorem exists_map_some {α β : Type*} {f : α → Option β} {l : List α} (h : ∀ a ∈ l, f a ≠ none) :
    ∃ ds : List β, l.map f = ds.map some := by
  induction l with
  | nil => exact ⟨[], rfl⟩
  | cons a l ih =>
    obtain ⟨ha, hl⟩ := List.forall_mem_cons.mp h
    obtain ⟨d, hd⟩ := Option.ne_none_iff_exists'.mp ha
    obtain ⟨ds, hds⟩ := ih hl
    exact ⟨d :: ds, by rw [List.map_cons, List.map_cons, hd, hds]⟩

theorem Numbered.exists_holds (h : Numbered g l) : ∃ columns, Holds g l columns := by
  obtain ⟨columns, hdata⟩ := exists_map_some fun a ha => h.represents.dataOf_ne_none ha
  exact ⟨columns, h.represents, hdata⟩

theorem Holds.map_index {columns : List TColumn} (h : Holds g l columns) :
    l.map (fun a => (g.columns.dataOf a).map TColumn.index) =
      (columns.map TColumn.index).map some := by
  have hcomp : l.map (fun a => (g.columns.dataOf a).map TColumn.index) =
      (l.map g.columns.dataOf).map (Option.map TColumn.index) := by
    rw [List.map_map]
    rfl
  rw [hcomp, h.data, List.map_map, List.map_map]
  rfl

theorem Holds.length_eq {columns : List TColumn} (h : Holds g l columns) :
    columns.length = l.length := by
  have hlen := congrArg List.length h.data
  rw [List.length_map, List.length_map] at hlen
  exact hlen.symm

theorem Numbered.map_index (h : Numbered g l) {columns : List TColumn}
    (hdata : Holds g l columns) : columns.map TColumn.index = List.range columns.length := by
  have hindices := h.indices
  rw [hdata.map_index] at hindices
  rw [hdata.length_eq]
  exact List.map_injective_iff.mpr (Option.some_injective ℕ) hindices

theorem find?_eq_getElem? {l : List ι} {test : ι → Bool} {i : ℕ}
    (h : ∀ k a, l[k]? = some a → (test a = true ↔ k = i)) : l.find? test = l[i]? := by
  induction l generalizing i with
  | nil => rfl
  | cons a l ih =>
    cases i with
    | zero => rw [List.find?_cons_of_pos ((h 0 a rfl).mpr rfl), List.getElem?_cons_zero]
    | succ i =>
      rw [List.find?_cons_of_neg, List.getElem?_cons_succ, ih]
      · intro k b hk
        rw [h (k + 1) b hk, Nat.succ_inj]
      · intro ha
        exact absurd ((h 0 a rfl).mp ha) (Nat.succ_ne_zero i).symm

/-- The loop that looks for a column finds the one at the place. -/
theorem Numbered.gridGetColumn_eq (h : Numbered g l) {n : ℕ} (hn : l.length ≤ n) (i : ℕ) :
    gridGetColumn n g i = some l[i]? := by
  rw [gridGetColumn, h.represents.find _ hn]
  refine congrArg some (find?_eq_getElem? fun k a hk => ?_)
  obtain ⟨hlt, -⟩ := List.getElem?_eq_some_iff.mp hk
  have hindex := congrArg (fun l => l[k]?) h.indices
  rw [List.getElem?_map, hk, List.getElem?_map, List.getElem?_range hlt, Option.map_some,
    Option.map_some, Option.some_inj] at hindex
  obtain ⟨column, hcolumn, hk'⟩ := Option.map_eq_some_iff.mp hindex
  rw [hcolumn, Option.any_some, decide_eq_true_iff, hk', Int.ofNat_inj]

variable [DecidableEq ι]

/-- **The layout pass numbers the columns in the order of the queue.** -/
theorem Holds.calcurate_eq {columns : List TColumn} (h : Holds g l columns)
    (hrows : g.grid.rows ≠ 0) (hcols : g.grid.cols ≠ 0) (hchanged : g.grid.layoutChanged = true)
    {n : ℕ} (hn : l.length ≤ n) :
    ∃ g', gridCalcurateCellRectInternal n g = some g' ∧
      g'.grid = { g.grid with layoutChanged := false } ∧
      Holds g' l (layColumns (frame g.grid) 0 (frame g.grid).left columns) := by
  have hno : ¬ (¬ g.grid.layoutChanged = true ∨ g.grid.rows = 0 ∨ g.grid.cols = 0) := by
    simp [hchanged, hrows, hcols]
  obtain ⟨queue, hqueue, hrep, hdata⟩ := h.represents.foreach (layColumn (frame g.grid)) h.data hn
    (0, (frame g.grid).left)
  rw [foreachData_layColumn] at hdata
  refine ⟨{ grid := { g.grid with layoutChanged := false }, columns := queue }, ?_, rfl,
    hrep, hdata⟩
  rw [gridCalcurateCellRectInternal, if_neg hno]
  dsimp only
  rw [hqueue, Option.map_some]

/-- The column is taken out of the queue, and put before the other one. -/
theorem Numbered.exists_moved (h : Numbered g l) {p i : ℕ} {c b : ι} (hp : l[p]? = some c)
    (hb : l[i]? = some b) (hne : i ≠ p) :
    ∃ q₁ q₂, g.columns.remove c = some q₁ ∧ q₁.insertBefore b c = some q₂ ∧
      q₂.Represents (moveBefore l p i) ∧ q₂.dataOf = g.columns.dataOf := by
  have hb' := getElem?_eraseIdx_moved hb hne
  rw [moveBefore_eq hp]
  generalize (if i < p then i else i - 1) = k at hb'
  have hrep := h.represents
  have hnodup := hrep.nodup
  rw [eq_append_of_getElem? hp] at hrep hnodup
  have hnotin : c ∉ l.eraseIdx p := by
    rw [List.eraseIdx_eq_take_drop_succ]
    exact (List.nodup_cons.mp (List.nodup_middle.mp hnodup)).1
  obtain ⟨q₁, -, hq₁, hrep₁, hdata₁, -, -, -⟩ := hrep.remove
  rw [← List.eraseIdx_eq_take_drop_succ, eq_append_of_getElem? hb'] at hrep₁
  have hlive : q₁.dataOf c ≠ none := by
    rw [hdata₁]
    exact h.represents.dataOf_ne_none (List.mem_of_getElem? hp)
  obtain ⟨q₂, hq₂, hrep₂, hdata₂⟩ :=
    hrep₁.insertBefore hlive (eq_append_of_getElem? hb' ▸ hnotin)
  refine ⟨q₁, q₂, hq₁, hq₂, ?_, hdata₂.trans hdata₁⟩
  have hk : k < (l.eraseIdx p).length := (List.getElem?_eq_some_iff.mp hb').1
  have hlen : ((l.eraseIdx p).take k).length = k := by
    rw [List.length_take]
    omega
  have hinsert := insertIdx_of_append c (b :: (l.eraseIdx p).drop (k + 1)) hlen
  rw [← eq_append_of_getElem? hb'] at hinsert
  rwa [hinsert]

/-- **A column that is not moved to its own place** is inserted before the one that is there. -/
theorem Numbered.gridSetColumnIndex_eq (h : Numbered g l) {p i : ℕ} {c : ι} (hp : l[p]? = some c)
    (hi : i < l.length) (hne : i ≠ p) {columns : List TColumn} (hdata : Holds g l columns)
    {n : ℕ} (hn : l.length ≤ n) :
    ∃ g', gridSetColumnIndex n g c i = some g' ∧ Numbered g' (moveBefore l p i) ∧
      toTGrid g' (layColumns (frame g.grid) 0 (frame g.grid).left (moveBefore columns p i)) =
        Layout.gridSetColumnIndex (toTGrid g columns) p i ∧
      Holds g' (moveBefore l p i)
        (layColumns (frame g.grid) 0 (frame g.grid).left (moveBefore columns p i)) := by
  obtain ⟨b, hb⟩ : ∃ b, l[i]? = some b := ⟨_, List.getElem?_eq_getElem hi⟩
  have hlen : (moveBefore l p i).length = l.length := length_moveBefore hi
  have hcolumns := h.map_index hdata
  -- the column is taken out, and put before the other one
  obtain ⟨q₁, q₂, hq₁, hq₂, hrep₂, hdata₂⟩ := h.exists_moved hp hb hne
  -- the columns are numbered again
  have hmoved : Holds { grid := { g.grid with layoutChanged := true }, columns := q₂ }
      (moveBefore l p i) (moveBefore columns p i) := by
    refine ⟨hrep₂, ?_⟩
    rw [hdata₂, map_moveBefore, hdata.data, map_moveBefore]
  have hle : (moveBefore l p i).length ≤ n := by omega
  obtain ⟨g', hg', hgrid, hholds⟩ := hmoved.calcurate_eq h.rows h.cols rfl hle
  refine ⟨g', ?_, ⟨?_, ?_, hholds.represents, ?_⟩, ?_, hholds⟩
  · rw [gridSetColumnIndex, h.gridGetColumn_eq hn, Option.bind_some, hb]
    dsimp only
    rw [hq₁, Option.bind_some, hq₂, Option.bind_some, hg']
  · rw [hgrid]
    exact h.rows
  · rw [hgrid]
    exact h.cols
  · rw [hholds.map_index, index_layColumns, length_moveBefore (hdata.length_eq ▸ hi),
      hdata.length_eq, hlen, List.range_eq_range']
  · have hfind := gridGetColumn_of_indices (show (toTGrid g columns).columns.map TColumn.index =
      List.range (toTGrid g columns).columns.length from hcolumns) i
    have hin : (0 : ℤ) ≤ i ∧ (i : ℤ) < (toTGrid g columns).columns.length := by
      have hlen' : (toTGrid g columns).columns.length = l.length := hdata.length_eq
      omega
    rw [if_pos hin, Int.toNat_natCast] at hfind
    rw [Layout.gridSetColumnIndex, hfind]
    dsimp only
    rw [if_neg hne, toTGrid, hgrid]
    exact (calcurate_columns (show (toTGrid g columns).rows ≠ 0 from h.rows) h.cols
      (moveBefore columns p i)).symm

/-- **A column that is moved to its own place** is inserted before itself: the layout pass does not
end, however many passes it may make. -/
theorem Numbered.gridSetColumnIndex_self (h : Numbered g l) {p : ℕ} {c : ι} (hp : l[p]? = some c)
    {n : ℕ} (hn : l.length ≤ n) : gridSetColumnIndex n g c p = none := by
  have hrep := h.represents
  rw [eq_append_of_getElem? hp] at hrep
  obtain ⟨q₁, q₂, r, hq₁, hq₂, hseg, hread, hself⟩ := hrep.insertBefore_self
  have hno : ¬ (¬ true = true ∨ g.grid.rows = 0 ∨ g.grid.cols = 0) := by
    simp [h.rows, h.cols]
  rw [gridSetColumnIndex, h.gridGetColumn_eq hn, Option.bind_some, hp]
  dsimp only
  rw [hq₁, Option.bind_some, hq₂, Option.bind_some, gridCalcurateCellRectInternal, if_neg hno]
  have hstuck := hseg.foreach_of_selfLoop
    (layColumn (frame { g.grid with layoutChanged := true })) rfl hread hself n
    (0, (frame { g.grid with layoutChanged := true }).left)
  dsimp only
  rw [hstuck, Option.map_none]

theorem Numbered.not_movesTo_self (h : Numbered g l) {p : ℕ} {c : ι} (hp : l[p]? = some c) :
    ¬ MovesTo g l p p c := by
  rintro ⟨N, hN⟩
  obtain ⟨g', hg', -⟩ := hN (max N l.length) (le_max_left _ _)
  rw [h.gridSetColumnIndex_self hp (le_max_right _ _)] at hg'
  cases hg'

/-- Where the columns are after a move to another place. -/
theorem Numbered.movesTo_iff_moveBefore (h : Numbered g l) {p i : ℕ} {c : ι} (hp : l[p]? = some c)
    (hi : i < l.length) (hne : i ≠ p) :
    MovesTo g l p i c ↔ moveBefore l p i = (l.eraseIdx p).insertIdx i c := by
  obtain ⟨columns, hdata⟩ := h.exists_holds
  constructor
  · rintro ⟨N, hN⟩
    obtain ⟨g', hg', hnumbered, -⟩ := hN (max N l.length) (le_max_left _ _)
    obtain ⟨g'', hg'', hnumbered', -⟩ := h.gridSetColumnIndex_eq hp hi hne hdata
      (le_max_right N l.length)
    obtain rfl := Option.some.inj (hg'.symm.trans hg'')
    exact hnumbered'.represents.unique hnumbered.represents
  · intro heq
    refine ⟨l.length, fun n hn => ?_⟩
    obtain ⟨g', hg', hnumbered, -⟩ := h.gridSetColumnIndex_eq hp hi hne hdata hn
    have hlen : (moveBefore l p i).length = l.length := length_moveBefore hi
    refine ⟨g', hg', heq ▸ hnumbered, ?_⟩
    rw [← heq]
    exact hnumbered.represents.nodes (by omega)

/-- **When a column goes where it is moved**: when it is moved to the left. -/
theorem movesTo_iff (h : Numbered g l) {p i : ℕ} {c : ι} (hp : l[p]? = some c)
    (hi : i < l.length) : MovesTo g l p i c ↔ i < p := by
  rcases eq_or_ne i p with rfl | hne
  · exact iff_of_false (h.not_movesTo_self hp) (lt_irrefl i)
  · rw [h.movesTo_iff_moveBefore hp hi hne, moveBefore_eq_iff h.represents.nodup hp hi hne]

end Grids

/-! ### A grid with three columns -/

/-- The first column is node 0, the last one node 2. -/
def sample : LinkedGrid ℕ where
  grid := { rect := ⟨0, 0, 100, 100⟩, rows := 1, cols := 3, borderwidth := 2, titleheight := 0,
            group := 0, layoutChanged := false, columns := [], cyclic := false, drawn := none }
  columns :=
    { first := some 0
      last := .next 2
      entry := fun a =>
        match a with
        | 0 => some { next := some 1, prev := .head, data := newColumn 1 32 0 }
        | 1 => some { next := some 2, prev := .next 0, data := newColumn 1 32 1 }
        | 2 => some { next := none, prev := .next 1, data := newColumn 1 32 2 }
        | _ => none }

theorem numbered_sample : Numbered sample [0, 1, 2] :=
  ⟨by decide, by decide, ⟨by decide, ⟨rfl, rfl, rfl, rfl, rfl, rfl, rfl⟩, rfl⟩, by decide⟩

/-- The last column is moved to the front. -/
theorem movesTo_iff_to_front : MovesTo sample [0, 1, 2] 2 0 2 :=
  (movesTo_iff numbered_sample rfl (by decide)).mpr (by decide)

/-- The first column stays where it is when it is moved to place 1, and no loop ends after it is
moved to place 0. -/
theorem not_movesTo_right : Numbered sample [0, 1, 2] ∧ ¬ MovesTo sample [0, 1, 2] 0 1 0 ∧
    ¬ MovesTo sample [0, 1, 2] 0 0 0 := by
  refine ⟨numbered_sample, fun h => ?_, numbered_sample.not_movesTo_self rfl⟩
  rw [numbered_sample.movesTo_iff_moveBefore rfl (by decide) (by decide)] at h
  exact absurd h (by decide)

end SortingLine.Gui.Queue
