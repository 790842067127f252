import SortingLine.Gui.Layout
import Mathlib.Algebra.Order.Group.Int
import Mathlib.Data.List.InsertIdx
import Mathlib.Data.List.Perm.Basic
import Mathlib.Tactic.Ring

/-!
# What the calls about columns do

The layout pass numbers the columns and the cells in list order, keeps the widths, and gives each
cell a rectangle that depends on the widths alone (`visibleCells_laid`).  A call about a column
finds a place among the columns, edits the list there and runs the layout pass; or it changes
nothing; or it is the creation of a column for an index that no column has, which stays at the end
and is not laid out; or it inserts a column before itself (`columnCall_effect`).
-/

namespace SortingLine.Gui.Layout

/-! ### The layout pass on cells -/

variable (f : Frame)

/-- The upper edge of the cells number `j`. -/
def rowTop (j : ℕ) : ℤ := f.top + if j = 0 then 0 else f.th + (j - 1) * f.ch

/-- Cell number `j` of a column of width `dx`. -/
def cellRect (left dx : ℤ) (j : ℕ) : TRect where
  left
  top := rowTop f j
  right := min (left + dx) f.rMax
  bottom := min (rowTop f (j + 1)) f.bMax

theorem rowTop_succ (j : ℕ) : rowTop f j + (if j = 0 then f.th else f.ch) = rowTop f (j + 1) := by
  cases j with
  | zero => simp [rowTop]
  | succ j =>
    simp only [rowTop, Nat.add_eq_zero_iff, one_ne_zero, and_false, if_false, Nat.cast_add,
      Nat.cast_one]
    ring

/-- **The cells of a column after the layout pass.** -/
theorem layCells_spec (left dx : ℤ) (visible : Bool) (j : ℕ) (cells : List TCell) :
    (layCells f left dx visible j (rowTop f j) cells).map TCell.rect
      = (List.range' j cells.length).map (cellRect f left dx) ∧
    (layCells f left dx visible j (rowTop f j) cells).map TCell.index
      = List.range' j cells.length ∧
    ∀ cell ∈ layCells f left dx visible j (rowTop f j) cells, cell.visible = visible := by
  induction cells generalizing j with
  | nil => exact ⟨rfl, rfl, by simp [layCells]⟩
  | cons cell cells ih =>
    obtain ⟨hrect, hindex, hvisible⟩ := ih (j + 1)
    simp only [layCells, rowTop_succ, List.map_cons, List.length_cons, List.range'_succ, hrect,
      hindex, List.mem_cons, forall_eq_or_imp, cellRect, min_def_lt, true_and]
    exact hvisible

/-! ### The layout pass on columns -/

/-- The column has a title and a cell for each row, numbered in order. -/
structure TColumn.Shape (rows : ℕ) (column : TColumn) : Prop where
  cellcount : column.cellcount = rows + 1
  cells : column.cells.map TCell.index = List.range (rows + 1)

theorem TColumn.Shape.length {rows : ℕ} {column : TColumn} (h : TColumn.Shape rows column) :
    column.cells.length = rows + 1 := by
  rw [← List.length_map TCell.index, h.cells, List.length_range]

/-- The rectangles of the cells that are visible when columns of these widths have been laid out. -/
def shown (rows : ℕ) : ℤ → List ℤ → List TRect
  | _, [] => []
  | left, dx :: widths =>
    (if left < f.rMax then (List.range (rows + 1)).map (cellRect f left dx) else [])
      ++ shown rows (left + dx) widths

/-- The cells of a column after the layout pass, from the title on. -/
theorem layCells_title (left dx : ℤ) (visible : Bool) (cells : List TCell) :
    (layCells f left dx visible 0 f.top cells).map TCell.rect
      = (List.range cells.length).map (cellRect f left dx) ∧
    (layCells f left dx visible 0 f.top cells).map TCell.index = List.range cells.length ∧
    ∀ cell ∈ layCells f left dx visible 0 f.top cells, cell.visible = visible := by
  have htop : rowTop f 0 = f.top := by simp [rowTop]
  have h := layCells_spec f left dx visible 0 cells
  rwa [htop, ← List.range_eq_range'] at h

variable (i : ℕ) (left : ℤ) (columns : List TColumn)

theorem width_layColumns :
    (layColumns f i left columns).map TColumn.width = columns.map TColumn.width := by
  induction columns generalizing i left with
  | nil => rfl
  | cons column columns ih =>
    simp only [layColumns, List.map_cons, ih]
    simp [TColumn.width]

theorem index_layColumns :
    (layColumns f i left columns).map TColumn.index = List.range' i columns.length := by
  induction columns generalizing i left with
  | nil => rfl
  | cons column columns ih =>
    simp only [layColumns, List.map_cons, List.length_cons, List.range'_succ, ih]

theorem shape_layColumns {rows : ℕ} (h : ∀ column ∈ columns, TColumn.Shape rows column) :
    ∀ column ∈ layColumns f i left columns, TColumn.Shape rows column := by
  induction columns generalizing i left with
  | nil => simp [layColumns]
  | cons column columns ih =>
    obtain ⟨hcolumn, hcolumns⟩ := List.forall_mem_cons.mp h
    refine List.forall_mem_cons.mpr ⟨⟨hcolumn.cellcount, ?_⟩, ih _ _ hcolumns⟩
    rw [← hcolumn.length]
    exact (layCells_title f left column.width (decide (left < f.rMax)) column.cells).2.1

/-- **What is visible after the layout pass** depends on the widths alone. -/
theorem visible_layColumns {rows : ℕ} (h : ∀ column ∈ columns, TColumn.Shape rows column) :
    ((layColumns f i left columns).flatMap fun column =>
      if column.visible then (column.cells.filter TCell.visible).map TCell.rect else [])
      = shown f rows left (columns.map TColumn.width) := by
  induction columns generalizing i left with
  | nil => rfl
  | cons column columns ih =>
    obtain ⟨hcolumn, hcolumns⟩ := List.forall_mem_cons.mp h
    obtain ⟨hrect, -, hvisible⟩ :=
      layCells_title f left column.width (decide (left < f.rMax)) column.cells
    simp only [layColumns, List.flatMap_cons, List.map_cons, shown, ih _ _ hcolumns]
    congr 1
    by_cases hleft : left < f.rMax
    · -- all cells of a visible column are visible
      rw [decide_eq_true hleft] at hrect hvisible
      simp only [hleft, decide_true, if_true, List.filter_eq_self.mpr hvisible, hrect,
        hcolumn.length]
    · simp [hleft]

/-- The grid after the layout pass. -/
def laid (grid : TGrid) : TGrid :=
  { grid with
    columns := layColumns (frame grid) 0 (frame grid).left grid.columns
    layoutChanged := false }

theorem calcurate_of_changed {grid : TGrid} (hrows : grid.rows ≠ 0) (hcols : grid.cols ≠ 0)
    (h : grid.layoutChanged = true) : gridCalcurateCellRectInternal grid = laid grid :=
  if_neg (by simp [hrows, hcols, h])

theorem calcurate_columns {grid : TGrid} (hrows : grid.rows ≠ 0) (hcols : grid.cols ≠ 0)
    (columns : List TColumn) :
    gridCalcurateCellRectInternal { grid with layoutChanged := true, columns }
      = laid { grid with columns } :=
  calcurate_of_changed hrows hcols rfl

/-- **The visible cells of a grid that has been laid out.** -/
theorem visibleCells_laid {grid : TGrid}
    (h : ∀ column ∈ grid.columns, TColumn.Shape grid.rows column) :
    visibleCells (laid grid) = shown (frame grid) grid.rows (frame grid).left
      (grid.columns.map TColumn.width) :=
  visible_layColumns (frame grid) 0 (frame grid).left grid.columns h

/-! ### Edits of a list -/

/-- What a call does to a list of columns before it is laid out, if it finds the place `q`. -/
def ColumnCall.edit {α : Type*} (new : ℤ → α) (setWidth : ℤ → α → α) (q : ℕ) :
    ColumnCall → List α → List α
  | .new _ width, l => l.insertIdx q (new width)
  | .delete _, l => l.eraseIdx q
  | .setIndex p _, l => moveBefore l p q
  | .setWidth _ width, l => l.modify q (setWidth width)

section Edits

variable {α β : Type*} {l : List α} {p q : ℕ}

theorem map_moveBefore (g : α → β) : (moveBefore l p q).map g = moveBefore (l.map g) p q := by
  unfold moveBefore
  rw [List.getElem?_map]
  cases l[p]? with
  | none => rfl
  | some a => simp only [Option.map_some, List.map_insertIdx, List.eraseIdx_map]

theorem moveBefore_append (a : α) (hq : q < l.length) :
    moveBefore (l ++ [a]) l.length q = l.insertIdx q a := by
  unfold moveBefore
  rw [List.getElem?_append_right le_rfl, Nat.sub_self, List.eraseIdx_append_of_length_le le_rfl,
    Nat.sub_self]
  simp [hq]

theorem moveBefore_perm (hp : p < l.length) (hq : q < l.length) : (moveBefore l p q).Perm l := by
  unfold moveBefore
  rw [List.getElem?_eq_getElem hp]
  have hlen : (if q < p then q else q - 1) ≤ (l.eraseIdx p).length := by
    rw [List.length_eraseIdx_of_lt hp]
    split_ifs <;> omega
  exact (List.perm_insertIdx _ _ hlen).trans (List.getElem_cons_eraseIdx_perm hp)

theorem map_edit {new : ℤ → α} {setWidth : ℤ → α → α} {new' : ℤ → β} {setWidth' : ℤ → β → β}
    {g : α → β} (hnew : ∀ w, g (new w) = new' w)
    (hset : ∀ w a, g (setWidth w a) = setWidth' w (g a)) (call : ColumnCall) :
    (call.edit new setWidth q l).map g = call.edit new' setWidth' q (l.map g) := by
  cases call with
  | new index width => simp only [ColumnCall.edit, List.map_insertIdx, hnew]
  | delete index => simp only [ColumnCall.edit, List.eraseIdx_map]
  | setIndex p index => exact map_moveBefore g
  | setWidth index width =>
    apply List.ext_getElem?
    intro i
    simp only [ColumnCall.edit, List.getElem?_map, List.getElem?_modify]
    by_cases hi : q = i
    · simp [hi, Function.comp_def, hset]
    · simp [hi]

theorem length_moveBefore (hq : q < l.length) : (moveBefore l p q).length = l.length := by
  by_cases hp : p < l.length
  · exact (moveBefore_perm hp hq).length_eq
  · unfold moveBefore
    rw [List.getElem?_eq_none (Nat.le_of_not_lt hp)]

/-- What holds of all elements, and of the new ones, holds after an edit. -/
theorem forall_mem_edit {P : α → Prop} {new : ℤ → α} {setWidth : ℤ → α → α}
    (hnew : ∀ w, P (new w)) (hset : ∀ w a, P a → P (setWidth w a)) (call : ColumnCall)
    (h : ∀ a ∈ l, P a) : ∀ a ∈ call.edit new setWidth q l, P a := by
  intro a ha
  cases call with
  | new index width =>
    rcases List.eq_or_mem_of_mem_insertIdx ha with rfl | ha
    · exact hnew width
    · exact h a ha
  | delete index => exact h a (List.mem_of_mem_eraseIdx ha)
  | setIndex p index =>
    simp only [ColumnCall.edit, moveBefore] at ha
    cases hp : l[p]? with
    | none =>
      rw [hp] at ha
      exact h a ha
    | some b =>
      rw [hp] at ha
      rcases List.eq_or_mem_of_mem_insertIdx ha with rfl | ha
      · exact h a (List.mem_of_getElem? hp)
      · exact h a (List.mem_of_mem_eraseIdx ha)
  | setWidth index width =>
    obtain ⟨i, hi⟩ := List.mem_iff_getElem?.mp ha
    rw [ColumnCall.edit, List.getElem?_modify] at hi
    obtain ⟨b, hb, rfl⟩ := Option.map_eq_some_iff.mp hi
    have hPb := h b (List.mem_of_getElem? hb)
    split_ifs
    · exact hset width b hPb
    · exact hPb

end Edits

/-! ### Calls -/

/-- The columns before the layout pass of a call that finds the place `q`. -/
def editColumns (grid : TGrid) (q : ℕ) (call : ColumnCall) : List TColumn :=
  call.edit (fun width => newColumn grid.rows width 0)
    (fun width column => { column with rect :=
      { column.rect with right := column.rect.left + width } }) q grid.columns

/-- The widths before the layout pass of a call that finds the place `q`. -/
def editWidths (q : ℕ) (call : ColumnCall) (widths : List ℤ) : List ℤ :=
  call.edit id (fun width _ => width) q widths

theorem width_editColumns (grid : TGrid) (q : ℕ) (call : ColumnCall) :
    (editColumns grid q call).map TColumn.width
      = editWidths q call (grid.columns.map TColumn.width) := by
  refine map_edit (fun w => ?_) (fun w column => ?_) call
  · simp [newColumn, TColumn.width]
  · simp [TColumn.width]

/-- The call comes to the layout pass, with the column that it looks for at place `q`. -/
def Relays (grid : TGrid) (q : ℕ) : ColumnCall → Prop
  | .new index _ => gridGetColumn grid index = some q
  | .delete index => gridGetColumn grid index = some q
  | .setIndex p index => gridGetColumn grid index = some q ∧ q ≠ p
  | .setWidth index width => gridGetColumn grid index = some q ∧
      (grid.columns[q]?).map TColumn.width ≠ some width

/-- What a call leads to. -/
inductive ColumnEffect (grid : TGrid) (call : ColumnCall) : TGrid → Prop
  /-- The call finds nothing to do. -/
  | unchanged : (∀ q, ¬ Relays grid q call) →
      (∀ index width, call = .new index width → grid.columns = []) →
      (∀ p index, call = .setIndex p index → gridGetColumn grid index = none) →
      ColumnEffect grid call grid
  /-- The new column stays at the end, and is not laid out. -/
  | appended (index width : ℤ) : (∀ q, ¬ Relays grid q call) → call = .new index width →
      ColumnEffect grid call (gridNewColumnInternal grid width 0)
  /-- A column is inserted before itself. -/
  | stuck (grid' : TGrid) : (∀ q, ¬ Relays grid q call) →
      ((∃ index width, call = .new index width) ∨
        ∃ p index, call = .setIndex p index ∧ gridGetColumn grid index = some p) →
      grid'.layoutChanged = true → grid'.cyclic = true → ColumnEffect grid call grid'
  /-- The columns are edited and laid out. -/
  | relaid (q : ℕ) : Relays grid q call →
      ColumnEffect grid call (laid { grid with columns := editColumns grid q call })

variable {grid grid' : TGrid} {call : ColumnCall}

theorem lt_of_gridGetColumn {index : ℤ} {q : ℕ} (h : gridGetColumn grid index = some q) :
    q < grid.columns.length :=
  (List.findIdx?_eq_some_iff_getElem.mp h).1

/-- Where the column is found that a new column is to be inserted before. -/
theorem gridGetColumn_append (index width : ℤ) :
    gridGetColumn (gridNewColumnInternal grid width 0) index =
      (gridGetColumn grid index).or (if index = 0 then some grid.columns.length else none) := by
  unfold gridGetColumn gridNewColumnInternal
  rw [List.findIdx?_append]
  congr 1
  by_cases h : index = 0
  · simp [h, newColumn]
  · simp [h, newColumn, Ne.symm h]

/-- `grid_new_column` -/
theorem gridNewColumn_effect (hrows : grid.rows ≠ 0) (hcols : grid.cols ≠ 0) (index width : ℤ) :
    ColumnEffect grid (.new index width) (gridNewColumn grid index width) := by
  unfold gridNewColumn
  split_ifs with hnil
  · refine .unchanged (fun q hq => ?_) (fun _ _ _ => hnil) (by simp)
    have hlt := lt_of_gridGetColumn (show gridGetColumn grid index = some q from hq)
    simp [hnil] at hlt
  · unfold gridSetColumnIndex
    rw [gridGetColumn_append]
    cases hget : gridGetColumn grid index with
    | some q =>
      have hq := lt_of_gridGetColumn hget
      simp only [Option.some_or, if_neg hq.ne]
      have heffect : ColumnEffect grid (.new index width) _ := .relaid q hget
      rw [editColumns, ColumnCall.edit, ← moveBefore_append _ hq] at heffect
      exact (calcurate_columns hrows hcols _).symm ▸ heffect
    | none =>
      have hno (q : ℕ) : ¬ Relays grid q (.new index width) := by simp [Relays, hget]
      by_cases h0 : index = 0
      · simp only [Option.none_or, if_pos h0, if_true]
        exact .stuck _ hno (.inl ⟨index, width, rfl⟩) rfl rfl
      · simp only [Option.none_or, if_neg h0]
        exact .appended index width hno rfl

/-- **What a call about the columns of a grid does.** -/
theorem columnCall_effect (hrows : grid.rows ≠ 0) (hcols : grid.cols ≠ 0)
    (h : columnCall grid call = some grid') : ColumnEffect grid call grid' := by
  cases call with
  | new index width =>
    obtain rfl := Option.some.inj h
    exact gridNewColumn_effect hrows hcols index width
  | delete index =>
    obtain rfl := Option.some.inj h
    unfold gridDeleteColumn
    cases hget : gridGetColumn grid index with
    | none => exact .unchanged (by simp [Relays, hget]) (by simp) (by simp)
    | some q =>
      dsimp only
      rw [calcurate_columns hrows hcols]
      exact .relaid q hget
  | setIndex p index =>
    simp only [columnCall] at h
    split_ifs at h
    obtain rfl := Option.some.inj h
    unfold gridSetColumnIndex
    cases hget : gridGetColumn grid index with
    | none => exact .unchanged (by simp [Relays, hget]) (by simp) (by simp [hget])
    | some q =>
      dsimp only
      split_ifs with hqp
      · subst hqp
        refine .stuck _ (fun q' hq' => ?_) (.inr ⟨q, index, rfl, hget⟩) rfl rfl
        exact hq'.2 (Option.some.inj (hq'.1.symm.trans hget))
      · rw [calcurate_columns hrows hcols]
        exact .relaid q ⟨hget, hqp⟩
  | setWidth index width =>
    obtain rfl := Option.some.inj h
    unfold gridSetColumnWidth
    cases hget : gridGetColumn grid index with
    | none => exact .unchanged (by simp [Relays, hget]) (by simp) (by simp)
    | some q =>
      dsimp only
      split_ifs with hwidth
      · refine .unchanged (fun q' hq' => ?_) (by simp) (by simp)
        obtain rfl := Option.some.inj (hq'.1.symm.trans hget)
        exact hq'.2 hwidth
      · rw [calcurate_columns hrows hcols]
        exact .relaid q ⟨hget, hwidth⟩

/-! ### Grids and screens -/

/-- The sizes of a grid are positive, and its columns have the shape that goes with them. -/
structure Sized (grid : TGrid) : Prop where
  rows : grid.rows ≠ 0
  cols : grid.cols ≠ 0
  columns : ∀ column ∈ grid.columns, TColumn.Shape grid.rows column

theorem shape_newColumn (rows : ℕ) (width : ℤ) (index : ℕ) :
    TColumn.Shape rows (newColumn rows width index) := by
  refine ⟨rfl, ?_⟩
  simp only [newColumn, List.map_map]
  exact List.map_id _

theorem Sized.editColumns (h : Sized grid) (q : ℕ) (call : ColumnCall) :
    ∀ column ∈ editColumns grid q call, TColumn.Shape grid.rows column := by
  unfold Layout.editColumns
  refine forall_mem_edit (fun w => shape_newColumn grid.rows w 0) (fun w column hcolumn => ?_) call
    h.columns
  exact ⟨hcolumn.cellcount, hcolumn.cells⟩

theorem Sized.effect (h : Sized grid) (he : ColumnEffect grid call grid') :
    grid'.cyclic = true ∨ Sized grid' := by
  cases he with
  | unchanged => exact .inr h
  | appended index width =>
    refine .inr ⟨h.rows, h.cols, fun column hcolumn => ?_⟩
    rcases List.mem_append.mp hcolumn with hcolumn | hcolumn
    · exact h.columns column hcolumn
    · obtain rfl := List.mem_singleton.mp hcolumn
      exact shape_newColumn grid.rows width 0
  | stuck _ _ _ _ hcyclic => exact .inl hcyclic
  | relaid q =>
    exact .inr ⟨h.rows, h.cols, shape_layColumns _ _ _ _ (h.editColumns q call)⟩

/-- The loop of `create_grid`. -/
theorem foldl_gridNewColumnInternal (grid : TGrid) (width : ℤ) (h : grid.layoutChanged = true)
    (n : ℕ) : (List.range n).foldl (fun grid i => gridNewColumnInternal grid width i) grid =
      { grid with columns := grid.columns ++ (List.range n).map (newColumn grid.rows width) } := by
  induction n with
  | zero => simp
  | succ n ih =>
    rw [List.range_succ, List.foldl_append, ih, List.map_append]
    simp [gridNewColumnInternal, h]

/-- The grid that `create_grid` makes. -/
def created (rect : TRect) (rows cols group : ℤ) : TGrid :=
  let rect := normalizeRect rect
  laid
    { rect, rows := rows.toNat, cols := cols.toNat, borderwidth := 2, titleheight := 0, group,
      layoutChanged := true
      columns := (List.range cols.toNat).map
        (newColumn rows.toNat ((rect.right - rect.left).tdiv cols))
      cyclic := false, drawn := none }

theorem createGrid_eq (fb : Framebuffer) (rect : TRect) (rows cols group : ℤ) :
    createGrid fb rect rows cols group =
      if Creatable fb rect rows cols then some (created rect rows cols group) else none := by
  unfold createGrid
  split_ifs with h
  · have hrows : rows.toNat ≠ 0 := by unfold Creatable at h; omega
    have hcols : cols.toNat ≠ 0 := by unfold Creatable at h; omega
    simp only [foldl_gridNewColumnInternal, List.nil_append]
    rw [calcurate_of_changed hrows hcols rfl]
    rfl
  · rfl

theorem sized_created {fb : Framebuffer} {rect : TRect} {rows cols : ℤ}
    (h : Creatable fb rect rows cols) (group : ℤ) : Sized (created rect rows cols group) := by
  unfold Creatable at h
  refine ⟨show rows.toNat ≠ 0 by omega, show cols.toNat ≠ 0 by omega, ?_⟩
  refine shape_layColumns _ _ _ _ fun column hcolumn => ?_
  obtain ⟨i, -, rfl⟩ := List.mem_map.mp hcolumn
  exact shape_newColumn _ _ i

theorem cyclic_paintGrid (grid : TGrid) : (paintGrid grid).cyclic = grid.cyclic := by
  unfold paintGrid
  split_ifs <;> rfl

theorem Sized.paintGrid (h : Sized grid) : Sized (paintGrid grid) := by
  unfold Layout.paintGrid
  split_ifs
  · exact ⟨h.rows, h.cols, h.columns⟩
  · exact h

/-- All grids are sized, as long as all calls return. -/
def SizedScreen (s : Screen) : Prop := ∀ grid ∈ s.grids, grid.cyclic = true ∨ Sized grid

/-- **What a call does to the screen.** -/
inductive ScreenEffect (fb : Framebuffer) (s : Screen) : Call → Screen → Prop
  | refused (rect : TRect) (rows cols group : ℤ) : ¬ Creatable fb rect rows cols →
      ScreenEffect fb s (.createGrid rect rows cols group) s
  | created (rect : TRect) (rows cols group : ℤ) : Creatable fb rect rows cols →
      ScreenEffect fb s (.createGrid rect rows cols group)
        { s with grids := s.grids ++ [created rect rows cols group] }
  | column (k : ℕ) (call : ColumnCall) (grid grid' : TGrid) : s.grids[k]? = some grid →
      Sized grid → columnCall grid call = some grid' → ColumnEffect grid call grid' →
      ScreenEffect fb s (.column k call) { s with grids := s.grids.set k grid' }
  | activated (group : ℤ) : ScreenEffect fb s (.setGuiActiveGroup group) (setGuiActiveGroup s group)
  | painted : ScreenEffect fb s .paintActiveGrids (paintActiveGrids s)

variable {fb : Framebuffer} {s s' : Screen} {c : Call}

theorem step_effect (hs : SizedScreen s) (h : step fb s c = some s') :
    ScreenEffect fb s c s' ∧ ∀ grid ∈ s.grids, grid.cyclic = false := by
  unfold step at h
  split_ifs at h with hcyclic
  have hreturned (grid : TGrid) (hgrid : grid ∈ s.grids) : grid.cyclic = false :=
    Bool.eq_false_iff.mpr fun hc => hcyclic (List.any_eq_true.mpr ⟨grid, hgrid, hc⟩)
  refine ⟨?_, hreturned⟩
  cases c with
  | createGrid rect rows cols group =>
    dsimp only at h
    rw [createGrid_eq] at h
    split_ifs at h with hcreatable
    · obtain rfl := Option.some.inj h
      exact .created rect rows cols group hcreatable
    · obtain rfl := Option.some.inj h
      exact .refused rect rows cols group hcreatable
  | column k call =>
    obtain ⟨grid, hget, h⟩ := Option.bind_eq_some_iff.mp h
    obtain ⟨grid', hcall, rfl⟩ := Option.map_eq_some_iff.mp h
    have hmem := List.mem_of_getElem? hget
    have hsized : Sized grid := (hs grid hmem).resolve_left (by simp [hreturned grid hmem])
    exact .column k call grid grid' hget hsized hcall
      (columnCall_effect hsized.rows hsized.cols hcall)
  | setGuiActiveGroup group =>
    obtain rfl := Option.some.inj h
    exact .activated group
  | paintActiveGrids =>
    obtain rfl := Option.some.inj h
    exact .painted

section Grids

variable {P : TGrid → Prop}

/-- What holds of all grids holds after one of them is replaced, if it holds of the new one. -/
theorem forall_mem_set_iff {grids : List TGrid} {k : ℕ} (hget : grids[k]? = some grid)
    (h : ∀ g ∈ grids, P g) : (∀ g ∈ grids.set k grid', P g) ↔ P grid' := by
  constructor
  · intro hset
    exact hset grid' (List.mem_set (List.getElem?_eq_some_iff.mp hget).1 grid')
  · intro hgrid g hg
    rcases List.mem_or_eq_of_mem_set hg with hg | rfl
    · exact h g hg
    · exact hgrid

theorem forall_mem_activated {group : ℤ} (h : ∀ g ∈ s.grids, P { g with layoutChanged := true }) :
    ∀ g ∈ (setGuiActiveGroup s group).grids, P g :=
  List.forall_mem_map.mpr h

theorem forall_mem_painted (h : ∀ g ∈ s.grids, P g)
    (hpaint : ∀ g ∈ s.grids, P g → P (paintGrid g)) :
    ∀ g ∈ (paintActiveGrids s).grids, P g := by
  refine List.forall_mem_map.mpr fun g hg => ?_
  split_ifs
  · exact hpaint g hg (h g hg)
  · exact h g hg

end Grids

theorem SizedScreen.step (hs : SizedScreen s) (h : step fb s c = some s') : SizedScreen s' := by
  obtain ⟨heffect, -⟩ := step_effect hs h
  cases heffect with
  | refused => exact hs
  | created rect rows cols group hcreatable =>
    refine List.forall_mem_append.mpr ⟨hs, List.forall_mem_singleton.mpr ?_⟩
    exact .inr (sized_created hcreatable group)
  | column k call grid grid' hget hsized hcall he =>
    exact (forall_mem_set_iff hget hs).mpr (hsized.effect he)
  | activated group =>
    apply forall_mem_activated
    exact fun g hg => (hs g hg).imp id fun h => ⟨h.rows, h.cols, h.columns⟩
  | painted =>
    apply forall_mem_painted hs
    exact fun g _ hg => hg.imp ((cyclic_paintGrid g).trans ·) Sized.paintGrid

/-- The state `s` of the screen is reached by the calls `tr`. -/
def Reaches (fb : Framebuffer) (tr : List (Screen × Call)) (s : Screen) : Prop :=
  Run (step fb) empty tr s

theorem Reaches.sized {tr : List (Screen × Call)} (h : Reaches fb tr s) : SizedScreen s :=
  h.invariant (by simp [SizedScreen, empty]) fun _ _ _ hs hstep => hs.step hstep

/-- Calls that can be made one after the other, for concrete runs. -/
theorem exists_reaches (fb : Framebuffer) (calls : List Call)
    (p : List (Screen × Call) × Screen → Prop) [DecidablePred p]
    (h : (exec (step fb) empty calls).any (fun r => p r) = true) :
    ∃ tr s, Reaches fb tr s ∧ tr.map Prod.snd = calls ∧ p (tr, s) :=
  exists_run_of_exec calls p h

end SortingLine.Gui.Layout
