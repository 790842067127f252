import SortingLine.Gui.Equiv.Layout

/-!
# The columns of a grid

A grid that has been laid out has the columns 0, 1, .. in list order, each with its title and one
cell a row.  `grid->cols` is set once, so adding or deleting a column leaves a grid whose last
column no text reaches, or one that takes texts for a column that is not there; and a column that is
moved to its own place closes the queue to a cycle.  `represented_iff` says which calls keep the
grid in order.
-/

namespace SortingLine.Gui.Layout

/-! ### Finding an element by its index -/

section Find

variable {α : Type*} {l : List α} {p : α → Bool} {f : α → α}

theorem modifyFirst_of_findIdx? {i : ℕ} (h : l.findIdx? p = some i) :
    modifyFirst p f l = l.modify i f := by
  induction l generalizing i with
  | nil => cases h
  | cons a l ih =>
    rw [List.findIdx?_cons] at h
    unfold modifyFirst
    split_ifs at h ⊢ with ha
    · obtain rfl := Option.some.inj h
      rfl
    · obtain ⟨j, hj, rfl⟩ := Option.map_eq_some_iff.mp h
      rw [ih hj, List.modify_succ_cons]

/-- Where the indices are 0, 1, .., an element is at the place of its index. -/
theorem findIdx?_of_range {g : α → ℕ} {n : ℕ} (h : l.map g = List.range n) (k : ℤ) :
    l.findIdx? (fun a => decide ((g a : ℤ) = k)) =
      if 0 ≤ k ∧ k < n then some k.toNat else none := by
  have hmap : l.findIdx? (fun a => decide ((g a : ℤ) = k))
      = (l.map g).findIdx? fun i : ℕ => decide ((i : ℤ) = k) := by
    rw [List.findIdx?_map]
    rfl
  rw [hmap, h]
  split_ifs with hk
  · rw [List.findIdx?_eq_some_iff_getElem]
    refine ⟨by rw [List.length_range]; omega, ?_, fun j hj => ?_⟩
    · simp [hk.1]
    · simp only [List.getElem_range, decide_eq_true_eq]
      omega
  · rw [List.findIdx?_eq_none_iff]
    intro i hi
    rw [List.mem_range] at hi
    simp only [decide_eq_false_iff_not]
    omega

/-- An element at place `i` has the index `i`. -/
theorem getElem?_index {g : α → ℕ} {n i : ℕ} {a : α} (h : l.map g = List.range n)
    (ha : l[i]? = some a) : g a = i := by
  have hi : (l.map g)[i]? = some (g a) := by rw [List.getElem?_map, ha]; rfl
  rw [h] at hi
  obtain ⟨hlt, hg⟩ := List.getElem?_eq_some_iff.mp hi
  rw [← hg, List.getElem_range]

theorem modify_congr {i : ℕ} {f' : α → α} (h : ∀ a, l[i]? = some a → f a = f' a) :
    l.modify i f = l.modify i f' := by
  apply List.ext_getElem?
  intro j
  rw [List.getElem?_modify, List.getElem?_modify]
  by_cases hij : i = j
  · subst hij
    cases hi : l[i]? with
    | none => rfl
    | some a => simp [h a hi]
  · simp [hij]

end Find

/-! ### Grids in order -/

variable {grid grid' : TGrid} {call : ColumnCall}

/-- The grid with another text in a cell, given by the places of its column and of the cell. -/
def withText (grid : Grid) (place : ℕ × ℕ) (str : Option (List UInt8)) : Grid :=
  { grid with columns := grid.columns.modify place.1 fun column =>
      { column with cells := column.cells.modify place.2 fun cell =>
          { cell with text := str.elim default .ofString } } }

/-- `grid_set_cell_text` for row `r` and column `c` replaces the text of the cell at this place, and
the cell is the one of that row in that column. -/
def ReachesCell (grid : TGrid) (r c : ℤ) (place : ℕ × ℕ) : Prop :=
  (∃ column cell, grid.columns[place.1]? = some column ∧ (column.index : ℤ) = c ∧
    column.cells[place.2]? = some cell ∧ (cell.index : ℤ) = r + 1) ∧
  ∀ str, gridSetCellText (toGrid grid) r c str = withText (toGrid grid) place str

/-- The grid shows column `c`. -/
def ShowsColumn (grid : TGrid) (c : ℤ) : Prop := ∃ column ∈ grid.columns, (column.index : ℤ) = c

/-- The columns and the cells are numbered in order, there are as many columns as the grid says, and
`grid_set_cell_text` finds the cells of the columns that are there. -/
structure Represented (grid : TGrid) : Prop where
  returned : grid.cyclic = false
  indices : grid.columns.map TColumn.index = List.range grid.columns.length
  count : grid.columns.length = grid.cols
  cells : ∀ column ∈ grid.columns, column.cells.map TCell.index = List.range (grid.rows + 1)
  reached : ∀ r c : ℤ, 0 ≤ r → r < grid.rows → ShowsColumn grid c →
    ∃! place, ReachesCell grid r c place
  other : ∀ r c : ℤ, 0 ≤ r → r < grid.rows → ¬ ShowsColumn grid c → ∀ str,
    gridSetCellText (toGrid grid) r c str = toGrid grid

/-- Where the columns are in order, column `c` is at place `c`. -/
theorem gridGetColumn_of_indices
    (h : grid.columns.map TColumn.index = List.range grid.columns.length) (index : ℤ) :
    gridGetColumn grid index =
      if 0 ≤ index ∧ index < grid.columns.length then some index.toNat else none :=
  findIdx?_of_range h index

theorem showsColumn_iff (h : grid.columns.map TColumn.index = List.range grid.columns.length)
    (c : ℤ) : ShowsColumn grid c ↔ 0 ≤ c ∧ c < grid.columns.length := by
  have hget := gridGetColumn_of_indices h c
  constructor
  · rintro ⟨column, hmem, rfl⟩
    have hindex := List.mem_map_of_mem (f := TColumn.index) hmem
    rw [h, List.mem_range] at hindex
    omega
  · intro hc
    rw [if_pos hc] at hget
    obtain ⟨hlt, hindex, -⟩ := List.findIdx?_eq_some_iff_getElem.mp hget
    exact ⟨_, List.getElem_mem hlt, by simpa using hindex⟩

/-- In a grid in order a text reaches the cell at the place of its row and column. -/
theorem gridSetCellText_of_indices (hsized : Sized grid)
    (h : grid.columns.map TColumn.index = List.range grid.columns.length)
    (hcount : grid.columns.length = grid.cols) {r c : ℤ} (hr : 0 ≤ r) (hr' : r < grid.rows)
    (hc : 0 ≤ c) (hc' : c < grid.cols) (str : Option (List UInt8)) :
    gridSetCellText (toGrid grid) r c str
      = withText (toGrid grid) (c.toNat, (r + 1).toNat) str := by
  have hmap : (toGrid grid).columns.map Column.index = List.range grid.columns.length := by
    rw [← h, toGrid, List.map_map]
    rfl
  have hcolumn := findIdx?_of_range hmap c
  rw [if_pos ⟨hc, by rwa [hcount]⟩] at hcolumn
  have hguard : ¬ (r < 0 ∨ (grid.rows : ℤ) ≤ r ∨ c < 0 ∨ (grid.cols : ℤ) ≤ c) := by omega
  refine (if_neg hguard).trans ?_
  dsimp only
  rw [modifyFirst_of_findIdx? hcolumn, withText]
  congr 1
  refine modify_congr fun column hget => ?_
  -- the cells of the column are in order too
  have hcells : column.cells.map Cell.index = List.range (grid.rows + 1) := by
    obtain ⟨column, hmem, rfl⟩ := List.mem_map.mp (List.mem_of_getElem? hget)
    rw [← (hsized.columns column hmem).cells, List.map_map]
    rfl
  have hcell := findIdx?_of_range hcells (r + 1)
  rw [if_pos ⟨by omega, by omega⟩] at hcell
  rw [modifyFirst_of_findIdx? hcell]

theorem reachesCell_of_indices (hsized : Sized grid)
    (h : grid.columns.map TColumn.index = List.range grid.columns.length)
    (hcount : grid.columns.length = grid.cols) {r c : ℤ} (hr : 0 ≤ r) (hr' : r < grid.rows)
    (hc : 0 ≤ c) (hc' : c < grid.cols) : ∃! place, ReachesCell grid r c place := by
  have hplace {p q : ℕ} {column : TColumn} {cell : TCell}
      (hcolumn : grid.columns[p]? = some column) (hcell : column.cells[q]? = some cell) :
      column.index = p ∧ cell.index = q := by
    have hcells := (hsized.columns column (List.mem_of_getElem? hcolumn)).cells
    constructor
    · exact getElem?_index h hcolumn
    · exact getElem?_index hcells hcell
  have hlt : c.toNat < grid.columns.length := by omega
  have hcells : (r + 1).toNat < grid.columns[c.toNat].cells.length := by
    rw [(hsized.columns _ (List.getElem_mem hlt)).length]
    omega
  have hcolumn := List.getElem?_eq_getElem hlt
  have hcell := List.getElem?_eq_getElem hcells
  obtain ⟨hindex, hindex'⟩ := hplace hcolumn hcell
  refine ⟨(c.toNat, (r + 1).toNat), ⟨⟨_, _, hcolumn, ?_, hcell, ?_⟩, fun str => ?_⟩, ?_⟩
  · rw [hindex]
    omega
  · rw [hindex']
    omega
  · exact gridSetCellText_of_indices hsized h hcount hr hr' hc hc' str
  · rintro ⟨p, q⟩ ⟨⟨column, cell, hp, hc₁, hq, hr₁⟩, -⟩
    obtain ⟨hp, hq⟩ := hplace hp hq
    rw [Prod.mk.injEq]
    omega

/-- **A sized grid in order is as it should be.** -/
theorem Represented.of_indices (hsized : Sized grid) (hreturned : grid.cyclic = false)
    (h : grid.columns.map TColumn.index = List.range grid.columns.length)
    (hcount : grid.columns.length = grid.cols) : Represented grid where
  returned := hreturned
  indices := h
  count := hcount
  cells column hcolumn := (hsized.columns column hcolumn).cells
  reached r c hr hr' hc := by
    obtain ⟨hc, hc'⟩ := (showsColumn_iff h c).mp hc
    exact reachesCell_of_indices hsized h hcount hr hr' hc (by rwa [← hcount])
  other r c _ _ hc str := by
    rw [showsColumn_iff h, hcount] at hc
    refine if_pos (show r < 0 ∨ (grid.rows : ℤ) ≤ r ∨ c < 0 ∨ (grid.cols : ℤ) ≤ c from ?_)
    omega

/-! ### Calls -/

/-- The calls about a column that keep a grid in order. -/
def Fits (grid : TGrid) : ColumnCall → Prop
  | .new _ _ => False
  | .delete index => index < 0 ∨ grid.cols ≤ index
  | .setIndex p index => (p : ℤ) ≠ index
  | .setWidth _ _ => True

/-- The number of columns after an edit. -/
theorem length_editColumns {q : ℕ} (h : q < grid.columns.length) :
    (editColumns grid q call).length = match call with
      | .new _ _ => grid.columns.length + 1
      | .delete _ => grid.columns.length - 1
      | .setIndex _ _ => grid.columns.length
      | .setWidth _ _ => grid.columns.length := by
  cases call with
  | new index width => exact List.length_insertIdx_of_le_length h.le _
  | delete index => exact List.length_eraseIdx_of_lt h
  | setIndex p index => exact length_moveBefore h
  | setWidth index width => exact List.length_modify ..

/-- The place that a call finds, in a grid in order. -/
theorem relays_iff (hrep : Represented grid) {q : ℕ} (h : Relays grid q call) :
    q < grid.cols ∧ match call with
      | .new index _ => (q : ℤ) = index
      | .delete index => (q : ℤ) = index
      | .setIndex _ index => (q : ℤ) = index
      | .setWidth index _ => (q : ℤ) = index := by
  have hget {index : ℤ} (h : gridGetColumn grid index = some q) :
      q < grid.cols ∧ (q : ℤ) = index := by
    rw [gridGetColumn_of_indices hrep.indices, hrep.count] at h
    split_ifs at h with hin
    obtain rfl := Option.some.inj h
    omega
  cases call with
  | new index width => exact hget h
  | delete index => exact hget h
  | setIndex p index => exact hget h.1
  | setWidth index width => exact hget h.1

/-- A call that finds nothing to do in a grid in order. -/
theorem fits_of_unchanged (hsized : Sized grid) (hrep : Represented grid)
    (hcall : columnCall grid call = some grid') (hno : ∀ q, ¬ Relays grid q call)
    (hnew : ∀ index width, call = .new index width → grid.columns = [])
    (hset : ∀ p index, call = .setIndex p index → gridGetColumn grid index = none) :
    Fits grid call := by
  have hget (index : ℤ) := gridGetColumn_of_indices hrep.indices index
  rw [hrep.count] at hget
  cases call with
  | new index width =>
    -- there is a column, as `cols` is positive
    have hcount := hrep.count
    rw [hnew index width rfl] at hcount
    exact absurd hcount.symm hsized.cols
  | delete index =>
    by_contra hin
    rw [Fits] at hin
    exact hno index.toNat ((hget index).trans (if_pos (by omega)))
  | setIndex p index =>
    -- the column at place `p` has the index `p`, and would have been found
    rintro rfl
    have hp : p < grid.columns.length := by
      simp only [columnCall] at hcall
      split_ifs at hcall with hp
      exact hp
    rw [hrep.count] at hp
    have hnone := hset p p rfl
    rw [hget, if_pos (by omega)] at hnone
    cases hnone
  | setWidth index width => trivial

/-- A grid is in order after the layout pass, if the number of columns is right. -/
theorem represented_laid_iff (hsized : Sized grid) (hrep : Represented grid) (q : ℕ)
    (call : ColumnCall) : Represented (laid { grid with columns := editColumns grid q call }) ↔
      (editColumns grid q call).length = grid.cols := by
  have hlaid : (layColumns (frame grid) 0 (frame grid).left (editColumns grid q call)).length
      = (editColumns grid q call).length := by
    rw [← List.length_map TColumn.width, width_layColumns, List.length_map]
  constructor
  · exact fun h => hlaid.symm.trans h.count
  · intro hcount
    refine .of_indices ⟨hsized.rows, hsized.cols, shape_layColumns _ _ _ _
      (hsized.editColumns q call)⟩ hrep.returned ?_ (hlaid.trans hcount)
    refine (index_layColumns _ _ _ _).trans ?_
    rw [← List.range_eq_range', ← hlaid]
    rfl

/-- The number of columns is right after an edit if the call keeps a grid in order. -/
theorem length_editColumns_iff (hsized : Sized grid) (hrep : Represented grid) {q : ℕ}
    (hq : Relays grid q call) :
    (editColumns grid q call).length = grid.cols ↔ Fits grid call := by
  have hcols := hsized.cols
  obtain ⟨hlt, hindex⟩ := relays_iff hrep hq
  have hlen : (editColumns grid q call).length = _ := length_editColumns (by rwa [hrep.count])
  rw [hrep.count] at hlen
  rw [hlen]
  cases call with
  | new index width => exact iff_of_false (by simp) id
  | delete index =>
    dsimp only [Fits] at hindex ⊢
    omega
  | setIndex p index =>
    have hne := hq.2
    dsimp only [Fits] at hindex ⊢
    omega
  | setWidth index width => exact iff_of_true rfl trivial

/-- **One call about a column.** -/
theorem represented_effect_iff (hsized : Sized grid) (hrep : Represented grid)
    (hcall : columnCall grid call = some grid') (h : ColumnEffect grid call grid') :
    Represented grid' ↔ Fits grid call := by
  cases h with
  | unchanged hno hnew hset =>
    exact iff_of_true hrep (fits_of_unchanged hsized hrep hcall hno hnew hset)
  | appended index width hno hnew =>
    subst hnew
    refine iff_of_false (fun h => ?_) id
    have hcount : (grid.columns ++ [newColumn grid.rows width 0]).length = grid.cols := h.count
    rw [List.length_append, hrep.count] at hcount
    simp at hcount
  | stuck _ hno hwhich _ hcyclic =>
    refine iff_of_false (fun h => ?_) ?_
    · rw [h.returned] at hcyclic
      cases hcyclic
    · rcases hwhich with ⟨index, width, rfl⟩ | ⟨p, index, rfl, hp⟩
      · exact id
      · rw [gridGetColumn_of_indices hrep.indices] at hp
        split_ifs at hp with hin
        obtain rfl := Option.some.inj hp
        rw [Fits]
        omega
  | relaid q hq =>
    rw [represented_laid_iff hsized hrep, length_editColumns_iff hsized hrep hq]

/-- All grids are in order. -/
def AllRepresented (s : Screen) : Prop := ∀ grid ∈ s.grids, Represented grid

/-- The calls that keep all grids in order. -/
def FitsScreen (x : Screen × Call) : Prop :=
  match x.2 with
  | .column k call => ∀ grid ∈ x.1.grids[k]?, Fits grid call
  | _ => True

instance (grid : TGrid) : DecidablePred (Fits grid)
  | .new _ _ => inferInstanceAs (Decidable False)
  | .delete index => inferInstanceAs (Decidable (index < 0 ∨ grid.cols ≤ index))
  | .setIndex p index => inferInstanceAs (Decidable ((p : ℤ) ≠ index))
  | .setWidth _ _ => inferInstanceAs (Decidable True)

instance : DecidablePred FitsScreen
  | (s, .column k call) => inferInstanceAs (Decidable (∀ grid ∈ s.grids[k]?, Fits grid call))
  | (_, .createGrid _ _ _ _) => inferInstanceAs (Decidable True)
  | (_, .setGuiActiveGroup _) => inferInstanceAs (Decidable True)
  | (_, .paintActiveGrids) => inferInstanceAs (Decidable True)

variable {fb : Framebuffer} {s s' : Screen} {c : Call}

theorem Represented.created {rect : TRect} {rows cols : ℤ} (h : Creatable fb rect rows cols)
    (group : ℤ) : Represented (created rect rows cols group) := by
  have hlen : (Layout.created rect rows cols group).columns.length = cols.toNat := by
    rw [← List.length_map TColumn.width]
    refine (congrArg List.length (width_layColumns _ _ _ _)).trans ?_
    simp
  refine .of_indices (sized_created h group) rfl ?_ hlen
  rw [hlen]
  refine (index_layColumns _ _ _ _).trans ?_
  simp [List.range_eq_range']

/-- The order of a grid does not depend on its flag, nor on what was drawn. -/
theorem Represented.congr (hsized : Sized grid) (h : Represented grid)
    (hcolumns : grid'.columns = grid.columns) (hrows : grid'.rows = grid.rows)
    (hcols : grid'.cols = grid.cols) (hcyclic : grid'.cyclic = grid.cyclic) :
    Represented grid' := by
  refine .of_indices ⟨hrows ▸ hsized.rows, hcols ▸ hsized.cols, ?_⟩ (hcyclic.trans h.returned) ?_ ?_
  · rw [hcolumns, hrows]
    exact hsized.columns
  · rw [hcolumns]
    exact h.indices
  · rw [hcolumns, hcols]
    exact h.count

/-- **One call.** -/
theorem represented_step_iff (hs : SizedScreen s) (hrep : AllRepresented s)
    (h : step fb s c = some s') : AllRepresented s' ↔ FitsScreen (s, c) := by
  obtain ⟨heffect, -⟩ := step_effect hs h
  have hsized (grid : TGrid) (hmem : grid ∈ s.grids) : Sized grid :=
    (hs grid hmem).resolve_left (by simp [(hrep grid hmem).returned])
  cases heffect with
  | refused rect rows cols group hno => exact iff_of_true hrep trivial
  | created rect rows cols group hyes =>
    refine iff_of_true (List.forall_mem_append.mpr ⟨hrep, List.forall_mem_singleton.mpr ?_⟩) trivial
    exact .created hyes group
  | column k call grid grid' hget hsized hcall he =>
    have hgrid := hrep grid (List.mem_of_getElem? hget)
    have hset : AllRepresented { s with grids := s.grids.set k grid' } ↔ Represented grid' :=
      forall_mem_set_iff hget hrep
    rw [hset, represented_effect_iff hsized hgrid hcall he]
    constructor
    · intro h grid₁ hget₁
      obtain rfl := Option.some.inj (hget.symm.trans hget₁)
      exact h
    · exact fun h => h grid hget
  | activated group =>
    refine iff_of_true ?_ trivial
    apply forall_mem_activated
    exact fun g hg => (hrep g hg).congr (hsized g hg) rfl rfl rfl rfl
  | painted =>
    refine iff_of_true ?_ trivial
    apply forall_mem_painted hrep
    intro g hg hrep
    unfold paintGrid
    split_ifs
    · exact hrep.congr (hsized g hg) rfl rfl rfl rfl
    · exact hrep

/-- **The columns of all grids stay in order** exactly if no column is added, none is deleted that
is there, and none is moved to its own place. -/
theorem represented_iff {tr : List (Screen × Call)} (h : Reaches fb tr s) :
    ((∀ x ∈ tr, AllRepresented x.1) ∧ AllRepresented s) ↔ ∀ x ∈ tr, FitsScreen x :=
  h.forall_iff (by simp [AllRepresented, empty]) fun _ _ _ _ hr hs hstep =>
    represented_step_iff (Reaches.sized hr) hs hstep

/-- Of a grid with two columns the first is widened and moved behind the second, and a column is to
be deleted that does not exist. -/
theorem represented_two_columns : ∃ tr s, Reaches ⟨100, 100⟩ tr s ∧
    tr.map Prod.snd = [.createGrid ⟨0, 0, 44, 24⟩ 1 2 7, .column 0 (.setWidth 0 30),
      .column 0 (.setIndex 1 0), .column 0 (.delete 2)] ∧ AllRepresented s := by
  obtain ⟨tr, s, hr, hcalls, hfits⟩ := exists_reaches ⟨100, 100⟩
    [.createGrid ⟨0, 0, 44, 24⟩ 1 2 7, .column 0 (.setWidth 0 30), .column 0 (.setIndex 1 0),
      .column 0 (.delete 2)] (fun r => ∀ x ∈ r.1, FitsScreen x) (by decide)
  exact ⟨tr, s, hr, hcalls, ((represented_iff hr).mpr hfits).2⟩

/-- A third column leaves `cols` at 2, and so the last column takes no text; deleting the first of
two leaves `cols` at 2 too; and the layout pass does not end if a column is moved to its own place.
-/
theorem columns_out_of_order :
    (∃ tr s, Reaches ⟨100, 100⟩ tr s ∧ tr.map Prod.snd =
      [.createGrid ⟨0, 0, 44, 24⟩ 1 2 7, .column 0 (.new 0 10)] ∧ ¬ AllRepresented s ∧
      ∃ grid ∈ s.grids, ShowsColumn grid 2 ∧
        gridSetCellText (toGrid grid) 0 2 (some [65]) = toGrid grid) ∧
    (∃ tr s, Reaches ⟨100, 100⟩ tr s ∧ tr.map Prod.snd =
      [.createGrid ⟨0, 0, 44, 24⟩ 1 2 7, .column 0 (.delete 0)] ∧ ¬ AllRepresented s) ∧
    ∃ tr s, Reaches ⟨100, 100⟩ tr s ∧ tr.map Prod.snd =
      [.createGrid ⟨0, 0, 44, 24⟩ 1 2 7, .column 0 (.setIndex 1 1)] ∧ ¬ AllRepresented s := by
  refine ⟨?_, ?_, ?_⟩
  · obtain ⟨tr, s, hr, hcalls, grid, hmem, hcount, column, hcolumn, htext⟩ :=
      exists_reaches ⟨100, 100⟩
        [.createGrid ⟨0, 0, 44, 24⟩ 1 2 7, .column 0 (.new 0 10)]
        (fun r => ∃ grid ∈ r.2.grids, grid.columns.length ≠ grid.cols ∧
          ∃ column ∈ grid.columns, (column.index : ℤ) = 2 ∧
            gridSetCellText (toGrid grid) 0 2 (some [65]) = toGrid grid) (by decide)
    exact ⟨tr, s, hr, hcalls, fun h => hcount (h grid hmem).count, grid, hmem,
      ⟨column, hcolumn, htext.1⟩, htext.2⟩
  · obtain ⟨tr, s, hr, hcalls, grid, hmem, hcount⟩ :=
      exists_reaches ⟨100, 100⟩
        [.createGrid ⟨0, 0, 44, 24⟩ 1 2 7, .column 0 (.delete 0)]
        (fun r => ∃ grid ∈ r.2.grids, grid.columns.length ≠ grid.cols) (by decide)
    exact ⟨tr, s, hr, hcalls, fun h => hcount (h grid hmem).count⟩
  · obtain ⟨tr, s, hr, hcalls, grid, hmem, hcyclic⟩ :=
      exists_reaches ⟨100, 100⟩
        [.createGrid ⟨0, 0, 44, 24⟩ 1 2 7, .column 0 (.setIndex 1 1)]
        (fun r => ∃ grid ∈ r.2.grids, grid.cyclic ≠ false) (by decide)
    exact ⟨tr, s, hr, hcalls, fun h => hcyclic (h grid hmem).returned⟩

end SortingLine.Gui.Layout
