import Mathlib.Algebra.Order.BigOperators.Group.List
import Mathlib.Data.Rat.Cast.Order
import SortingLine.Gui.Equiv.Columns
import SortingLine.Gui.Tiling

/-!
# Do the cells tile the grid?

Where no sum leaves the range of `int` the layout is that of `Layout`: a cell lies between two cuts
of the grid from left to right, which are the sums of the widths, and two from top to bottom,
clipped at the border.  As long as the cuts are in order the cells tile the grid.  They are not in
order in a grid that is lower than its border, which `create_grid` does not refuse.
-/

namespace SortingLine.Gui.Tiling

open Layout

/-! ### Sums in range -/

/-- The value is one of an `int`. -/
def InRange (v : ℤ) : Prop := -intMax - 1 ≤ v ∧ v ≤ intMax

theorem int32_of_inRange {v : ℤ} (h : InRange v) : int32 v = some v := if_pos h

theorem int32_of_lt {v : ℤ} (h : intMax < v) : int32 v = none := if_neg fun hv => by omega

section Pass

variable (f : Frame)

/-- The loop over the cells of a column whose sums are all in range. -/
theorem layCells_eq {left dx : ℤ} (visible : Bool) (j : ℕ) (cells : List TCell)
    (hright : InRange (left + dx)) (hrows : ∀ k ≤ j + cells.length, InRange (rowTop f k)) :
    layCells f left dx visible j (rowTop f j) cells =
      some (Layout.layCells f left dx visible j (rowTop f j) cells) := by
  induction cells generalizing j with
  | nil => rfl
  | cons cell cells ih =>
    rw [List.length_cons] at hrows
    have hbottom : InRange (rowTop f (j + 1)) := hrows (j + 1) (by omega)
    have hrest := ih (j + 1) fun k hk => hrows k (by omega)
    simp only [layCells, Layout.layCells, rowTop_succ, int32_of_inRange hright,
      int32_of_inRange hbottom, Option.bind_some, hrest, Option.map_some]

/-- **The loop over the columns**: it is defined if the right edge of the last one is in range. -/
theorem layColumns_eq {rows : ℕ} (hrows : ∀ k ≤ rows + 1, InRange (rowTop f k)) (i : ℕ) {left : ℤ}
    (hleft : 0 ≤ left) (hleft' : left ≤ intMax) (columns : List TColumn)
    (hshape : ∀ column ∈ columns, TColumn.Shape rows column)
    (hwidth : ∀ width ∈ columns.map TColumn.width, 0 ≤ width) :
    layColumns f i left columns =
      if left + (columns.map TColumn.width).sum ≤ intMax then
        some (Layout.layColumns f i left columns)
      else none := by
  induction columns generalizing i left with
  | nil => simp [layColumns, Layout.layColumns, hleft']
  | cons column columns ih =>
    obtain ⟨hcolumn, hshape⟩ := List.forall_mem_cons.mp hshape
    rw [List.map_cons] at hwidth
    obtain ⟨hpos, hwidth⟩ := List.forall_mem_cons.mp hwidth
    have hsum : 0 ≤ (columns.map TColumn.width).sum := List.sum_nonneg hwidth
    rw [List.map_cons, List.sum_cons, ← add_assoc]
    by_cases hdx : intMax < column.width
    · rw [if_neg (by omega), layColumns, int32_of_lt hdx, Option.bind_none]
    by_cases hright : intMax < left + column.width
    · rw [if_neg (by omega), layColumns, int32_of_inRange ⟨by unfold intMax; omega, by omega⟩,
        Option.bind_some, int32_of_lt hright, Option.bind_none]
    have hin : InRange (left + column.width) := ⟨by unfold intMax; omega, by omega⟩
    have htop : rowTop f 0 = f.top := by simp [rowTop]
    have hcells := layCells_eq f (decide (left < f.rMax)) 0 column.cells hin fun k hk =>
      hrows k (by rw [hcolumn.length] at hk; omega)
    rw [htop] at hcells
    have hrest := ih (i + 1) (show 0 ≤ left + column.width by omega) hin.2 hshape hwidth
    rw [layColumns, int32_of_inRange ⟨by unfold intMax; omega, by omega⟩, Option.bind_some,
      int32_of_inRange hin, Option.bind_some, hcells, Option.bind_some, hrest]
    split_ifs
    · rfl
    · rfl

/-- A column after the layout pass. -/
theorem getElem?_layColumns (i : ℕ) (left : ℤ) (columns : List TColumn) {k : ℕ} {column : TColumn}
    (h : (Layout.layColumns f i left columns)[k]? = some column) :
    ∃ c, columns[k]? = some c ∧
      column.rect.left = left + ((columns.map TColumn.width).take k).sum ∧
      column.visible = decide (column.rect.left < f.rMax) ∧
      column.cells = Layout.layCells f column.rect.left c.width column.visible 0 f.top c.cells := by
  induction columns generalizing i left k with
  | nil => cases h
  | cons c columns ih =>
    cases k with
    | zero =>
      obtain rfl := Option.some.inj h
      refine ⟨c, rfl, ?_, rfl, rfl⟩
      rw [List.take_zero, List.sum_nil, add_zero]
    | succ k =>
      obtain ⟨c', hc', hleft, hrest⟩ := ih (i + 1) (left + c.width) h
      refine ⟨c', hc', ?_, hrest⟩
      rw [hleft, List.map_cons, List.take_succ_cons, List.sum_cons, add_assoc]

end Pass

/-! ### Cuts -/

theorem sum_take_mono {l : List ℤ} (hl : ∀ a ∈ l, 0 ≤ a) {m n : ℕ} (h : m ≤ n) :
    (l.take m).sum ≤ (l.take n).sum := by
  induction n, h using Nat.le_induction with
  | base => exact le_rfl
  | succ n _ ih =>
    rw [List.take_add_one, List.sum_append]
    have hnext : 0 ≤ (l[n]?.toList).sum := by
      cases hn : l[n]? with
      | none => rfl
      | some a => simpa using hl a (List.mem_of_getElem? hn)
    omega

theorem sum_take_le {l : List ℤ} (hl : ∀ a ∈ l, 0 ≤ a) (n : ℕ) : (l.take n).sum ≤ l.sum := by
  rcases le_total n l.length with hn | hn
  · have h : (l.take n).sum ≤ (l.take l.length).sum := sum_take_mono hl hn
    rwa [List.take_length] at h
  · rw [List.take_of_length_le hn]

theorem sum_take_succ {l : List ℤ} {n : ℕ} {a : ℤ} (h : l[n]? = some a) :
    (l.take (n + 1)).sum = (l.take n).sum + a := by
  rw [List.take_add_one, h, List.sum_append]
  simp

/-- The rectangle of a grid on a screen. -/
structure OnScreen (rect : TRect) : Prop where
  left : 0 ≤ rect.left
  width : rect.left ≤ rect.right
  right : rect.right ≤ 2000
  top : 0 ≤ rect.top
  height : rect.top ≤ rect.bottom
  bottom : rect.bottom ≤ 2000

theorem onScreen_normalizeRect {fb : Framebuffer} (hfb : Supported fb) {rect : TRect}
    {rows cols : ℤ} (h : Creatable fb rect rows cols) : OnScreen (normalizeRect rect) := by
  obtain ⟨hx, hy⟩ := hfb
  unfold Creatable at h
  simp only [not_or, not_lt, not_le] at h
  obtain ⟨hl, ht, hr, hb, -, -⟩ := h
  refine ⟨hl, ?_, hr.trans hx, ht, ?_, hb.trans hy⟩
  all_goals
    simp only [normalizeRect]
    split_ifs <;> omega

/-- A grid on this rectangle, with the border and the titles that `create_grid` gives it. -/
structure Plain (rect : TRect) (rows : ℕ) (grid : TGrid) : Prop where
  rect_eq : grid.rect = rect
  rows_eq : grid.rows = rows
  rows_ne : rows ≠ 0
  cols_ne : grid.cols ≠ 0
  borderwidth : grid.borderwidth = 2
  titleheight : grid.titleheight = 0

/-- The height of a row. -/
def rowHeight (rect : TRect) (rows : ℕ) : ℤ := (rect.bottom - rect.top - 4).tdiv (rows + 1)

section Frame

variable {rect : TRect} {rows : ℕ} {grid : TGrid}

/-- The frame of such a grid. -/
theorem Plain.frame (h : Plain rect rows grid) : frame grid =
    ⟨rect.left + 2, rect.top + 2, rect.right - 2, rect.bottom - 2, rowHeight rect rows,
      rowHeight rect rows⟩ := by
  unfold Layout.frame
  rw [h.rect_eq, h.rows_eq, h.borderwidth, h.titleheight]
  rfl

theorem Plain.rowTop (h : Plain rect rows grid) (j : ℕ) :
    rowTop (Layout.frame grid) j = rect.top + 2 + j * rowHeight rect rows := by
  rw [Layout.rowTop, h.frame]
  cases j with
  | zero => simp
  | succ j =>
    rw [if_neg j.succ_ne_zero]
    push_cast
    ring

/-- The rows do not go far beyond the grid, also where it is lower than its border. -/
theorem natAbs_mul_rowHeight_le (rect : TRect) {j : ℕ} (hj : j ≤ rows + 1) :
    (j * rowHeight rect rows).natAbs ≤ (rect.bottom - rect.top - 4).natAbs := by
  have hdiv : (rowHeight rect rows).natAbs = (rect.bottom - rect.top - 4).natAbs / (rows + 1) := by
    rw [rowHeight, Int.natAbs_tdiv]
    rfl
  rw [Int.natAbs_mul, hdiv, Int.natAbs_natCast]
  exact (Nat.mul_le_mul_right _ hj).trans (Nat.mul_div_le _ _)

theorem Plain.inRange_rowTop (h : Plain rect rows grid) (hrect : OnScreen rect) {j : ℕ}
    (hj : j ≤ rows + 1) : InRange (Layout.rowTop (Layout.frame grid) j) := by
  have hbound := natAbs_mul_rowHeight_le rect hj
  obtain ⟨-, -, -, ht, hh, hb⟩ := hrect
  rw [h.rowTop]
  unfold InRange intMax
  omega

/-- **The layout pass** is that of `Layout`, if the right edge of the last column is in range. -/
theorem Plain.calcurate_eq (h : Plain rect rows grid) (hrect : OnScreen rect)
    (hchanged : grid.layoutChanged = true)
    (hshape : ∀ column ∈ grid.columns, TColumn.Shape rows column)
    (hwidth : ∀ width ∈ grid.columns.map TColumn.width, 0 ≤ width) :
    gridCalcurateCellRectInternal grid =
      if rect.left + 2 + (grid.columns.map TColumn.width).sum ≤ intMax then some (laid grid)
      else none := by
  have hno : ¬ (¬ grid.layoutChanged = true ∨ grid.rows = 0 ∨ grid.cols = 0) := by
    simp [hchanged, h.rows_eq, h.rows_ne, h.cols_ne]
  have hleft : (Layout.frame grid).left = rect.left + 2 := by rw [h.frame]
  have hl := hrect.left
  have hw := hrect.width
  have hr := hrect.right
  rw [gridCalcurateCellRectInternal, if_neg hno, hleft, layColumns_eq (Layout.frame grid)
    (fun k hk => h.inRange_rowTop hrect hk) 0 (by omega) (by unfold intMax; omega) grid.columns
    hshape hwidth]
  split_ifs
  · rw [Option.map_some, laid, hleft]
  · rfl

end Frame

/-! ### Widths over the calls -/

/-- The widths after a call. -/
def setWidth (widths : List ℤ) (call : WidthCall) : List ℤ :=
  if 0 ≤ call.index then widths.set call.index.toNat call.width else widths

/-- The widths after these calls. -/
def widthsAfter (widths : List ℤ) (calls : List WidthCall) : List ℤ := calls.foldl setWidth widths

/-- The right edge of the last column is in range. -/
def Bounded (rect : TRect) (widths : List ℤ) : Prop := rect.left + 2 + widths.sum ≤ intMax

instance (rect : TRect) (widths : List ℤ) : Decidable (Bounded rect widths) :=
  inferInstanceAs (Decidable (_ ≤ _))

theorem nonneg_setWidth {widths : List ℤ} (hw : ∀ w ∈ widths, 0 ≤ w) {call : WidthCall}
    (hcall : 0 ≤ call.width) : ∀ w ∈ setWidth widths call, 0 ≤ w := by
  intro w hmem
  unfold setWidth at hmem
  split_ifs at hmem
  · rcases List.mem_or_eq_of_mem_set hmem with hmem | rfl
    · exact hw w hmem
    · exact hcall
  · exact hw w hmem

theorem nonneg_widthsAfter {widths : List ℤ} (hw : ∀ w ∈ widths, 0 ≤ w) {calls : List WidthCall}
    (hcalls : ∀ call ∈ calls, 0 ≤ call.width) : ∀ w ∈ widthsAfter widths calls, 0 ≤ w := by
  induction calls generalizing widths with
  | nil => exact hw
  | cons call calls ih =>
    obtain ⟨hcall, hcalls⟩ := List.forall_mem_cons.mp hcalls
    exact ih (nonneg_setWidth hw hcall) hcalls

theorem length_widthsAfter (widths : List ℤ) (calls : List WidthCall) :
    (widthsAfter widths calls).length = widths.length := by
  induction calls generalizing widths with
  | nil => rfl
  | cons call calls ih =>
    have hset : (setWidth widths call).length = widths.length := by
      unfold setWidth
      split_ifs
      · exact List.length_set
      · rfl
    exact (ih (setWidth widths call)).trans hset

/-- What is to the left of a column whose width is set, with its new width. -/
theorem sum_take_add_le_sum_set {widths : List ℤ} {q : ℕ} {w : ℤ} (hq : q < widths.length)
    (h : ∀ a ∈ widths.set q w, 0 ≤ a) : (widths.take q).sum + w ≤ (widths.set q w).sum := by
  have hget : (widths.set q w)[q]? = some w := by rw [List.getElem?_set_self hq]
  have hle := sum_take_le h (q + 1)
  rwa [sum_take_succ hget, List.take_set_of_le le_rfl] at hle

/-- The columns of a grid that has been laid out, with these widths. -/
structure Holds (rect : TRect) (rows : ℕ) (widths : List ℤ) (grid : TGrid) : Prop
    extends Plain rect rows grid where
  columns : ∃ columns, grid.columns = Layout.layColumns (frame grid) 0 (rect.left + 2) columns ∧
    (∀ column ∈ columns, TColumn.Shape rows column) ∧ columns.map TColumn.width = widths

section Calls

variable {rect : TRect} {rows : ℕ} {widths : List ℤ} {grid : TGrid}

theorem Plain.holds_laid (h : Plain rect rows grid)
    (hshape : ∀ column ∈ grid.columns, TColumn.Shape rows column) :
    Holds rect rows (grid.columns.map TColumn.width) (laid grid) := by
  refine ⟨⟨h.rect_eq, h.rows_eq, h.rows_ne, h.cols_ne, h.borderwidth, h.titleheight⟩, ?_⟩
  refine ⟨grid.columns, ?_, hshape, rfl⟩
  have hleft : (Layout.frame grid).left = rect.left + 2 := by rw [h.frame]
  rw [← hleft]
  rfl

theorem Holds.shape (h : Holds rect rows widths grid) :
    ∀ column ∈ grid.columns, TColumn.Shape rows column := by
  obtain ⟨columns, heq, hshape, -⟩ := h.columns
  rw [heq]
  exact shape_layColumns _ _ _ _ hshape

theorem Holds.map_width (h : Holds rect rows widths grid) :
    grid.columns.map TColumn.width = widths := by
  obtain ⟨columns, heq, -, hwidth⟩ := h.columns
  rw [heq, width_layColumns, hwidth]

theorem Holds.map_index (h : Holds rect rows widths grid) :
    grid.columns.map TColumn.index = List.range grid.columns.length := by
  obtain ⟨columns, heq, -, -⟩ := h.columns
  rw [← List.length_map TColumn.index, heq, index_layColumns, List.length_range',
    List.range_eq_range']

theorem Holds.sized (h : Holds rect rows widths grid) : Sized grid := by
  refine ⟨h.rows_eq ▸ h.rows_ne, h.cols_ne, ?_⟩
  rw [h.rows_eq]
  exact h.shape

/-- The column at a place, whose width is the one there. -/
theorem Holds.getElem?_widths (h : Holds rect rows widths grid) {q : ℕ} {column : TColumn}
    (hq : grid.columns[q]? = some column) : widths[q]? = some column.width := by
  rw [← h.map_width, List.getElem?_map, hq]
  rfl

/-- The columns with another width at one place, before the layout pass. -/
theorem Holds.edit (h : Holds rect rows widths grid) (q : ℕ) (index width : ℤ) :
    (editColumns grid q (.setWidth index width)).map TColumn.width = widths.set q width ∧
    ∀ column ∈ editColumns grid q (.setWidth index width), TColumn.Shape rows column := by
  constructor
  · rw [width_editColumns, h.map_width]
    exact (List.modify_eq_set _ q widths).trans rfl
  · have hshape := h.sized.editColumns q (.setWidth index width)
    rwa [h.rows_eq] at hshape

/-- Where a call finds its column. -/
theorem Holds.find (h : Holds rect rows widths grid) (call : WidthCall) :
    (gridGetColumn grid call.index = none ∧ setWidth widths call = widths) ∨
    ∃ q column, gridGetColumn grid call.index = some q ∧ grid.columns[q]? = some column ∧
      setWidth widths call = widths.set q call.width := by
  have hlen : grid.columns.length = widths.length := by
    rw [← h.map_width, List.length_map]
  have hfind := gridGetColumn_of_indices h.map_index call.index
  by_cases hin : 0 ≤ call.index ∧ call.index < grid.columns.length
  · rw [if_pos hin] at hfind
    have hlt : call.index.toNat < grid.columns.length := by omega
    exact .inr ⟨_, _, hfind, List.getElem?_eq_getElem hlt, if_pos hin.1⟩
  · rw [if_neg hin] at hfind
    refine .inl ⟨hfind, ?_⟩
    unfold setWidth
    split_ifs
    · exact List.set_eq_of_length_le (by omega)
    · rfl

/-- **What a call does**: the columns have the new widths then. -/
theorem Holds.gridSetColumnWidth (h : Holds rect rows widths grid) (call : WidthCall) :
    Holds rect rows (setWidth widths call)
      (Layout.gridSetColumnWidth grid call.index call.width) := by
  unfold Layout.gridSetColumnWidth
  rcases h.find call with ⟨hfind, hset⟩ | ⟨q, column, hfind, hcolumn, hset⟩
  · simp only [hfind, hset]
    exact h
  · have hold := h.getElem?_widths hcolumn
    simp only [hfind, hcolumn, Option.map_some, Option.some.injEq]
    split_ifs with hsame
    · obtain ⟨hlt, hget⟩ := List.getElem?_eq_some_iff.mp hold
      rw [hset, ← hsame, ← hget, List.set_getElem_self]
      exact h
    · obtain ⟨hwidths, hshape⟩ := h.edit q call.index call.width
      have hedited : Plain rect rows
          { grid with columns := editColumns grid q (.setWidth call.index call.width) } :=
        ⟨h.rect_eq, h.rows_eq, h.rows_ne, h.cols_ne, h.borderwidth, h.titleheight⟩
      have hlaid := hedited.holds_laid hshape
      have hcols := calcurate_columns h.sized.rows h.sized.cols
        (editColumns grid q (.setWidth call.index call.width))
      rw [hset, ← hwidths]
      exact hcols ▸ hlaid

/-- What is left of a column whose width is set. -/
theorem Holds.left_of_getElem? (h : Holds rect rows widths grid) {q : ℕ} {column : TColumn}
    (hq : grid.columns[q]? = some column) :
    column.rect.left = rect.left + 2 + (widths.take q).sum := by
  obtain ⟨columns, heq, -, hwidth⟩ := h.columns
  rw [heq] at hq
  obtain ⟨-, -, hleft, -⟩ := getElem?_layColumns _ _ _ _ hq
  rw [hleft, hwidth]

/-- **When a call is defined**: the right edge of the last column is in range after it. -/
theorem Holds.checked_eq (h : Holds rect rows widths grid) (hrect : OnScreen rect)
    (hw : ∀ w ∈ widths, 0 ≤ w) (hbounded : Bounded rect widths) {call : WidthCall}
    (hcall : 0 ≤ call.width) :
    Tiling.gridSetColumnWidth grid call =
      if Bounded rect (setWidth widths call) then
        some (Layout.gridSetColumnWidth grid call.index call.width)
      else none := by
  unfold Tiling.gridSetColumnWidth Layout.gridSetColumnWidth
  rcases h.find call with ⟨hfind, hset⟩ | ⟨q, column, hfind, hcolumn, hset⟩
  · simp only [hfind, hset, if_pos hbounded]
  · have hold := h.getElem?_widths hcolumn
    have hwidths : ∀ w ∈ widths.set q call.width, 0 ≤ w := by
      rw [← hset]
      exact nonneg_setWidth hw hcall
    obtain ⟨hlt, hget⟩ := List.getElem?_eq_some_iff.mp hold
    simp only [hfind, hcolumn, Option.map_some, Option.some.injEq, Option.bind_some]
    by_cases hsame : column.width = call.width
    · rw [hset, ← hsame, ← hget, List.set_getElem_self, if_pos hbounded, if_pos rfl, if_pos rfl]
    · rw [if_neg hsame, if_neg hsame, hset]
      have hleft := h.left_of_getElem? hcolumn
      have hle := sum_take_add_le_sum_set hlt hwidths
      have hpos := hrect.left
      have hpos' : 0 ≤ (widths.take q).sum := List.sum_nonneg fun a ha =>
        hw a (List.mem_of_mem_take ha)
      by_cases hright : intMax < column.rect.left + call.width
      · have hno : ¬ Bounded rect (widths.set q call.width) := by
          unfold Bounded
          omega
        rw [int32_of_lt hright, Option.bind_none, if_neg hno]
      · rw [int32_of_inRange ⟨by unfold intMax; omega, by omega⟩, Option.bind_some]
        have hmodify : (grid.columns.modify q fun column' =>
            { column' with rect := { column'.rect with right := column.rect.left + call.width } }) =
            editColumns grid q (.setWidth call.index call.width) := by
          refine modify_congr fun column' hcolumn' => ?_
          obtain rfl := Option.some.inj (hcolumn.symm.trans hcolumn')
          rfl
        obtain ⟨hsum, hshape⟩ := h.edit q call.index call.width
        have hedited : Plain rect rows { grid with
            layoutChanged := true
            columns := editColumns grid q (.setWidth call.index call.width) } :=
          ⟨h.rect_eq, h.rows_eq, h.rows_ne, h.cols_ne, h.borderwidth, h.titleheight⟩
        rw [hmodify, hedited.calcurate_eq hrect rfl hshape (by rw [hsum]; exact hwidths)]
        rw [hsum]
        have hcalcurate := calcurate_columns h.sized.rows h.sized.cols
          (editColumns grid q (.setWidth call.index call.width))
        exact if_congr Iff.rfl (congrArg some hcalcurate.symm) rfl

/-! ### Runs of calls -/

/-- The right edge of the last column is in range, at first and after each call. -/
def AllBounded (rect : TRect) (widths : List ℤ) (calls : List WidthCall) : Prop :=
  ∀ l, l <+: calls → Bounded rect (widthsAfter widths l)

/-- The grid after these calls, in unbounded integers. -/
def layoutAfter (grid : TGrid) (calls : List WidthCall) : TGrid :=
  calls.foldl (fun grid call => Layout.gridSetColumnWidth grid call.index call.width) grid

theorem allBounded_cons (call : WidthCall) (calls : List WidthCall) :
    AllBounded rect widths (call :: calls) ↔
      Bounded rect widths ∧ AllBounded rect (setWidth widths call) calls := by
  constructor
  · intro h
    refine ⟨h [] (List.nil_prefix), fun l hl => ?_⟩
    exact h (call :: l) (List.cons_prefix_cons.mpr ⟨rfl, hl⟩)
  · rintro ⟨hnil, hcons⟩ l hl
    rcases List.prefix_cons_iff.mp hl with rfl | ⟨l', rfl, hl'⟩
    · exact hnil
    · exact hcons l' hl'

theorem Holds.layoutAfter (h : Holds rect rows widths grid) (calls : List WidthCall) :
    Holds rect rows (widthsAfter widths calls) (layoutAfter grid calls) := by
  induction calls generalizing grid widths with
  | nil => exact h
  | cons call calls ih => exact ih (h.gridSetColumnWidth call)

/-- **The calls refine those of `Layout`**, as far as they are defined. -/
theorem Holds.afterCalls_eq_some_iff (h : Holds rect rows widths grid) (hrect : OnScreen rect)
    (hw : ∀ w ∈ widths, 0 ≤ w) (hbounded : Bounded rect widths) {calls : List WidthCall}
    (hcalls : ∀ call ∈ calls, 0 ≤ call.width) (grid' : TGrid) :
    afterCalls grid calls = some grid' ↔
      AllBounded rect widths calls ∧ Tiling.layoutAfter grid calls = grid' := by
  induction calls generalizing grid widths with
  | nil =>
    have hall : AllBounded rect widths [] := by
      intro l hl
      rw [List.prefix_nil.mp hl]
      exact hbounded
    exact Option.some_inj.trans (and_iff_right hall).symm
  | cons call calls ih =>
    obtain ⟨hcall, hcalls⟩ := List.forall_mem_cons.mp hcalls
    have hstep : afterCalls grid (call :: calls) =
        (Tiling.gridSetColumnWidth grid call).bind fun grid => afterCalls grid calls := rfl
    rw [hstep, h.checked_eq hrect hw hbounded hcall, allBounded_cons, and_iff_right hbounded]
    split_ifs with hnext
    · exact ih (h.gridSetColumnWidth call) (nonneg_setWidth hw hcall) hnext hcalls
    · refine iff_of_false (by simp) fun hall => hnext ?_
      exact hall.1 [] List.nil_prefix

end Calls

/-! ### Tilings -/

/-- The left edge of column `i`. -/
def cut (rect : TRect) (widths : List ℤ) (i : ℕ) : ℤ := rect.left + 2 + (widths.take i).sum

/-- The upper edge of the cells `j`. -/
def rowCut (rect : TRect) (rows j : ℕ) : ℤ := rect.top + 2 + j * rowHeight rect rows

/-- Cell `j` of column `i`. -/
def box (rect : TRect) (rows : ℕ) (widths : List ℤ) (i j : ℕ) : TRect where
  left := cut rect widths i
  top := rowCut rect rows j
  right := min (cut rect widths (i + 1)) (rect.right - 2)
  bottom := min (rowCut rect rows (j + 1)) (rect.bottom - 2)

section Boxes

variable {rect : TRect} {rows : ℕ} {widths : List ℤ} {grid : TGrid}

/-- **The cells of a grid are boxes between cuts.** -/
theorem Holds.cells (h : Holds rect rows widths grid) {i : ℕ} {column : TColumn}
    (hi : grid.columns[i]? = some column) :
    column.visible = decide (cut rect widths i < rect.right - 2) ∧
    column.cells.length = rows + 1 ∧
    ∀ j cell, column.cells[j]? = some cell →
      cell.rect = box rect rows widths i j ∧ cell.visible = column.visible := by
  have hwidth := h.getElem?_widths hi
  have hleft := h.left_of_getElem? hi
  obtain ⟨columns, heq, hshape, hwidths⟩ := h.columns
  rw [heq] at hi
  obtain ⟨c, hc, -, hvisible, hcells⟩ := getElem?_layColumns _ _ _ _ hi
  have hcwidth : c.width = column.width := by
    have hget : (columns.map TColumn.width)[i]? = some c.width := by
      rw [List.getElem?_map, hc]
      rfl
    rw [hwidths, hwidth] at hget
    exact (Option.some.inj hget).symm
  obtain ⟨hrects, -, hvis⟩ := layCells_title (frame grid) column.rect.left c.width column.visible
    c.cells
  rw [← hcells] at hrects hvis
  rw [(hshape c (List.mem_of_getElem? hc)).length] at hrects
  refine ⟨?_, ?_, fun j cell hj => ⟨?_, hvis cell (List.mem_of_getElem? hj)⟩⟩
  · rw [hvisible, hleft, h.frame]
    rfl
  · rw [← List.length_map TCell.rect, hrects, List.length_map, List.length_range]
  · have hget : (column.cells.map TCell.rect)[j]? = some cell.rect := by
      rw [List.getElem?_map, hj]
      rfl
    rw [hrects, List.getElem?_map] at hget
    obtain ⟨k, hk, hrect⟩ := Option.map_eq_some_iff.mp hget
    obtain ⟨hlt, rfl⟩ := List.getElem?_eq_some_iff.mp hk
    rw [List.getElem_range] at hrect
    rw [← hrect, cellRect, h.rowTop, h.rowTop, hleft, hcwidth, h.frame, box, cut, cut, rowCut,
      rowCut, sum_take_succ hwidth, add_assoc (rect.left + 2)]

/-- The border leaves room for the cells; or there is no visible column. -/
def Roomy (rect : TRect) : Prop := 4 ≤ rect.bottom - rect.top ∨ rect.right - rect.left ≤ 4

instance (rect : TRect) : Decidable (Roomy rect) := inferInstanceAs (Decidable (_ ∨ _))

theorem cut_mono (rect : TRect) (hw : ∀ w ∈ widths, 0 ≤ w) {i i' : ℕ} (h : i ≤ i') :
    cut rect widths i ≤ cut rect widths i' := by
  have := sum_take_mono hw h
  unfold cut
  omega

theorem left_le_cut (rect : TRect) (hw : ∀ w ∈ widths, 0 ≤ w) (i : ℕ) :
    rect.left + 2 ≤ cut rect widths i := by
  have h := cut_mono rect hw (Nat.zero_le i)
  rwa [cut, List.take_zero, List.sum_nil, add_zero] at h

theorem rowHeight_nonneg (rows : ℕ) (h : 4 ≤ rect.bottom - rect.top) : 0 ≤ rowHeight rect rows :=
  Int.tdiv_nonneg (by omega) (by omega)

theorem rowCut_mono (rows : ℕ) (h : 4 ≤ rect.bottom - rect.top) {j j' : ℕ} (hj : j ≤ j') :
    rowCut rect rows j ≤ rowCut rect rows j' := by
  have hmul := Int.mul_le_mul_of_nonneg_right (Int.ofNat_le.mpr hj) (rowHeight_nonneg rows h)
  unfold rowCut
  omega

/-- The rows end above the border. -/
theorem rowCut_le (h : 4 ≤ rect.bottom - rect.top) {j : ℕ} (hj : j ≤ rows + 1) :
    rowCut rect rows j ≤ rect.bottom - 2 := by
  have hbound := natAbs_mul_rowHeight_le rect hj
  unfold rowCut
  omega

/-- Where a visible column begins. -/
theorem Holds.visible_iff (h : Holds rect rows widths grid) {i : ℕ} {column : TColumn}
    (hi : grid.columns[i]? = some column) :
    column.visible = true ↔ cut rect widths i < rect.right - 2 := by
  rw [(h.cells hi).1, decide_eq_true_iff]

/-- What is to the left of a cut is not to the right of a later one. -/
theorem column_le_of_mem_interior (hw : ∀ w ∈ widths, 0 ≤ w) {i j i' j' : ℕ} {p : ℚ × ℚ}
    (hp : p ∈ interior (box rect rows widths i j))
    (hp' : p ∈ interior (box rect rows widths i' j')) : i' ≤ i := by
  by_contra hlt
  have hcut : (cut rect widths (i + 1) : ℚ) ≤ cut rect widths i' :=
    Int.cast_le.mpr (cut_mono rect hw (by omega))
  have hclip : ((box rect rows widths i j).right : ℚ) ≤ cut rect widths (i + 1) :=
    Int.cast_le.mpr (min_le_left _ _)
  exact lt_irrefl _ ((hp'.1.trans hp.2.1).trans_le (hclip.trans hcut))

theorem row_le_of_mem_interior (h : 4 ≤ rect.bottom - rect.top) {i j i' j' : ℕ} {p : ℚ × ℚ}
    (hp : p ∈ interior (box rect rows widths i j))
    (hp' : p ∈ interior (box rect rows widths i' j')) : j' ≤ j := by
  by_contra hlt
  have hcut : (rowCut rect rows (j + 1) : ℚ) ≤ rowCut rect rows j' :=
    Int.cast_le.mpr (rowCut_mono rows h (by omega))
  have hclip : ((box rect rows widths i j).bottom : ℚ) ≤ rowCut rect rows (j + 1) :=
    Int.cast_le.mpr (min_le_left _ _)
  exact lt_irrefl _ ((hp'.2.2.1.trans hp.2.2.2).trans_le (hclip.trans hcut))

/-- Two boxes with a common point within them are the same. -/
theorem eq_of_mem_interior_box (hw : ∀ w ∈ widths, 0 ≤ w) (h : 4 ≤ rect.bottom - rect.top)
    {i j i' j' : ℕ} {p : ℚ × ℚ} (hp : p ∈ interior (box rect rows widths i j))
    (hp' : p ∈ interior (box rect rows widths i' j')) : (i, j) = (i', j') := by
  have hi : i = i' :=
    le_antisymm (column_le_of_mem_interior hw hp' hp) (column_le_of_mem_interior hw hp hp')
  have hj : j = j' :=
    le_antisymm (row_le_of_mem_interior h hp' hp) (row_le_of_mem_interior h hp hp')
  rw [hi, hj]

/-- Only a grid that is wide enough, and so high enough, has a visible column. -/
theorem Roomy.height (h : Roomy rect) (hw : ∀ w ∈ widths, 0 ≤ w) {i : ℕ}
    (hi : cut rect widths i < rect.right - 2) : 4 ≤ rect.bottom - rect.top := by
  have hleft := left_le_cut rect hw i
  rcases h with h | h
  · exact h
  · omega

/-- A cell of a visible column. -/
theorem Holds.exists_box (h : Holds rect rows widths grid) {column : TColumn} {cell : TCell}
    (hcolumn : column ∈ grid.columns) (hvisible : column.visible = true)
    (hcell : cell ∈ column.cells) :
    ∃ i j, cell.rect = box rect rows widths i j ∧ cut rect widths i < rect.right - 2 ∧
      j ≤ rows + 1 := by
  obtain ⟨i, hi⟩ := List.mem_iff_getElem?.mp hcolumn
  obtain ⟨j, hj⟩ := List.mem_iff_getElem?.mp hcell
  obtain ⟨-, hlen, hcells⟩ := h.cells hi
  obtain ⟨hlt, -⟩ := List.getElem?_eq_some_iff.mp hj
  exact ⟨i, j, (hcells j cell hj).1, (h.visible_iff hi).mp hvisible, by omega⟩

/-- The next visible column is the next one: one between them would be visible. -/
theorem Holds.eq_succ_of_nextVisible (h : Holds rect rows widths grid) (hw : ∀ w ∈ widths, 0 ≤ w)
    {i i' : ℕ} {column' : TColumn} (hnext : NextVisible grid i i')
    (hi' : grid.columns[i']? = some column') (hvisible' : column'.visible = true) :
    i' = i + 1 := by
  have hvis' := (h.visible_iff hi').mp hvisible'
  by_contra hne
  have hlt : i + 1 < i' := by
    have := hnext.lt
    omega
  obtain ⟨hlt', -⟩ := List.getElem?_eq_some_iff.mp hi'
  have hget := List.getElem?_eq_getElem (show i + 1 < grid.columns.length by omega)
  have hhidden := hnext.between (i + 1) _ (Nat.lt_succ_self i) hlt hget
  have hcut := cut_mono rect hw hlt.le
  rw [Bool.eq_false_iff] at hhidden
  exact hhidden ((h.visible_iff hget).mpr (by omega))

/-- **A roomy grid is tiled.** -/
theorem Holds.tiles (h : Holds rect rows widths grid) (hw : ∀ w ∈ widths, 0 ≤ w)
    (hroomy : Roomy rect) : Tiles grid := by
  constructor
  · intro column hcolumn hvisible cell hcell
    obtain ⟨i, j, hbox, hvis, hj⟩ := h.exists_box hcolumn hvisible hcell
    have hheight := hroomy.height hw hvis
    have hcut := cut_mono rect hw (Nat.le_succ i)
    have hrow := rowCut_mono rows hheight (Nat.le_succ j)
    have hend := rowCut_le hheight hj
    rw [hbox]
    exact ⟨le_min hcut hvis.le, le_min hrow hend⟩
  · intro column hcolumn hvisible cell hcell
    obtain ⟨i, j, hbox, hvis, -⟩ := h.exists_box hcolumn hvisible hcell
    have hrow := rowCut_mono rows (hroomy.height hw hvis) (Nat.zero_le j)
    rw [hbox, h.frame]
    refine ⟨left_le_cut rect hw i, min_le_right _ _, ?_, min_le_right _ _⟩
    rwa [rowCut, Nat.cast_zero, zero_mul, add_zero] at hrow
  · intro i i' column column' hnext hi hi' hvisible hvisible' cell hcell cell' hcell'
    obtain ⟨j, hj⟩ := List.mem_iff_getElem?.mp hcell
    obtain ⟨j', hj'⟩ := List.mem_iff_getElem?.mp hcell'
    have hvis' := (h.visible_iff hi').mp hvisible'
    obtain rfl := h.eq_succ_of_nextVisible hw hnext hi' hvisible'
    rw [((h.cells hi).2.2 j cell hj).1, ((h.cells hi').2.2 j' cell' hj').1]
    exact .inl (min_eq_left hvis'.le)
  · intro column hcolumn hvisible j cell cell' hj hj'
    obtain ⟨i, hi⟩ := List.mem_iff_getElem?.mp hcolumn
    obtain ⟨-, hlen, hcells⟩ := h.cells hi
    have hvis := (h.visible_iff hi).mp hvisible
    obtain ⟨hlt, -⟩ := List.getElem?_eq_some_iff.mp hj'
    rw [(hcells j cell hj).1, (hcells (j + 1) cell' hj').1]
    exact .inl (min_eq_left (rowCut_le (hroomy.height hw hvis) (by omega)))
  · intro i j i' j' cell cell' hcell hcell' hvisible hvisible' hne
    obtain ⟨column, hi, hj⟩ := Option.bind_eq_some_iff.mp hcell
    obtain ⟨column', hi', hj'⟩ := Option.bind_eq_some_iff.mp hcell'
    obtain ⟨hrect, hvis⟩ := (h.cells hi).2.2 j cell hj
    obtain ⟨hrect', -⟩ := (h.cells hi').2.2 j' cell' hj'
    have hshown := (h.visible_iff hi).mp (hvis ▸ hvisible)
    rw [hrect, hrect']
    exact fun p hp hp' => hne (eq_of_mem_interior_box hw (hroomy.height hw hshown) hp hp')

/-- **A grid that is lower than its border is not tiled**, if it has a visible column. -/
theorem Holds.roomy (h : Holds rect rows widths grid) (hne : widths ≠ []) (htiles : Tiles grid) :
    Roomy rect := by
  by_contra hno
  obtain ⟨hlow, hwide⟩ := not_or.mp hno
  have hlen : grid.columns.length = widths.length := by
    rw [← h.map_width, List.length_map]
  have hpos : 0 < grid.columns.length := hlen ▸ List.length_pos_iff.mpr hne
  have hget := List.getElem?_eq_getElem hpos
  obtain ⟨-, hcount, -⟩ := h.cells hget
  have hvisible : grid.columns[0].visible = true := by
    rw [h.visible_iff hget, cut, List.take_zero, List.sum_nil]
    omega
  -- the title of the first column
  have hmem : grid.columns[0] ∈ grid.columns := List.getElem_mem hpos
  have hcell : grid.columns[0].cells[0] ∈ grid.columns[0].cells := List.getElem_mem (by omega)
  have hordered := htiles.ordered _ hmem hvisible _ hcell
  have hin := htiles.inFrame _ hmem hvisible _ hcell
  rw [h.frame] at hin
  obtain ⟨-, -, htop, hbottom⟩ := hin
  dsimp only at htop hbottom
  omega

end Boxes

/-! ### Grids that are created -/

/-- The widths of the columns of a grid that has just been created. -/
def firstWidths (rect : TRect) (cols : ℤ) : List ℤ :=
  List.replicate cols.toNat
    (((normalizeRect rect).right - (normalizeRect rect).left).tdiv cols)

section Created

variable {fb : Framebuffer} {rect : TRect} {rows cols : ℤ}

theorem nonneg_firstWidths (hrect : OnScreen (normalizeRect rect)) (hcols : 0 < cols) :
    ∀ w ∈ firstWidths rect cols, 0 ≤ w := by
  intro w hw
  rw [List.eq_of_mem_replicate hw]
  have hwidth := hrect.width
  exact Int.tdiv_nonneg (by omega) hcols.le

/-- The first columns are not wider than the grid. -/
theorem bounded_firstWidths (hrect : OnScreen (normalizeRect rect)) (hcols : 0 < cols) :
    Bounded (normalizeRect rect) (firstWidths rect cols) := by
  obtain ⟨-, hwidth, hright, -, -, -⟩ := hrect
  have hmul := Int.mul_tdiv_self_le (show 0 ≤ (normalizeRect rect).right -
    (normalizeRect rect).left by omega) (k := cols)
  rw [Bounded, firstWidths, List.sum_replicate, nsmul_eq_mul, Int.toNat_of_nonneg hcols.le]
  unfold intMax
  omega

/-- The columns of a new grid, before the layout pass. -/
theorem plain_new (h : Creatable fb rect rows cols) (group : ℤ) :
    Plain (normalizeRect rect) rows.toNat
      { rect := normalizeRect rect, rows := rows.toNat, cols := cols.toNat, borderwidth := 2,
        titleheight := 0, group, layoutChanged := true
        columns := (List.range cols.toNat).map (newColumn rows.toNat
          (((normalizeRect rect).right - (normalizeRect rect).left).tdiv cols))
        cyclic := false, drawn := none } := by
  unfold Creatable at h
  exact ⟨rfl, rfl, by omega, show cols.toNat ≠ 0 by omega, rfl, rfl⟩

theorem width_newColumns (n : ℕ) (width : ℤ) (rows : ℕ) :
    ((List.range n).map (newColumn rows width)).map TColumn.width = List.replicate n width := by
  rw [List.map_map, List.eq_replicate_iff]
  refine ⟨by rw [List.length_map, List.length_range], fun w hw => ?_⟩
  obtain ⟨i, -, rfl⟩ := List.mem_map.mp hw
  exact sub_zero width

theorem shape_newColumns (n : ℕ) (width : ℤ) (rows : ℕ) :
    ∀ column ∈ (List.range n).map (newColumn rows width), TColumn.Shape rows column := by
  intro column hcolumn
  obtain ⟨i, -, rfl⟩ := List.mem_map.mp hcolumn
  exact shape_newColumn rows width i

theorem holds_created (h : Creatable fb rect rows cols) (group : ℤ) :
    Holds (normalizeRect rect) rows.toNat (firstWidths rect cols)
      (created rect rows cols group) := by
  have hholds := (plain_new h group).holds_laid (shape_newColumns _ _ _)
  rwa [width_newColumns] at hholds

/-- On a screen, `create_grid` is that of `Layout`. -/
theorem createGrid_eq (hfb : Supported fb) (rect : TRect) (rows cols group : ℤ) :
    createGrid fb rect rows cols group = some (Layout.createGrid fb rect rows cols group) := by
  rw [Layout.createGrid_eq, Tiling.createGrid]
  split_ifs with h
  · have hrect := onScreen_normalizeRect hfb h
    have hcols : 0 < cols := by
      unfold Creatable at h
      omega
    simp only [foldl_gridNewColumnInternal, List.nil_append]
    rw [(plain_new h group).calcurate_eq hrect rfl (shape_newColumns _ _ _)
      (by rw [width_newColumns]; exact nonneg_firstWidths hrect hcols), width_newColumns]
    exact congrArg (Option.map some) (if_pos (bounded_firstWidths hrect hcols))
  · rfl

end Created

/-- **When the cells tile the grid**: for each grid that `create_grid` accepts, and each sequence of
calls of `grid_set_column_width` with widths that are not negative. -/
theorem tiles_iff {fb : Framebuffer} (hfb : Supported fb) {rect : TRect} {rows cols group : ℤ}
    {grid : TGrid} (h : createGrid fb rect rows cols group = some (some grid))
    {calls : List WidthCall} (hcalls : ∀ call ∈ calls, 0 ≤ call.width) :
    (∃ grid', afterCalls grid calls = some grid' ∧ Tiles grid') ↔
      Roomy (normalizeRect rect) ∧
        AllBounded (normalizeRect rect) (firstWidths rect cols) calls := by
  rw [createGrid_eq hfb, Layout.createGrid_eq] at h
  by_cases hcreatable : Creatable fb rect rows cols
  · rw [if_pos hcreatable] at h
    obtain rfl := Option.some.inj (Option.some.inj h)
    have hrect := onScreen_normalizeRect hfb hcreatable
    have hcols : 0 < cols := by
      unfold Creatable at hcreatable
      omega
    have hholds := holds_created hcreatable group
    have hw := nonneg_firstWidths hrect hcols
    have hafter := hholds.afterCalls_eq_some_iff hrect hw (bounded_firstWidths hrect hcols) hcalls
    have hheld := hholds.layoutAfter calls
    constructor
    · rintro ⟨grid', hgrid, htiles⟩
      obtain ⟨hbounded, rfl⟩ := (hafter grid').mp hgrid
      refine ⟨hheld.roomy (fun hnil => ?_) htiles, hbounded⟩
      have hlen := length_widthsAfter (firstWidths rect cols) calls
      rw [hnil, firstWidths, List.length_replicate, List.length_nil] at hlen
      omega
    · rintro ⟨hroomy, hbounded⟩
      exact ⟨_, (hafter _).mpr ⟨hbounded, rfl⟩,
        hheld.tiles (nonneg_widthsAfter hw hcalls) hroomy⟩
  · rw [if_neg hcreatable] at h
    cases h

/-! ### Two grids -/

/-- The first column of two is made wider than the grid. -/
theorem tiles_iff_widened : ∃ grid',
    afterCalls (created ⟨0, 0, 100, 100⟩ 2 2 0) [⟨0, 300⟩] = some grid' ∧ Tiles grid' := by
  have hfb : Supported ⟨800, 480⟩ := ⟨by decide, by decide⟩
  have hnew : createGrid ⟨800, 480⟩ ⟨0, 0, 100, 100⟩ 2 2 0 =
      some (some (created ⟨0, 0, 100, 100⟩ 2 2 0)) := by
    rw [createGrid_eq hfb, Layout.createGrid_eq, if_pos (by decide)]
  refine (tiles_iff hfb hnew (by decide)).mpr ⟨by decide, ?_⟩
  rw [allBounded_cons]
  refine ⟨by decide, fun l hl => ?_⟩
  rw [List.prefix_nil.mp hl]
  decide

/-- A grid that is lower than its border: the title is upside down. -/
theorem not_tiles_low :
    createGrid ⟨800, 480⟩ ⟨0, 0, 100, 3⟩ 1 1 0 = some (some (created ⟨0, 0, 100, 3⟩ 1 1 0)) ∧
      afterCalls (created ⟨0, 0, 100, 3⟩ 1 1 0) [] = some (created ⟨0, 0, 100, 3⟩ 1 1 0) ∧
      ¬ Tiles (created ⟨0, 0, 100, 3⟩ 1 1 0) := by
  refine ⟨?_, rfl, fun htiles => ?_⟩
  · rw [createGrid_eq ⟨by decide, by decide⟩, Layout.createGrid_eq, if_pos (by decide)]
  · exact absurd htiles.ordered (by decide)

end SortingLine.Gui.Tiling
