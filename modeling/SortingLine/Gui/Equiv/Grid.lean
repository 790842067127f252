import SortingLine.Gui.Grid

/-!
# Does a grid behave like a matrix of texts?

`grid_set_cell_text` and `grid_get_cell` count the title as cell 0, `grid_blank_row` and
`grid_scroll_rows` take their argument to be a cell index: blanking empties the row above, and
scrolling up moves a row into the title.  Scrolling down clears each cell before it is moved.

A grid keeps its shape (`gridOf`), so that a call is a change of texts by column and cell index.  On
these the loop of `grid_scroll_rows` has a closed form in each direction (`scrollTexts_of_pos`,
`scrollTexts_of_nonpos`), and `refines_iff` says exactly which calls do what the matrix does.
-/

namespace SortingLine.Gui

/-! ### The shape of a grid -/

/-- The column of this index with these texts. -/
def columnOf (rows index : ℕ) (t : ℕ → CellText) : Column where
  index
  cellcount := rows + 1
  cells := (List.range (rows + 1)).map fun i => { index := i, text := t i }

/-- The grid with these texts, by column and cell index. -/
def gridOf (rows cols : ℕ) (T : ℕ → ℕ → CellText) : Grid where
  rows
  cols
  columns := (List.range cols).map fun j => columnOf rows j (T j)

variable {rows cols : ℕ} {T : ℕ → ℕ → CellText} {t : ℕ → CellText}

theorem createGrid_eq : createGrid rows cols = gridOf rows cols fun _ _ => default := rfl

theorem columnOf_congr {t' : ℕ → CellText} {index : ℕ} (h : ∀ i ≤ rows, t' i = t i) :
    columnOf rows index t' = columnOf rows index t := by
  unfold columnOf
  congr 1
  apply List.map_congr_left
  intro i hi
  rw [h i (Nat.lt_succ_iff.mp (List.mem_range.mp hi))]

theorem gridOf_congr {T' : ℕ → ℕ → CellText} (h : ∀ j < cols, ∀ i ≤ rows, T' j i = T j i) :
    gridOf rows cols T' = gridOf rows cols T := by
  unfold gridOf
  congr 1
  apply List.map_congr_left
  intro j hj
  exact columnOf_congr (h j (List.mem_range.mp hj))

theorem getElem?_columnOf_of_lt {index p : ℕ} (hp : p < rows + 1) :
    (columnOf rows index t).cells[p]? = some { index := p, text := t p } := by
  unfold columnOf
  rw [List.getElem?_map, List.getElem?_range hp]
  rfl

@[simp]
theorem length_columnOf {index : ℕ} : (columnOf rows index t).cells.length = rows + 1 := by
  simp [columnOf]

theorem textAt_columnOf {index p : ℕ} (hp : p < rows + 1) :
    textAt (columnOf rows index t) p = t p := by
  unfold textAt
  rw [getElem?_columnOf_of_lt hp]
  rfl

/-- A text is set at one place. -/
theorem setTextAt_columnOf {index p : ℕ} (text : CellText) :
    setTextAt (columnOf rows index t) p text = columnOf rows index (Function.update t p text) := by
  unfold setTextAt columnOf
  congr 1
  apply List.ext_getElem
  · simp
  · intro i hi _
    rw [List.getElem_modify]
    by_cases hip : p = i
    · simp [hip]
    · simp [hip, Function.update_of_ne (Ne.symm hip)]

/-- Cell indices are places in the queue. -/
theorem gridGetCell_columnOf {index : ℕ} {k : ℤ} :
    gridGetCell (columnOf rows index t) k = if 1 ≤ k ∧ k ≤ rows then some k.toNat else none := by
  unfold gridGetCell
  by_cases hk : 1 ≤ k ∧ k ≤ rows
  · have hin : ¬ (k < 1 ∨ ((rows + 1 : ℕ) : ℤ) ≤ k) := by omega
    refine (if_neg hin).trans ?_
    rw [if_pos hk, List.findIdx?_eq_some_iff_getElem]
    refine ⟨by rw [length_columnOf]; omega, ?_, ?_⟩
    · simp [columnOf]
      omega
    · intro j hj
      simp [columnOf]
      omega
  · have hout : k < 1 ∨ ((rows + 1 : ℕ) : ℤ) ≤ k := by omega
    rw [if_neg hk]
    exact if_pos hout

theorem modifyFirst_eq_map {α : Type*} {p : α → Bool} {f : α → α} {l : List α}
    (h : l.Pairwise fun a b => p a = true → p b = false) :
    modifyFirst p f l = l.map fun a => if p a then f a else a := by
  induction l with
  | nil => rfl
  | cons a l ih =>
    obtain ⟨ha, hl⟩ := List.pairwise_cons.mp h
    unfold modifyFirst
    rw [List.map_cons]
    split_ifs with hp
    · have hrest : (l.map fun b => if p b then f b else b) = l := by
        refine (List.map_congr_left fun b hb => ?_).trans (List.map_id l)
        rw [ha b hb hp]
        rfl
      rw [hrest]
    · rw [ih hl]

/-- An element of a range is found once. -/
theorem pairwise_of_index {α : Type*} (f : ℕ → α) (g : α → ℕ) (hg : ∀ i, g (f i) = i) (n : ℕ)
    (k : ℤ) : ((List.range n).map f).Pairwise fun a b =>
      decide ((g a : ℤ) = k) = true → decide ((g b : ℤ) = k) = false := by
  rw [List.pairwise_map]
  refine List.pairwise_lt_range.imp fun {i j} hij hi => ?_
  simp only [hg, decide_eq_true_eq, decide_eq_false_iff_not] at *
  omega

/-! ### The calls on texts -/

theorem modifyFirst_cells {index : ℕ} (k : ℤ) (text : CellText) :
    { columnOf rows index t with
      cells := modifyFirst (fun cell => decide ((cell.index : ℤ) = k))
        (fun cell => { cell with text }) (columnOf rows index t).cells } =
      columnOf rows index fun i => if (i : ℤ) = k then text else t i := by
  unfold columnOf
  dsimp only
  congr 1
  rw [modifyFirst_eq_map (pairwise_of_index _ Cell.index (fun _ => rfl) _ k), List.map_map]
  apply List.map_congr_left
  intro i _
  simp only [Function.comp_apply, decide_eq_true_eq]
  split_ifs <;> rfl

/-- `grid_set_cell_text` by cell index. -/
theorem gridSetCellText_gridOf (row col : ℤ) (str : Option (List UInt8)) :
    gridSetCellText (gridOf rows cols T) row col str = gridOf rows cols fun j i =>
      if 0 ≤ row ∧ row < rows ∧ (j : ℤ) = col ∧ (i : ℤ) = row + 1 then
        str.elim default .ofString
      else T j i := by
  unfold gridSetCellText
  split_ifs with hr
  · symm
    apply gridOf_congr
    intro j hj i hi
    have hr' : row < 0 ∨ (rows : ℤ) ≤ row ∨ col < 0 ∨ (cols : ℤ) ≤ col := hr
    exact if_neg (by omega)
  · have hr' : ¬ (row < 0 ∨ (rows : ℤ) ≤ row ∨ col < 0 ∨ (cols : ℤ) ≤ col) := hr
    unfold gridOf
    dsimp only
    congr 1
    rw [modifyFirst_eq_map (pairwise_of_index _ Column.index (fun _ => rfl) _ col), List.map_map]
    apply List.map_congr_left
    intro j hj
    simp only [Function.comp_apply, decide_eq_true_eq]
    by_cases hj : (j : ℤ) = col
    · refine (if_pos hj).trans ?_
      refine (modifyFirst_cells (row + 1) _).trans (columnOf_congr fun i hi => ?_)
      split_ifs <;> first | rfl | omega
    · refine (if_neg hj).trans (columnOf_congr fun i hi => ?_)
      exact (if_neg fun h => hj h.2.2.1).symm

/-- `grid_blank_row` by cell index. -/
theorem gridBlankRow_gridOf (row : ℤ) :
    gridBlankRow (gridOf rows cols T) row =
      gridOf rows cols fun j i => if (i : ℤ) = row then default else T j i := by
  unfold gridBlankRow gridOf columnOf
  simp only [List.map_map]
  congr 1
  apply List.map_congr_left
  intro j _
  simp only [Function.comp_apply, List.map_map]
  congr 1
  apply List.map_congr_left
  intro i _
  simp only [Function.comp_apply]
  split_ifs <;> rfl

/-- One pass of the inner loop of `grid_scroll_rows`, on the texts. -/
def scrollStep (rows : ℕ) (k : ℤ) (t : ℕ → CellText) (p : ℕ) : ℕ → CellText :=
  let t := Function.update t p default
  let q : ℤ := p + k
  if 1 ≤ q ∧ q ≤ rows ∧ t q.toNat ≠ default then
    Function.update (Function.update t p (t q.toNat)) q.toNat default
  else t

/-- The inner loop of `grid_scroll_rows`, for the first `n` cells. -/
def scrollTexts (rows : ℕ) (k : ℤ) (t : ℕ → CellText) (n : ℕ) : ℕ → CellText :=
  (List.range n).foldl (scrollStep rows k) t

theorem scrollCell_columnOf {index p : ℕ} (hp : p < rows + 1) (k : ℤ) :
    scrollCell k (columnOf rows index t) p = columnOf rows index (scrollStep rows k t p) := by
  unfold scrollCell scrollStep
  rw [getElem?_columnOf_of_lt hp]
  dsimp only
  rw [setTextAt_columnOf, gridGetCell_columnOf]
  by_cases hq : 1 ≤ (p : ℤ) + k ∧ (p : ℤ) + k ≤ rows
  · have hlt : ((p : ℤ) + k).toNat < rows + 1 := by omega
    rw [if_pos hq]
    dsimp only
    rw [textAt_columnOf hlt]
    split_ifs with h0 h1 h1
    · exact absurd h0 h1.2.2
    · rfl
    · rw [setTextAt_columnOf, setTextAt_columnOf]
    · exact absurd ⟨hq.1, hq.2, h0⟩ h1
  · rw [if_neg hq, if_neg fun h => hq ⟨h.1, h.2.1⟩]

/-- `grid_scroll_rows` by cell index. -/
theorem gridScrollRows_gridOf (k : ℤ) :
    gridScrollRows (gridOf rows cols T) k =
      gridOf rows cols fun j => scrollTexts rows k (T j) (rows + 1) := by
  have hloop (j n : ℕ) (hn : n ≤ rows + 1) :
      (List.range n).foldl (scrollCell k) (columnOf rows j (T j)) =
        columnOf rows j (scrollTexts rows k (T j) n) := by
    induction n with
    | zero => rfl
    | succ n ih =>
      rw [List.range_succ, List.foldl_concat, ih (by omega), scrollCell_columnOf (by omega)]
      unfold scrollTexts
      rw [List.range_succ, List.foldl_concat]
  unfold gridScrollRows gridOf
  congr 1
  rw [List.map_map]
  apply List.map_congr_left
  intro j _
  simp only [Function.comp_apply, length_columnOf]
  exact hloop j _ (Nat.le_refl _)

/-! ### Scrolling in closed form -/

theorem scrollTexts_succ (k : ℤ) (n : ℕ) :
    scrollTexts rows k t (n + 1) = scrollStep rows k (scrollTexts rows k t n) n := by
  unfold scrollTexts
  rw [List.range_succ, List.foldl_concat]

/-- Scrolling down, or not at all: every cell is cleared before its text is moved. -/
theorem scrollTexts_of_nonpos {k : ℤ} (hk : k ≤ 0) (n i : ℕ) :
    scrollTexts rows k t n i = if i < n then default else t i := by
  induction n generalizing i with
  | zero => rfl
  | succ n ih =>
    rw [scrollTexts_succ]
    have hclear (i : ℕ) : Function.update (scrollTexts rows k t n) n default i =
        if i < n + 1 then default else t i := by
      by_cases hi : i = n
      · rw [hi, Function.update_self, if_pos (Nat.lt_succ_self n)]
      · rw [Function.update_of_ne hi, ih]
        split_ifs <;> first | rfl | omega
    unfold scrollStep
    rw [if_neg, hclear]
    rintro ⟨h1, -, hne⟩
    exact hne ((hclear _).trans (if_pos (by omega)))

/-- One pass when scrolling up: the text of the cell `k` places on is moved. -/
theorem scrollStep_of_pos {k : ℕ} (hk : 0 < k) (p i : ℕ) :
    scrollStep rows k t p i =
      if i = p then (if p + k ≤ rows then t (p + k) else default)
      else if i = p + k ∧ p + k ≤ rows then default
      else t i := by
  have hq : ((p : ℤ) + (k : ℤ)).toNat = p + k := by omega
  unfold scrollStep
  rw [hq, Function.update_of_ne (by omega : p + k ≠ p)]
  by_cases hin : p + k ≤ rows
  · rw [if_pos hin]
    by_cases hd : t (p + k) = default
    · -- There is nothing to move, and nothing to clear.
      rw [if_neg fun h => h.2.2 hd]
      by_cases hip : i = p
      · rw [if_pos hip, hip, Function.update_self, hd]
      · rw [if_neg hip, Function.update_of_ne hip]
        split_ifs with hs
        · rw [hs.1, hd]
        · rfl
    · rw [if_pos ⟨by omega, by omega, hd⟩]
      by_cases hs : i = p + k
      · rw [if_neg (by omega), if_pos ⟨hs, hin⟩, hs, Function.update_self]
      · rw [Function.update_of_ne hs]
        by_cases hip : i = p
        · rw [if_pos hip, hip, Function.update_self]
        · rw [if_neg hip, if_neg fun h => hs h.1, Function.update_of_ne hip,
            Function.update_of_ne hip]
  · rw [if_neg hin, if_neg (by omega)]
    by_cases hip : i = p
    · rw [if_pos hip, hip, Function.update_self]
    · rw [if_neg hip, if_neg fun h => hin h.2, Function.update_of_ne hip]

/-- Scrolling up: the first cells have the texts from `k` cells on, which are cleared. -/
theorem scrollTexts_of_pos {k : ℕ} (hk : 0 < k) {n i : ℕ} (hi : i ≤ rows) :
    scrollTexts rows k t n i =
      if i < n then (if i + k ≤ rows then t (i + k) else default)
      else if k ≤ i ∧ i < n + k then default
      else t i := by
  induction n generalizing i with
  | zero =>
    rw [if_neg (Nat.not_lt_zero i), if_neg (by omega)]
    rfl
  | succ n ih =>
    rw [scrollTexts_succ, scrollStep_of_pos hk]
    by_cases hin : i = n
    · rw [if_pos hin, if_pos (by omega : i < n + 1), hin]
      by_cases hsrc : n + k ≤ rows
      · -- The source has not been touched yet.
        rw [if_pos hsrc, if_pos hsrc, ih hsrc, if_neg (by omega), if_neg (by omega)]
      · rw [if_neg hsrc, if_neg hsrc]
    · rw [if_neg hin, ih hi]
      by_cases hs : i = n + k
      · rw [if_pos ⟨hs, hs ▸ hi⟩, if_neg (by omega), if_pos (by omega)]
      · rw [if_neg fun h => hs h.1]
        have hlt : i < n + 1 ↔ i < n := by omega
        have hcl : k ≤ i ∧ i < n + 1 + k ↔ k ≤ i ∧ i < n + k := by omega
        simp only [hlt, hcl]

/-! ### Which calls do what the matrix does -/

/-- The matrix with these texts, by column and cell index. -/
def matrixOf (rows cols : ℕ) (T : ℕ → ℕ → CellText) : TextMatrix CellText rows cols where
  entry i j := T j (i + 1)
  title j := T j 0

theorem texts_gridOf : (gridOf rows cols T).texts rows cols = matrixOf rows cols T := by
  have hcolumn (j : Fin cols) : (gridOf rows cols T).columns[j.val]? =
      some (columnOf rows j (T j)) := by
    unfold gridOf
    rw [List.getElem?_map, List.getElem?_range j.isLt]
    rfl
  unfold Grid.texts
  simp only [hcolumn, Option.elim_some]
  congr 1
  · funext i j
    exact textAt_columnOf (by omega)
  · funext j
    exact textAt_columnOf (by omega)

/-- The call does what the matrix does: a row is set, or the row named and the one above it are
already empty, or no text is moved into the title, or none is lost. -/
def Fits (m : TextMatrix CellText rows cols) : GridOp → Prop
  | .setCellText _ _ _ => True
  | .blankRow row => ∀ i : Fin rows, (i : ℤ) = row ∨ (i : ℤ) + 1 = row → m.RowEmpty i
  | .scrollRows k =>
    ∀ i : Fin rows, (if 0 < k then (i : ℤ) + 1 = k else (i : ℤ) < rows + k) → m.RowEmpty i

instance (m : TextMatrix CellText rows cols) : DecidablePred (Fits m)
  | .setCellText _ _ _ => .isTrue trivial
  | .blankRow row =>
    inferInstanceAs (Decidable (∀ i : Fin rows, (i : ℤ) = row ∨ (i : ℤ) + 1 = row → m.RowEmpty i))
  | .scrollRows k =>
    inferInstanceAs (Decidable (∀ i : Fin rows,
      (if 0 < k then (i : ℤ) + 1 = k else (i : ℤ) < rows + k) → m.RowEmpty i))

/-- What a call does to the texts. -/
def applyTexts (rows : ℕ) (T : ℕ → ℕ → CellText) : GridOp → ℕ → ℕ → CellText
  | .setCellText row col str => fun j i =>
    if 0 ≤ row ∧ row < rows ∧ (j : ℤ) = col ∧ (i : ℤ) = row + 1 then str.elim default .ofString
    else T j i
  | .blankRow row => fun j i => if (i : ℤ) = row then default else T j i
  | .scrollRows k => fun j => scrollTexts rows k (T j) (rows + 1)

/-- A call keeps the shape of the grid. -/
theorem apply_gridOf (op : GridOp) :
    (gridOf rows cols T).apply op = gridOf rows cols (applyTexts rows T op) := by
  cases op with
  | setCellText row col str => exact gridSetCellText_gridOf row col str
  | blankRow row => exact gridBlankRow_gridOf row
  | scrollRows k => exact gridScrollRows_gridOf k

/-- The texts `T'` are those of the matrix after the call, and the titles are empty. -/
def Matches (rows cols : ℕ) (T T' : ℕ → ℕ → CellText) (op : GridOp) : Prop :=
  (∀ (i : Fin rows) (j : Fin cols), T' j (i + 1) = (applyOp (matrixOf rows cols T) op).entry i j) ∧
    ∀ j : Fin cols, T' j 0 = default

theorem title_applyOp (m : TextMatrix CellText rows cols) (op : GridOp) :
    (applyOp m op).title = m.title := by
  cases op <;> rfl

/-- Setting a text is right. -/
theorem matches_setCellText (h0 : ∀ j : Fin cols, T j 0 = default) (row col : ℤ)
    (str : Option (List UInt8)) :
    Matches rows cols T (applyTexts rows T (.setCellText row col str))
      (.setCellText row col str) := by
  constructor
  · intro i j
    show (if _ then _ else T j (i + 1)) =
      if (i : ℤ) = row ∧ (j : ℤ) = col then _ else T j (i + 1)
    split_ifs <;> first | rfl | omega
  · intro j
    refine (if_neg ?_).trans (h0 j)
    omega

/-- Blanking empties the row above the one it should. -/
theorem matches_blankRow_iff (h0 : ∀ j : Fin cols, T j 0 = default) (row : ℤ) :
    Matches rows cols T (applyTexts rows T (.blankRow row)) (.blankRow row) ↔
      Fits (matrixOf rows cols T) (.blankRow row) := by
  have hleft (i : Fin rows) (j : Fin cols) : applyTexts rows T (.blankRow row) j (i + 1) =
      if (i : ℤ) + 1 = row then default else T j (i + 1) := by
    show (if (((i : ℕ) + 1 : ℕ) : ℤ) = row then _ else _) = _
    rw [Int.natCast_succ]
  have hright (i : Fin rows) (j : Fin cols) :
      (applyOp (matrixOf rows cols T) (.blankRow row)).entry i j =
        if (i : ℤ) = row then default else T j (i + 1) := rfl
  constructor
  · rintro ⟨hentry, -⟩ i hi j
    have := hentry i j
    rw [hleft, hright] at this
    show T j (i + 1) = default
    rcases hi with hi | hi
    · rwa [if_neg (by omega), if_pos hi] at this
    · rw [if_pos hi, if_neg (by omega)] at this
      exact this.symm
  · intro h
    constructor
    · intro i j
      rw [hleft, hright]
      split_ifs with h1 h2 h2
      · rfl
      · exact (h i (.inr h1) j).symm
      · exact h i (.inl h2) j
      · rfl
    · intro j
      show (if _ then default else T j 0) = default
      rw [h0, ite_self]

/-- Scrolling up is right but for the title, which takes the text of a row. -/
theorem matches_scrollRows_iff_of_pos {k : ℕ} (hk : 0 < k) :
    Matches rows cols T (applyTexts rows T (.scrollRows k)) (.scrollRows k) ↔
      Fits (matrixOf rows cols T) (.scrollRows k) := by
  have htitle (j : Fin cols) : applyTexts rows T (.scrollRows k) j 0 =
      if k ≤ rows then T j k else default := by
    show scrollTexts rows k (T j) (rows + 1) 0 = _
    rw [scrollTexts_of_pos hk (Nat.zero_le rows), if_pos (Nat.succ_pos rows), Nat.zero_add]
  have hentry (i : Fin rows) (j : Fin cols) : applyTexts rows T (.scrollRows k) j (i + 1) =
      (applyOp (matrixOf rows cols T) (.scrollRows k)).entry i j := by
    show scrollTexts rows k (T j) (rows + 1) (i + 1) = dite _ _ _
    rw [scrollTexts_of_pos hk i.isLt, if_pos (by omega)]
    by_cases hin : i + 1 + k ≤ rows
    · rw [if_pos hin, dif_pos (by omega)]
      show T j (i + 1 + k) = T j (((i : ℤ) + k).toNat + 1)
      congr 1
      omega
    · rw [if_neg hin, dif_neg (by omega)]
  constructor
  · rintro ⟨-, h⟩ i hi j
    rw [if_pos (by omega)] at hi
    have hik : (i : ℕ) + 1 = k := by omega
    have := h j
    rw [htitle, if_pos (by omega)] at this
    show T j (i + 1) = default
    rwa [hik]
  · intro h
    refine ⟨hentry, fun j => ?_⟩
    rw [htitle]
    split_ifs with hle
    · have hrow := h ⟨k - 1, by omega⟩ (by rw [if_pos (by omega)]; dsimp only; omega) j
      have hk1 : k - 1 + 1 = k := by omega
      change T j (k - 1 + 1) = default at hrow
      rwa [hk1] at hrow
    · rfl

/-- Scrolling down, or not at all, loses every text. -/
theorem matches_scrollRows_iff_of_nonpos {k : ℤ} (hk : k ≤ 0) :
    Matches rows cols T (applyTexts rows T (.scrollRows k)) (.scrollRows k) ↔
      Fits (matrixOf rows cols T) (.scrollRows k) := by
  have hleft (i : ℕ) (hi : i ≤ rows) (j : Fin cols) :
      applyTexts rows T (.scrollRows k) j i = default := by
    show scrollTexts rows k (T j) (rows + 1) i = default
    rw [scrollTexts_of_nonpos hk, if_pos (Nat.lt_succ_of_le hi)]
  constructor
  · rintro ⟨hentry, -⟩ i hi j
    rw [if_neg (by omega)] at hi
    -- The row that this one should have been moved to.
    have hto : (i : ℤ) - k < rows := by omega
    have := hentry ⟨((i : ℤ) - k).toNat, by omega⟩ j
    rw [hleft _ (by dsimp only; omega)] at this
    change default = dite _ _ _ at this
    dsimp only at this
    rw [dif_pos (by omega)] at this
    have hfrom : ((((i : ℤ) - k).toNat : ℤ) + k).toNat = i := by omega
    simp only [hfrom] at this
    exact this.symm
  · intro h
    refine ⟨fun i j => ?_, fun j => hleft 0 (Nat.zero_le rows) j⟩
    rw [hleft _ i.isLt]
    show default = dite _ _ _
    split_ifs with hin
    · have hcell := h ⟨((i : ℤ) + k).toNat, by omega⟩ (by rw [if_neg (by omega)]; dsimp only; omega)
      exact (hcell j).symm
    · rfl

theorem matches_iff (h0 : ∀ j : Fin cols, T j 0 = default) (op : GridOp) :
    Matches rows cols T (applyTexts rows T op) op ↔ Fits (matrixOf rows cols T) op := by
  cases op with
  | setCellText row col str => exact iff_of_true (matches_setCellText h0 row col str) trivial
  | blankRow row => exact matches_blankRow_iff h0 row
  | scrollRows k =>
    rcases Int.lt_or_le 0 k with hk | hk
    · obtain ⟨n, rfl⟩ := Int.eq_ofNat_of_zero_le hk.le
      exact matches_scrollRows_iff_of_pos (by omega)
    · exact matches_scrollRows_iff_of_nonpos hk

/-! ### Runs -/

namespace Paired

variable {s s' : Paired rows cols} {tr : List (Paired rows cols × GridOp)}

/-- The grid has the shape that `create_grid` gives it. -/
def Shaped (s : Paired rows cols) : Prop := ∃ T, s.grid = gridOf rows cols T

theorem shaped_of_reaches (h : Reaches tr s) : s.Shaped := by
  refine h.invariant (I := Shaped) ⟨_, createGrid_eq⟩ ?_
  rintro s op s' ⟨T, hT⟩ hs
  obtain rfl := Option.some.inj hs
  refine ⟨applyTexts rows T op, ?_⟩
  show s.grid.apply op = _
  rw [hT, apply_gridOf]

theorem refines_start : (start rows cols).Refines := by
  unfold Refines start
  rw [createGrid_eq, texts_gridOf]
  exact ⟨rfl, fun _ => rfl⟩

/-- A call on a grid that shows the matrix leads to one that does, just when it fits. -/
theorem refines_step {op : GridOp} (hshape : s.Shaped) (h : s.Refines)
    (hs : step s op = some s') : s'.Refines ↔ Fits (s.grid.texts rows cols) op := by
  obtain ⟨T, hT⟩ := hshape
  obtain ⟨hm, h0⟩ := h
  rw [hT, texts_gridOf] at hm h0
  obtain rfl := Option.some.inj hs
  unfold Refines
  rw [hT, texts_gridOf, apply_gridOf, texts_gridOf, ← hm, ← matches_iff h0]
  constructor
  · rintro ⟨heq, htitle⟩
    exact ⟨fun i j => congrFun (congrFun (congrArg TextMatrix.entry heq) i) j, htitle⟩
  · rintro ⟨hentry, htitle⟩
    refine ⟨TextMatrix.ext ?_ ?_, htitle⟩
    · funext i j
      exact hentry i j
    · rw [title_applyOp]
      funext j
      exact (htitle j).trans (h0 j).symm

/-- **Refinement**: in all states of a run the grid shows the matrix, and no text in a title, if and
only if every call of the run fits. -/
theorem refines_iff (h : Reaches tr s) :
    ((∀ x ∈ tr, x.1.Refines) ∧ s.Refines) ↔ ∀ x ∈ tr, Fits (x.1.grid.texts rows cols) x.2 :=
  Run.forall_iff (C := fun x => Fits (x.1.grid.texts rows cols) x.2) (I := Refines) refines_start
    (fun _ _ _ _ hr hI hs => refines_step (shaped_of_reaches hr) hI hs) h

theorem reaches_of_exec (ops : List GridOp)
    (p : List (Paired rows cols × GridOp) × Paired rows cols → Prop) [DecidablePred p]
    (h : (exec step (start rows cols) ops).any (fun r => p r) = true) :
    ∃ tr s, Reaches tr s ∧ p (tr, s) := by
  obtain ⟨tr, s, hr, -, hp⟩ := exists_run_of_exec ops p h
  exact ⟨tr, s, hr, hp⟩

theorem refines_set_scroll :
    ∃ (tr : List (Paired 2 1 × GridOp)) (s : Paired 2 1),
      Reaches tr s ∧ tr.length = 2 ∧ s.Refines ∧ s.matrix.entry 0 0 = .ofString [65] := by
  obtain ⟨tr, s, h, hlen, hfit, hentry⟩ :=
    reaches_of_exec [.setCellText 1 0 (some [65]), .scrollRows 1]
      (fun r : List (Paired 2 1 × GridOp) × Paired 2 1 => r.1.length = 2 ∧
        (∀ x ∈ r.1, Fits (x.1.grid.texts 2 1) x.2) ∧ r.2.matrix.entry 0 0 = .ofString [65])
      (by decide +kernel)
  exact ⟨tr, s, h, hlen, ((refines_iff h).mpr hfit).2, hentry⟩

/-- The first row is set, and then blanked. -/
theorem not_refines_set_blank :
    ¬ ∀ (rows cols : ℕ), 0 < rows → 0 < cols →
      ∀ (tr : List (Paired rows cols × GridOp)) (s : Paired rows cols),
        Reaches tr s → s.Refines := by
  intro h
  obtain ⟨tr, s, hr, hne⟩ := reaches_of_exec [.setCellText 0 0 (some [65]), .blankRow 0]
    (fun r : List (Paired 1 1 × GridOp) × Paired 1 1 =>
      (r.2.grid.texts 1 1).entry 0 0 ≠ r.2.matrix.entry 0 0) (by decide +kernel)
  refine hne ?_
  rw [(h 1 1 Nat.one_pos Nat.one_pos tr s hr).1]

end Paired

end SortingLine.Gui
