import SortingLine.Gui.Equiv.Layout

/-!
# Is a change of the layout painted?

`layout_changed` is a request for a layout pass and for a repaint, and the layout pass clears it.  A
call about a column that is laid out at once leaves no request behind, and neither does the creation
of a grid.  `noneLost_iff` says which calls lose a change: what saves the display in practice is
that `set_gui_active_group` requests a repaint of all grids.
-/

namespace SortingLine.Gui.Layout

/-- If the grid does not show what was drawn last, it asks to be painted. -/
def Kept (grid : TGrid) : Prop := grid.drawn ≠ some (visibleCells grid) → grid.layoutChanged = true

/-- No change of the layout is lost to the painter. -/
def NoneLost (s : Screen) : Prop := ∀ grid ∈ s.grids, Kept grid

instance (grid : TGrid) : Decidable (Kept grid) := inferInstanceAs (Decidable (_ → _))

instance (s : Screen) : Decidable (NoneLost s) := inferInstanceAs (Decidable (∀ grid ∈ s.grids, _))

/-- The calls that lose a change: one that creates a grid; and one that lays out the columns of a
grid, unless the widths are such that the cells are where they were drawn last. -/
def Loses (fb : Framebuffer) (x : Screen × Call) : Prop :=
  match x.2 with
  | .createGrid rect rows cols _ => Creatable fb rect rows cols
  | .column k call => ∃ grid q, x.1.grids[k]? = some grid ∧ Relays grid q call ∧
      grid.drawn ≠ some (shown (frame grid) grid.rows (frame grid).left
        (editWidths q call (grid.columns.map TColumn.width)))
  | .setGuiActiveGroup _ => False
  | .paintActiveGrids => False

variable {fb : Framebuffer} {s s' s₀ : Screen} {c : Call} {grid grid' : TGrid} {call : ColumnCall}

theorem Relays.unique {q q' : ℕ} (h : Relays grid q call) (h' : Relays grid q' call) : q' = q := by
  cases call with
  | new index width => exact Option.some.inj (h'.symm.trans h)
  | delete index => exact Option.some.inj (h'.symm.trans h)
  | setIndex p index => exact Option.some.inj (h'.1.symm.trans h.1)
  | setWidth index width => exact Option.some.inj (h'.1.symm.trans h.1)

/-- Painting does not change what is visible. -/
theorem visibleCells_paintGrid (grid : TGrid) :
    visibleCells (paintGrid grid) = visibleCells grid := by
  unfold paintGrid
  split_ifs <;> rfl

/-- A grid that keeps its changes has been drawn as it is once it was painted. -/
theorem drawn_paintGrid (h : Kept grid) : (paintGrid grid).drawn = some (visibleCells grid) := by
  unfold paintGrid
  split_ifs with hflag
  · rfl
  · exact not_ne_iff.mp fun hne => hflag (h hne)

/-- **One call about a column.** -/
theorem kept_effect_iff (hsized : Sized grid) (hkept : Kept grid)
    (h : ColumnEffect grid call grid') : Kept grid' ↔ ¬ ∃ q, Relays grid q call ∧
      grid.drawn ≠ some (shown (frame grid) grid.rows (frame grid).left
        (editWidths q call (grid.columns.map TColumn.width))) := by
  cases h with
  | unchanged hno => exact iff_of_true hkept fun ⟨q, hq, _⟩ => hno q hq
  | appended index width hno => exact iff_of_true (fun _ => rfl) fun ⟨q, hq, _⟩ => hno q hq
  | stuck _ hno _ hflag => exact iff_of_true (fun _ => hflag) fun ⟨q, hq, _⟩ => hno q hq
  | relaid q hq =>
    -- the layout pass has cleared the flag
    have hvisible : visibleCells (laid { grid with columns := editColumns grid q call }) =
        shown (frame grid) grid.rows (frame grid).left
          (editWidths q call (grid.columns.map TColumn.width)) := by
      rw [visibleCells_laid (hsized.editColumns q call), width_editColumns]
      rfl
    rw [Kept, hvisible]
    constructor
    · rintro h ⟨q', hq', hne⟩
      rw [hq.unique hq'] at hne
      cases h hne
    · exact fun h hne => absurd ⟨q, hq, hne⟩ h

/-- **One call.** -/
theorem noneLost_step_iff (hs : SizedScreen s) (hkept : NoneLost s) (h : step fb s c = some s') :
    NoneLost s' ↔ ¬ Loses fb (s, c) := by
  obtain ⟨heffect, -⟩ := step_effect hs h
  cases heffect with
  | refused rect rows cols group hno => exact iff_of_true hkept hno
  | created rect rows cols group hyes =>
    refine iff_of_false (fun h => ?_) (not_not.mpr hyes)
    -- the new grid was never drawn
    have hlast := (List.forall_mem_append.mp h).2 _ (List.mem_singleton_self _)
    cases hlast (Option.some_ne_none _).symm
  | column k call grid grid' hget hsized hcall he =>
    have hgrid := hkept grid (List.mem_of_getElem? hget)
    have hset : NoneLost { s with grids := s.grids.set k grid' } ↔ Kept grid' :=
      forall_mem_set_iff hget hkept
    rw [hset, kept_effect_iff hsized hgrid he, not_iff_not]
    constructor
    · rintro ⟨q, hq, hne⟩
      exact ⟨grid, q, hget, hq, hne⟩
    · rintro ⟨grid₁, q, hget₁, hq, hne⟩
      obtain rfl := Option.some.inj (hget.symm.trans hget₁)
      exact ⟨q, hq, hne⟩
  | activated group =>
    refine iff_of_true ?_ id
    apply forall_mem_activated
    exact fun _ _ _ => rfl
  | painted =>
    refine iff_of_true ?_ id
    apply forall_mem_painted hkept
    intro g _ hg hne
    rw [drawn_paintGrid hg, visibleCells_paintGrid] at hne
    exact absurd rfl hne

/-- A grid of two columns and one row on a small screen. -/
def twoColumns : List Call :=
  [.createGrid ⟨0, 0, 44, 24⟩ 1 2 7, .setGuiActiveGroup 7, .paintActiveGrids]

end SortingLine.Gui.Layout
