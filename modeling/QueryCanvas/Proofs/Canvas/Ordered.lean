import QueryCanvas.Proofs.Arrangement.Recast
import QueryCanvas.Proofs.Canvas.Results
import QueryCanvas.Proofs.Canvas.Sheets
import QueryCanvas.Proofs.CarryOver.Shape
import QueryCanvas.Proofs.Sql.WrittenParameters

/-!
# The order of choice

A table keeps its chosen columns in the order in which they were chosen, and lists them in another
one: the declared columns first, in their declared order.  A canvas on which every table keeps its
choice as it lists it has the query text and the shape that it had before.  The order in which
declared columns were chosen is therefore never seen.
-/

set_option autoImplicit false

namespace QueryCanvas

namespace Table

variable (t : Table)

/-- The table with its chosen columns in the order in which they are listed. -/
def ordered : Table := { t with selected := t.orderedSelection }

@[simp] theorem ordered_id : t.ordered.id = t.id := rfl

@[simp] theorem ordered_name : t.ordered.name = t.name := rfl

@[simp] theorem isSelected_ordered (column : String) :
    t.ordered.isSelected column = t.isSelected column := by
  rw [Bool.eq_iff_iff, isSelected, isSelected, List.contains_iff_mem, List.contains_iff_mem]
  exact mem_orderedSelection

/-- Listed columns stay in their order. -/
@[simp] theorem orderedSelection_ordered : t.ordered.orderedSelection = t.orderedSelection := by
  have hundeclared : t.orderedSelection.filter (!t.columns.contains ·) =
      t.selected.filter (!t.columns.contains ·) := by
    have hdeclared : (t.columns.filter t.isSelected).filter (!t.columns.contains ·) = [] := by
      refine List.filter_eq_nil_iff.2 fun column hcolumn => ?_
      simpa using (List.mem_filter.1 hcolumn).1
    rw [orderedSelection, List.filter_append, hdeclared, List.filter_filter]
    simp
  have hchosen : t.ordered.isSelected = t.isSelected := funext t.isSelected_ordered
  rw [orderedSelection, hchosen]
  exact congrArg (t.columns.filter t.isSelected ++ ·) hundeclared

theorem plainColumns_ordered : t.ordered.plainColumns = t.plainColumns := by
  rw [plainColumns, orderedSelection_ordered]
  rfl

theorem columnAggregates_ordered : t.ordered.columnAggregates = t.columnAggregates := by
  rw [columnAggregates, orderedSelection_ordered]
  rfl

theorem chosenColumns_ordered : Sql.chosenColumns t.ordered = Sql.chosenColumns t := by
  rw [Sql.chosenColumns, orderedSelection_ordered]
  rfl

end Table

namespace Block

/-- The block with the chosen columns of all tables in the order in which they are listed, in the
blocks nested in it too. -/
def ordered (b : Block) : Block := b.mapBlocks (changeTables (List.map Table.ordered))

variable (b : Block)

theorem ordered_eq :
    b.ordered = { b with
      tables := b.tables.map Table.ordered
      subqueries := b.subqueries.map fun s => { s with block := s.block.ordered } } :=
  mapBlocks_eq _ b

theorem recasts_ordered :
    (Sql.Recasting.ofTables Table.ordered Table.ordered_id).Recasts b b.ordered := by
  rw [ordered_eq]
  exact ⟨rfl, (List.map_id _).symm⟩

@[simp] theorem hasNoSource_ordered : b.ordered.hasNoSource = b.hasNoSource := by
  rw [ordered_eq]
  simp [hasNoSource, subqueriesIn, List.filter_map, Function.comp_def]

/-! ## Shapes -/

theorem join_shape?_ordered (j : Join) : j.shape? b.ordered = j.shape? b := by
  have htable : ∀ id, b.ordered.table? id = (b.table? id).map Table.ordered :=
    b.recasts_ordered.table?
  simp only [Join.shape?, htable]
  cases b.table? j.sourceTable <;> cases b.table? j.targetTable <;> rfl

theorem shapeWith_ordered (nested : List (SubqueryOf BlockShape)) :
    b.ordered.shapeWith nested = b.shapeWith nested := by
  have hjoins : Join.shape? b.ordered = Join.shape? b := funext b.join_shape?_ordered
  rw [shapeWith, shapeWith, hjoins, ordered_eq]
  simp only [List.map_map, List.flatMap_map, Function.comp_def, Table.ordered_name,
    Table.plainColumns_ordered, Table.columnAggregates_ordered]

/-- The order of choice is no part of a shape. -/
@[simp] theorem shape_ordered : b.ordered.shape = b.shape := by
  induction b using tree_induction with
  | step b ih =>
    have hnested : b.ordered.subqueries.map shaped = b.subqueries.map shaped := by
      rw [ordered_eq, List.map_map]
      refine List.map_congr_left fun s hs => ?_
      simp only [Function.comp_apply, shaped, ih s hs]
    rw [shape_eq, shape_eq, hnested, shapeWith_ordered]

end Block

/-! ## Texts -/

namespace Sql

theorem blockText_ordered (l : Layout) (b : Block) (nested : List (SubqueryOf String)) :
    blockText l b.ordered nested = blockText l b nested := by
  have hselect : selectList b.ordered nested = selectList b nested := by
    rw [selectList, Block.ordered_eq]
    simp only [List.flatMap_map, Table.chosenColumns_ordered]
    rfl
  have hfrom : fromClause l b.ordered nested = fromClause l b nested :=
    fromClause_recast b.recasts_ordered Table.ordered_name l rfl
  rw [blockText, blockText, Block.hasNoSource_ordered, hselect, hfrom, Block.ordered_eq]

theorem renderBlock_ordered (l : Layout) (b : Block) :
    renderBlock l b.ordered = renderBlock l b := by
  induction b using Block.tree_induction with
  | step b ih =>
    have hnested : renderNested l b.ordered.subqueries = renderNested l b.subqueries := by
      rw [renderNested_eq, renderNested_eq, Block.ordered_eq, List.map_map]
      refine List.map_congr_left fun s hs => ?_
      simp only [Function.comp_apply, Block.hasNoSource_ordered, ih s hs]
    rw [renderBlock_eq, renderBlock_eq, hnested, blockText_ordered]

end Sql

namespace Canvas

/-- The canvas with the chosen columns of all tables in the order in which they are listed. -/
def ordered (c : Canvas) : Canvas := c.mapBlocks (Block.changeTables (List.map Table.ordered))

variable (c : Canvas)

theorem ordered_eq :
    c.ordered =
      { ctes := c.ctes.map fun q => { q with block := q.block.ordered }
        root := c.root.ordered } := rfl

/-- The order of choice is no part of a shape. -/
theorem shape_ordered : c.ordered.shape = c.shape := by
  simp only [shape, ordered_eq, Block.shape_ordered, List.filter_map, List.map_map,
    Function.comp_def, Block.hasNoSource_ordered]

/-- The order of choice is not seen in the query text. -/
theorem render_ordered (l : Sql.Layout) : Sql.render l c.ordered = Sql.render l c := by
  simp only [Sql.render, ordered_eq, Block.hasNoSource_ordered, Sql.renderBlock_ordered,
    List.filter_map, List.map_map, Function.comp_def]

end Canvas

end QueryCanvas
