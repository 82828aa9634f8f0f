import QueryCanvas.Proofs.Arrangement.Recast
import QueryCanvas.Proofs.Canvas.Redrawn
import QueryCanvas.Proofs.Sql.WrittenParameters

/-!
# Query texts hold neither identifiers nor places

The arrangement of a `FROM` clause asks of identifiers only whether they are the same, so that of a
redrawn block is the redrawn arrangement.  Names, columns and conditions stay, and nothing else is
written: a redrawn canvas has the query text that it had.
-/

set_option autoImplicit false

namespace QueryCanvas

namespace Sql

section Redrawing

variable (r : Redrawing)

def JoinStep.redraw (s : JoinStep) : JoinStep :=
  { s with
    joined := s.joined.map (Table.redraw r), conditions := s.conditions.map (Join.relabel r.id) }

def FromItem.redraw (item : FromItem) : FromItem :=
  { base := item.base.redraw r, steps := item.steps.map (JoinStep.redraw r) }

/-- Tables that are redrawn are recast: they have their names and the new identifiers. -/
def Recasting.ofRedrawing (hr : r.KeepsApart) : Recasting :=
  { id := r.id, table := Table.redraw r, injective := hr, table_id := fun _ => rfl }

theorem recasts_redraw (hr : r.KeepsApart) (b : Block) :
    (Recasting.ofRedrawing r hr).Recasts b (b.redraw r) :=
  ⟨Block.redraw_tables r b, Block.redraw_joins r b⟩

end Redrawing

variable {r : Redrawing}

/-! ## The arrangement of a block -/

/-- The arrangement of a redrawn block is the redrawn arrangement. -/
theorem fromItems_redraw (hr : r.KeepsApart) (b : Block) :
    fromItems (b.redraw r) = (fromItems b).map (FromItem.redraw r) :=
  fromItems_recast (recasts_redraw r hr b)

/-! ## Texts -/

theorem nestedItems_redraw (nested : List (SubqueryOf String)) (role : SubqueryRole) :
    nestedItems (nested.map (SubqueryOf.redrawShell r)) role = nestedItems nested role := by
  simp only [nestedItems, List.filter_map, List.map_map]
  rfl

theorem filterText_redraw (hr : r.KeepsApart) (nested : List (SubqueryOf String))
    (x : Filter) :
    filterText (nested.map (SubqueryOf.redrawShell r)) (x.relabel r.id) = filterText nested x := by
  simp only [filterText, Filter.relabel_operand, Operand.linked_redraw hr,
    Operand.relabel_value?]
  cases x.operand.subquery?.bind fun i => nested.find? fun s => s.id = i <;> rfl

theorem clause_map {α β : Type} (keyword : String) (g : α → β) (items : List α)
    (text : List β → String) :
    clause keyword (items.map g) text = clause keyword items fun l => text (l.map g) := by
  simp [clause]

theorem blockText_redraw (hr : r.KeepsApart) (l : Layout) (b : Block)
    (nested : List (SubqueryOf String)) :
    blockText l (b.redraw r) (nested.map (SubqueryOf.redrawShell r)) = blockText l b nested := by
  have hselect : selectList (b.redraw r) (nested.map (SubqueryOf.redrawShell r)) =
      selectList b nested := by
    simp only [selectList, Block.redraw_tables, Block.redraw_aggregates, List.flatMap_map,
      List.map_map, nestedItems_redraw]
    rfl
  have hfrom : fromClause l (b.redraw r) (nested.map (SubqueryOf.redrawShell r)) =
      fromClause l b nested :=
    fromClause_recast (recasts_redraw r hr b) (fun _ => rfl) l
      (nestedItems_redraw nested .fromClause)
  simp only [blockText, Block.hasNoSource_redraw, hselect, hfrom, Block.redraw_filters,
    Block.redraw_groupBy, Block.redraw_having, Block.redraw_orderBy, Block.redraw_limit,
    clause_map, List.map_map, Function.comp_def, filterText_redraw hr]
  rfl

/-- A redrawn block has the query text that it had. -/
theorem renderBlock_redraw (hr : r.KeepsApart) (l : Layout) (b : Block) :
    renderBlock l (b.redraw r) = renderBlock l b := by
  induction b using Block.tree_induction with
  | step b ih =>
    have hnested : renderNested l (b.redraw r).subqueries =
        (renderNested l b.subqueries).map (SubqueryOf.redrawShell r) := by
      rw [renderNested_eq, renderNested_eq, Block.redraw_subqueries, List.map_map, List.map_map]
      refine List.map_congr_left fun s hs => ?_
      simp only [Function.comp_apply, Subquery.redraw_block, Block.hasNoSource_redraw, ih s hs]
      rfl
    rw [renderBlock_eq, renderBlock_eq, hnested, blockText_redraw hr]

/-- A redrawn canvas has the query text that it had. -/
theorem render_redraw (hr : r.KeepsApart) (l : Layout) (c : Canvas) :
    render l (c.redraw r) = render l c := by
  simp only [render, Canvas.redraw_root, Canvas.redraw_ctes, Block.hasNoSource_redraw,
    List.filter_map, List.map_map, Function.comp_def, Cte.redraw_name, Cte.redraw_block,
    renderBlock_redraw hr]

section Relabelled

variable {f : EntityId → EntityId}

theorem renderBlock_relabel (hf : Function.Injective f) (l : Layout) (b : Block) :
    renderBlock l (b.relabel f) = renderBlock l b := by
  rw [← Block.redraw_relabel]
  exact renderBlock_redraw (Redrawing.keepsApart_relabel hf) l b

theorem render_relabel (hf : Function.Injective f) (l : Layout) (c : Canvas) :
    render l (c.relabel f) = render l c := by
  rw [← Canvas.redraw_relabel]
  exact render_redraw (Redrawing.keepsApart_relabel hf) l c

end Relabelled

end Sql

end QueryCanvas
