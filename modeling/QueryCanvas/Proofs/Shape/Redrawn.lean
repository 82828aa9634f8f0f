import QueryCanvas.Proofs.Canvas.Redrawn
import QueryCanvas.Proofs.CarryOver.Shape

/-!
# Shapes see neither identifiers nor places

A redrawn canvas has the shape that it had.  Joins and filters are told by what their identifiers
lead to, and under new identifiers these lead to the same tables and nested queries.
-/

set_option autoImplicit false

namespace QueryCanvas

variable {r : Redrawing}

theorem Join.shape?_redraw (hr : r.KeepsApart) (b : Block) (j : Join) :
    (j.relabel r.id).shape? (b.redraw r) = j.shape? b := by
  simp only [shape?, relabel_sourceTable, relabel_targetTable, Block.table?_redraw hr]
  cases b.table? j.sourceTable <;> cases b.table? j.targetTable <;> rfl

/-- A filter compares with the same nested query. -/
theorem Filter.shape_redraw (hr : r.KeepsApart) (nested : List (SubqueryOf BlockShape))
    (x : Filter) :
    (x.relabel r.id).shape (nested.map (SubqueryOf.redrawShell r)) = x.shape nested := by
  simp only [shape, relabel_operand, Operand.linked_redraw hr, Option.isSome_map, Option.map_map,
    Operand.relabel_value?]
  rfl

theorem subqueryShapes_redraw (nested : List (SubqueryOf BlockShape)) (role : SubqueryRole) :
    subqueryShapes (nested.map (SubqueryOf.redrawShell r)) role = subqueryShapes nested role := by
  simp only [subqueryShapes, List.filter_map, List.map_map]
  rfl

theorem Block.shapeWith_redraw (hr : r.KeepsApart) (b : Block)
    (nested : List (SubqueryOf BlockShape)) :
    (b.redraw r).shapeWith (nested.map (SubqueryOf.redrawShell r)) = b.shapeWith nested := by
  have hjoins : (Join.shape? (b.redraw r) ∘ Join.relabel r.id) = Join.shape? b :=
    funext (Join.shape?_redraw hr b)
  have hfilters : Filter.shape (nested.map (SubqueryOf.redrawShell r)) ∘ Filter.relabel r.id =
      Filter.shape nested :=
    funext (Filter.shape_redraw hr nested)
  simp only [shapeWith, redraw_tables, redraw_joins, redraw_filters, redraw_groupBy,
    redraw_having, redraw_orderBy, redraw_limit, redraw_aggregates, List.map_map,
    List.flatMap_map, List.filterMap_map, subqueryShapes_redraw, hjoins, hfilters]
  rfl

/-- A redrawn block has the shape that it had. -/
@[simp] theorem Block.shape_redraw (hr : r.KeepsApart) (b : Block) :
    (b.redraw r).shape = b.shape := by
  induction b using Block.tree_induction with
  | step b ih =>
    have hnested : (b.redraw r).subqueries.map shaped =
        (b.subqueries.map shaped).map (SubqueryOf.redrawShell r) := by
      rw [redraw_subqueries, List.map_map, List.map_map]
      refine List.map_congr_left fun s hs => ?_
      simp only [Function.comp_apply, shaped, Subquery.redraw_block, ih s hs]
      rfl
    rw [shape_eq, shape_eq, hnested, shapeWith_redraw hr]

/-- A redrawn canvas has the shape that it had. -/
theorem Canvas.shape_redraw (hr : r.KeepsApart) (c : Canvas) :
    (c.redraw r).shape = c.shape := by
  simp only [shape, redraw_ctes, redraw_root, List.filter_map, List.map_map,
    Block.shape_redraw hr, Function.comp_def, Cte.redraw_name, Cte.redraw_block,
    Block.hasNoSource_redraw]

section Relabelled

variable {f : EntityId → EntityId}

theorem Block.shape_relabel (hf : Function.Injective f) (b : Block) :
    (b.relabel f).shape = b.shape := by
  rw [← redraw_relabel]
  exact shape_redraw (Redrawing.keepsApart_relabel hf) b

theorem Canvas.shape_relabel (hf : Function.Injective f) (c : Canvas) :
    (c.relabel f).shape = c.shape := by
  rw [← redraw_relabel]
  exact shape_redraw (Redrawing.keepsApart_relabel hf) c

end Relabelled

end QueryCanvas
