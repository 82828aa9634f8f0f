import QueryCanvas.Diagnosis
import QueryCanvas.Lesson
import QueryCanvas.Proofs.Arrangement.Redrawn
import QueryCanvas.Proofs.Shape.Redrawn

/-!
# What a redrawn canvas gives out

Every result that is drawn from a canvas is the same for a redrawn one: its query text, its shape
and the criteria that it meets.  Its findings are the findings that there were, in their order, and
only the identifiers that they are on are the new ones.

Nothing is asked of the canvas.  Links that lead to nothing lead to nothing afterwards, and where an
identifier occurs twice, the first of its bearers is found before and afterwards.
-/

set_option autoImplicit false

namespace QueryCanvas

variable {r : Redrawing}

/-! ## Criteria -/

/-- A redrawn block meets the criteria that it met. -/
theorem Criterion.holdsIn_redraw (hr : r.KeepsApart) (b : Block) (k : Criterion) :
    k.holdsIn (b.redraw r) = k.holdsIn b := by
  cases k with
  | hasFilter column operator value =>
    have hvalue : ∀ x : Filter, (x.relabel r.id).operand.value? = x.operand.value? := fun x => by
      rw [Filter.relabel_operand, Operand.relabel_value?]
    simp only [holdsIn, Block.redraw_filters, List.any_map, Function.comp_def, hvalue]
    rfl
  | hasJoin left right =>
    simp only [holdsIn, Block.redraw_joins, List.any_map, Function.comp_def,
      Join.relabel_sourceTable, Join.relabel_targetTable, Block.tableName_redraw hr]
  | hasLimit value => simp only [holdsIn, Block.redraw_limit]
  | sqlContains keyword => rfl
  | _ =>
    simp only [holdsIn, Block.redraw_tables, Block.redraw_joins, Block.redraw_groupBy,
      Block.redraw_having, Block.redraw_orderBy, List.any_map]
    rfl

/-- A redrawn canvas meets the criteria that it met. -/
theorem Criterion.holds_redraw (hr : r.KeepsApart) (c : Canvas) (sql : String) (k : Criterion) :
    k.holds (c.redraw r) sql = k.holds c sql := by
  have hblocks : ∀ k : Criterion,
      ((c.redraw r).blocks.any fun b => k.holdsIn b) = c.blocks.any fun b => k.holdsIn b := by
    intro k
    simp only [Canvas.blocks_redraw, List.any_map, Function.comp_def, holdsIn_redraw hr]
  cases k with
  | sqlContains keyword => rfl
  | _ => exact hblocks _

/-! ## Findings -/

section Relabelling

variable (f : EntityId → EntityId)

/-- The finding on an entity that has another identifier. -/
def Finding.relabel (x : Finding) : Finding := { x with entity := x.entity.map f }

variable (x : Finding) (message : String) (id : EntityId)

@[simp] theorem Finding.relabel_severity : (x.relabel f).severity = x.severity := rfl

@[simp] theorem Finding.relabel_message : (x.relabel f).message = x.message := rfl

@[simp] theorem Finding.relabel_error :
    (error message id).relabel f = error message (f id) := rfl

@[simp] theorem Finding.relabel_warning :
    (warning message id).relabel f = warning message (f id) := rfl

end Relabelling

namespace Diagnosis

variable (c : Canvas) (b : Block)

theorem cteNames_redraw (before : List String) (ctes : List Cte) :
    cteNames before (ctes.map (Cte.redraw r)) =
      (cteNames before ctes).map (Finding.relabel r.id) := by
  induction ctes generalizing before with
  | nil => rfl
  | cons q rest ih =>
    simp only [List.map_cons, cteNames, Cte.redraw_name, Cte.redraw_id, ih,
      apply_ite (List.map (Finding.relabel r.id)), Finding.relabel_error]

theorem tables_redraw (hr : r.KeepsApart) :
    tables (c.redraw r) (b.redraw r) = (tables c b).map (Finding.relabel r.id) := by
  have hcte : ∀ t : Table, (t.cte.map r.id).any (fun id => ((c.redraw r).cte? id).isNone) =
      t.cte.any fun id => (c.cte? id).isNone := by
    intro t
    cases t.cte <;> simp [Canvas.cte?_redraw hr]
  simp only [tables, Block.redraw_tables, List.filterMap_map, List.map_filterMap]
  refine congrArg (List.filterMap · b.tables) (funext fun t => ?_)
  simp only [Function.comp_apply, Table.redraw_cte, hcte, apply_ite (Option.map _)]
  rfl

theorem joins_redraw (hr : r.KeepsApart) :
    joins (b.redraw r) = (joins b).map (Finding.relabel r.id) := by
  simp only [joins, Block.redraw_joins, List.filterMap_map, List.map_filterMap]
  refine congrArg (List.filterMap · b.joins) (funext fun j => ?_)
  simp only [Function.comp_apply, Join.relabel_sourceTable, Join.relabel_targetTable,
    Block.table?_redraw hr, Option.isNone_map, hr.eq_iff, apply_ite (Option.map _)]
  rfl

/-- The joins that are written as joins of another kind are the same ones. -/
theorem overriddenJoins_redraw (hr : r.KeepsApart) :
    Sql.overriddenJoins (b.redraw r) =
      (Sql.overriddenJoins b).map fun p => (p.1.relabel r.id, p.2) := by
  simp only [Sql.overriddenJoins, Sql.fromItems_redraw hr, List.flatMap_map, List.map_flatMap,
    Sql.FromItem.redraw, Sql.JoinStep.redraw, List.filter_map, List.map_map]
  rfl

theorem joinKinds_redraw (hr : r.KeepsApart) :
    joinKinds (b.redraw r) = (joinKinds b).map (Finding.relabel r.id) := by
  simp only [joinKinds, overriddenJoins_redraw b hr, List.map_map]
  rfl

theorem isKnown_redraw (column : String) : isKnown (b.redraw r) column = isKnown b column := by
  simp only [isKnown, Block.redraw_tables, Block.subqueriesIn_redraw, List.any_map]
  rfl

theorem column_redraw (clause text : String) (id : EntityId) :
    column (b.redraw r) clause text (r.id id) =
      (column b clause text id).map (Finding.relabel r.id) := by
  simp only [column, isKnown_redraw, apply_ite (List.map (Finding.relabel r.id))]
  rfl

theorem filter_redraw (hr : r.KeepsApart) (x : Filter) :
    filter (b.redraw r) (x.relabel r.id) = (filter b x).map (Finding.relabel r.id) := by
  have hlinked : (x.operand.relabel r.id).subquery?.any
        (fun id => ((b.redraw r).subquery? id).isNone) =
      x.operand.subquery?.any fun id => (b.subquery? id).isNone := by
    cases x.operand with
    | value text => rfl
    | subquery id =>
      simp only [Operand.relabel, Operand.subquery?, Option.any_some, Block.subquery?_redraw hr,
        Option.isNone_map]
  simp only [filter, Filter.relabel_operand, Filter.relabel_id, hlinked, List.map_append,
    ← column_redraw, apply_ite (List.map (Finding.relabel r.id))]
  rfl

theorem isLinked_redraw (hr : r.KeepsApart) (s : Subquery) :
    isLinked (b.redraw r) (s.redraw r) = isLinked b s := by
  have hback : ∀ x : Filter, ((x.operand.relabel r.id).subquery? = some (r.id s.id)) =
      (x.operand.subquery? = some s.id) := by
    intro x
    cases x.operand <;> simp [Operand.relabel, Operand.subquery?, hr.eq_iff]
  have hlinked : (s.redraw r).linkedFilter = s.linkedFilter.map r.id := rfl
  rw [isLinked, isLinked, hlinked]
  cases s.linkedFilter with
  | none => rfl
  | some i =>
    simp only [Option.map_some, Option.bind_some, Block.filter?_redraw hr, Subquery.redraw_id]
    cases b.filter? i <;> simp [hback]

theorem subquery_redraw (hr : r.KeepsApart) (s : Subquery) :
    subquery (b.redraw r) (s.redraw r) = (subquery b s).map (Finding.relabel r.id) := by
  simp only [subquery, isLinked_redraw b hr, Subquery.redraw_role, Subquery.redraw_id,
    Subquery.redraw_block, Block.hasNoSource_redraw, List.map_append,
    apply_ite (List.map (Finding.relabel r.id))]
  rfl

theorem limit_redraw (l : Option Limit) : (limit l).map (Finding.relabel r.id) = limit l := by
  unfold limit
  split
  · split <;> rfl
  · rfl

/-- The findings on a redrawn block. -/
theorem block_redraw (hr : r.KeepsApart) :
    block (c.redraw r) (b.redraw r) = (block c b).map (Finding.relabel r.id) := by
  simp only [block, tables_redraw c b hr, joins_redraw b hr, joinKinds_redraw b hr,
    Block.redraw_filters, Block.redraw_groupBy, Block.redraw_having, Block.redraw_orderBy,
    Block.redraw_limit, Block.redraw_subqueries, List.flatMap_map, filter_redraw b hr,
    subquery_redraw b hr, List.map_append, List.map_flatMap, ← column_redraw, limit_redraw]
  rfl

end Diagnosis

/-- The findings on a redrawn canvas. -/
theorem Canvas.diagnose_redraw (hr : r.KeepsApart) (c : Canvas) :
    (c.redraw r).diagnose = c.diagnose.map (Finding.relabel r.id) := by
  have hfound : Diagnosis.cteNames [] (c.redraw r).ctes ++
        (c.redraw r).blocks.flatMap (Diagnosis.block (c.redraw r)) =
      (Diagnosis.cteNames [] c.ctes ++ c.blocks.flatMap (Diagnosis.block c)).map
        (Finding.relabel r.id) := by
    simp only [redraw_ctes, Diagnosis.cteNames_redraw, blocks_redraw, List.flatMap_map,
      Diagnosis.block_redraw c _ hr, List.map_append, List.map_flatMap]
  rw [diagnose, hfound, List.filter_map, List.filter_map, ← List.map_append]
  rfl

/-! ## Everything that is given out -/

/-- **What a canvas gives out depends neither on identifiers nor on places.**  Let a canvas hold
what another one holds under other identifiers, its boxes and frames wherever they are.  Then both
have the same query text in every layout and the same shape, they meet the same criteria, and their
findings are the same in the same order, on the entities that correspond to each other. -/
theorem Canvas.given_out_same {c c' : Canvas} {f : EntityId → EntityId}
    (hf : Function.Injective f) (hsame : c'.unplaced = (c.relabel f).unplaced) :
    (∀ l, Sql.render l c' = Sql.render l c) ∧
      c'.shape = c.shape ∧
      (∀ (k : Criterion) (sql : String), k.holds c' sql = k.holds c sql) ∧
      c'.diagnose = c.diagnose.map (Finding.relabel f) := by
  have hmoved := Redrawing.keepsApart_unplace
  have hnamed := Redrawing.keepsApart_relabel hf
  rw [← redraw_relabel] at hsame
  refine ⟨fun l => ?_, ?_, fun k sql => ?_, ?_⟩
  · rw [← Sql.render_redraw hmoved l c', ← Sql.render_redraw hnamed l c,
      ← Sql.render_redraw hmoved l (c.redraw (.relabel f))]
    exact congrArg (Sql.render l) hsame
  · rw [← shape_redraw hmoved c', ← shape_redraw hnamed c,
      ← shape_redraw hmoved (c.redraw (.relabel f))]
    exact congrArg shape hsame
  · rw [← Criterion.holds_redraw hmoved c', ← Criterion.holds_redraw hnamed c,
      ← Criterion.holds_redraw hmoved (c.redraw (.relabel f))]
    exact congrArg (Criterion.holds · sql k) hsame
  · have hstay : Finding.relabel Redrawing.unplace.id = fun x => x :=
      funext fun x => by cases x with | mk s m e => cases e <;> rfl
    have hunplaced (d : Canvas) : d.unplaced.diagnose = d.diagnose := by
      rw [unplaced, diagnose_redraw hmoved, hstay, List.map_id']
    rw [← hunplaced c', hsame, hunplaced, diagnose_redraw hnamed]
    rfl

/-! ## Boxes of one identifier -/

/-- Each identifier with a letter before it. -/
def EntityId.lettered (id : EntityId) : EntityId := ⟨"x" ++ id.text⟩

/-- A canvas out of order: two boxes share an identifier, and a join, a filter and a box lead to
what is not there. -/
def Canvas.untidy (name : EntityId → EntityId) (place : Position) (frame : Frame) : Canvas :=
  let id n := name (EntityId.minted n)
  { ctes := []
    root := { Block.empty with
      tables := [.create (id 0) "a" ["n"] place, .create (id 0) "b" [] default,
        { Table.create (id 1) "c" [] place with cte := some (id 7) }]
      joins := [{
        id := id 2, sourceTable := id 0, sourceColumn := "n"
        targetTable := id 8, targetColumn := "n", kind := .left }]
      filters := [{
        id := id 3, column := "d.n", operator := .isIn, operand := .subquery (id 9)
        connector := .and }]
      subqueries := [{
        id := id 4, role := .fromClause, aliasName := some "e", linkedFilter := none
        frame := frame
        block := { Block.empty with tables := [.create (id 0) "b" [] place] } }] } }

/-- Another drawing of the canvas has the same four findings. -/
theorem Canvas.given_out_same_untidy :
    let away : Position := { x := { negative := true, rank := 5 }, y := .zero }
    let wide : Frame := { (default : Frame) with width := { negative := false, rank := 9 } }
    let drawn := untidy (fun id => id) default default
    let redrawn := untidy EntityId.lettered away wide
    Function.Injective EntityId.lettered ∧
      redrawn.unplaced = (drawn.relabel EntityId.lettered).unplaced ∧
      drawn.diagnose.length = 4 ∧ redrawn ≠ drawn ∧
      Sql.render default redrawn = Sql.render default drawn ∧
      redrawn.diagnose = drawn.diagnose.map (Finding.relabel EntityId.lettered) := by
  intro away wide drawn redrawn
  have hapart : Function.Injective EntityId.lettered := fun a b h => by
    have htext : "x" ++ a.text = "x" ++ b.text := congrArg EntityId.text h
    exact congrArg EntityId.mk (by simpa using htext)
  have hsame : redrawn.unplaced = (drawn.relabel EntityId.lettered).unplaced := by decide +kernel
  obtain ⟨htext, -, -, hfindings⟩ := given_out_same hapart hsame
  exact ⟨hapart, hsame, by decide +kernel, by decide +kernel, htext _, hfindings⟩

end QueryCanvas
