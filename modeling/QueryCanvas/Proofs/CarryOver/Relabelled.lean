import QueryCanvas.Proofs.Canvas.Relabelled
import QueryCanvas.Proofs.CarryOver.Anchored
import QueryCanvas.Reconcile

/-!
# Taking over identities under other identifiers

A relabelled block takes over from a relabelled one what the block takes over from the other, under
the new identifiers.  Tables, filters, nested queries and named queries find their counterparts by
name, column, role and position, and joins by the tables they connect.
-/

set_option autoImplicit false

namespace QueryCanvas

variable {f : EntityId → EntityId}

/-! ## Renamings -/

/-- A renaming whose identifiers are relabelled. -/
def Renaming.relabel (f : EntityId → EntityId) (r : Renaming) : Renaming := r.map (Prod.map f f)

theorem Renaming.apply_relabel (hf : Function.Injective f) (r : Renaming) (id : EntityId) :
    (r.relabel f).apply (f id) = f (r.apply id) := by
  have hlookup : (r.relabel f).lookup (f id) = (r.lookup id).map f := by
    unfold relabel
    induction r with
    | nil => rfl
    | cons p rest ih =>
      have hkey : (f id == f p.1) = (id == p.1) := by
        rw [Bool.eq_iff_iff, beq_iff_eq, beq_iff_eq, hf.eq_iff]
      rw [List.map_cons, Prod.map, List.lookup_cons, List.lookup_cons, hkey, ih]
      split <;> rfl
  rw [apply, apply, hlookup, Option.getD_map]

namespace Block

/-! ## Tables and joins -/

theorem carryTable_relabel (old : Block) (t : Table) :
    carryTable (old.relabel f) (t.relabel f) = (carryTable old t).relabel f := by
  simp only [carryTable, Table.relabel_name, tableNamed?_relabel]
  cases old.tableNamed? t.name <;> rfl

theorem tableRenaming_relabel (old : Block) (tables : List Table) :
    tableRenaming (old.relabel f) (tables.map (Table.relabel f)) =
      (tableRenaming old tables).relabel f := by
  simp only [tableRenaming, Renaming.relabel, List.filterMap_map, List.map_filterMap]
  refine List.filterMap_congr fun t _ => ?_
  simp only [Function.comp_apply, Table.relabel_name, tableNamed?_relabel, Option.map_map]
  rfl

theorem carryJoin_relabel (hf : Function.Injective f) (old : Block) (r : Renaming) (j : Join) :
    carryJoin (old.relabel f) (r.relabel f) (j.relabel f) = (carryJoin old r j).relabel f := by
  have hsame : ((old.relabel f).joins.find? fun before =>
      decide (before.sourceTable = f (r.apply j.sourceTable))
        && decide (before.targetTable = f (r.apply j.targetTable))
        && decide (before.sourceColumn = j.sourceColumn)
        && decide (before.targetColumn = j.targetColumn)) =
      (old.joins.find? fun before =>
        decide (before.sourceTable = r.apply j.sourceTable)
          && decide (before.targetTable = r.apply j.targetTable)
          && decide (before.sourceColumn = j.sourceColumn)
          && decide (before.targetColumn = j.targetColumn)).map (Join.relabel f) := by
    rw [relabel_joins, List.find?_map]
    simp only [Function.comp_def, Join.relabel_sourceTable, Join.relabel_targetTable, hf.eq_iff]
    rfl
  simp only [carryJoin, Join.relabel_sourceTable, Join.relabel_targetTable,
    Renaming.apply_relabel hf]
  rw [show (j.relabel f).sourceColumn = j.sourceColumn from rfl,
    show (j.relabel f).targetColumn = j.targetColumn from rfl, hsame, Option.map_map]
  generalize old.joins.find? _ = found
  cases found <;> rfl

/-! ## Aggregates around columns -/

theorem restoreAggregate_relabel (table column : String) (b : Block) (a : ColumnAggregate) :
    restoreAggregate table column (b.relabel f) a =
      (restoreAggregate table column b a).relabel f := by
  have htables : updateFirst (fun t : Table => decide (t.name = table))
      (·.setAggregate column (some a)) (b.tables.map (Table.relabel f)) =
        (updateFirst (fun t : Table => decide (t.name = table)) (·.setAggregate column (some a))
          b.tables).map (Table.relabel f) :=
    updateFirst_map (fun _ => rfl) (fun t => t.setAggregate_relabel column (some a)) b.tables
  let isSame (s : SelectAggregate) : Bool :=
    s.function = a.function && s.expression = Sql.columnRef table column
      && s.aliasName = a.aliasName
  have hsame : isSame ∘ SelectAggregate.relabel f = isSame := rfl
  have hname : (fun t : Table => decide (t.name = table)) ∘ Table.relabel f =
      fun t => decide (t.name = table) := rfl
  unfold restoreAggregate
  simp only [relabel_aggregates, relabel_tables, List.any_map, List.eraseP_map, htables, hname]
  change (if (b.aggregates.any (isSame ∘ SelectAggregate.relabel f) && _) = true then _ else _) = _
  rw [hsame]
  change _ = (if (b.aggregates.any isSame && _) = true then _ else _ : Block).relabel f
  split
  · rw [relabel_eq f b, relabel_eq]
  · rfl

theorem restoreAggregates_relabel (old b : Block) :
    restoreAggregates (old.relabel f) (b.relabel f) = (restoreAggregates old b).relabel f := by
  simp only [restoreAggregates, relabel_tables, List.foldl_map]
  refine List.foldl_hom (Block.relabel f) fun b t => ?_
  exact List.foldl_hom (Block.relabel f) fun b e => restoreAggregate_relabel t.name e.1 b e.2

/-! ## Filters and nested queries -/

theorem carryFilters_relabel (olds filters : List Filter) :
    carryFilters (olds.map (Filter.relabel f)) (filters.map (Filter.relabel f)) =
      (carryFilters olds filters).map (Filter.relabel f) := by
  induction filters generalizing olds with
  | nil => cases olds <;> rfl
  | cons x rest ih =>
    cases olds with
    | nil => rfl
    | cons old olds =>
      simp only [List.map_cons, carryFilters, ih]
      by_cases h : x.column = old.column
      · rw [if_pos h, if_pos (show (x.relabel f).column = (old.relabel f).column from h)]
        rfl
      · rw [if_neg h, if_neg (show ¬(x.relabel f).column = (old.relabel f).column from h)]

theorem filterRenaming_relabel (olds filters : List Filter) :
    filterRenaming (olds.map (Filter.relabel f)) (filters.map (Filter.relabel f)) =
      (filterRenaming olds filters).relabel f := by
  simp only [filterRenaming, Renaming.relabel, List.zip_map, List.filter_map, List.map_map]
  rfl

theorem find?_role_relabel (olds : List Subquery) (role : SubqueryRole) :
    ((olds.map (Subquery.relabel f)).find? fun s => s.role = role) =
      (olds.find? fun s => s.role = role).map (Subquery.relabel f) := by
  rw [List.find?_map]
  rfl

theorem eraseP_role_relabel (olds : List Subquery) (role : SubqueryRole) :
    ((olds.map (Subquery.relabel f)).eraseP fun s => s.role = role) =
      (olds.eraseP fun s => s.role = role).map (Subquery.relabel f) := by
  rw [List.eraseP_map]
  rfl

theorem subqueryRenaming_relabel (olds subs : List Subquery) :
    subqueryRenaming (olds.map (Subquery.relabel f)) (subs.map (Subquery.relabel f)) =
      (subqueryRenaming olds subs).relabel f := by
  induction subs generalizing olds with
  | nil => rfl
  | cons s rest ih =>
    rw [List.map_cons, subqueryRenaming, subqueryRenaming, Subquery.relabel_role,
      find?_role_relabel, eraseP_role_relabel, ih, ih]
    cases olds.find? fun old => decide (old.role = s.role) <;> rfl

theorem relinkFilter_relabel (hf : Function.Injective f) (r : Renaming) (x : Filter) :
    relinkFilter (r.relabel f) (x.relabel f) = (relinkFilter r x).relabel f := by
  simp only [relinkFilter, Filter.relabel_operand]
  cases hx : x.operand with
  | value text => rfl
  | subquery id =>
    simp only [Operand.relabel, Renaming.apply_relabel hf]
    rfl

theorem carryWith_relabel (hf : Function.Injective f) (old b : Block) (nested : List Subquery) :
    carryWith (old.relabel f) (b.relabel f) (nested.map (Subquery.relabel f)) =
      (carryWith old b nested).relabel f := by
  have htables : (b.tables.map (Table.relabel f)).map (carryTable (old.relabel f)) =
      (b.tables.map (carryTable old)).map (Table.relabel f) := by
    simp only [List.map_map, Function.comp_def, carryTable_relabel]
  have hjoins : (b.joins.map (Join.relabel f)).map
      (carryJoin (old.relabel f) ((tableRenaming old b.tables).relabel f)) =
        (b.joins.map (carryJoin old (tableRenaming old b.tables))).map (Join.relabel f) := by
    simp only [List.map_map, Function.comp_def, carryJoin_relabel hf]
  have hdrawn : ({ b.relabel f with
      tables := (b.relabel f).tables.map (carryTable (old.relabel f))
      joins := (b.relabel f).joins.map (carryJoin (old.relabel f)
        (tableRenaming (old.relabel f) (b.relabel f).tables)) } : Block) =
      ({ b with
        tables := b.tables.map (carryTable old)
        joins := b.joins.map (carryJoin old (tableRenaming old b.tables)) } : Block).relabel f := by
    rw [relabel_joins, relabel_tables, tableRenaming_relabel, htables, hjoins, relabel_eq f b,
      relabel_eq]
  have hfilters : ∀ (r : Renaming) (xs : List Filter),
      (xs.map (Filter.relabel f)).map (relinkFilter (r.relabel f)) =
        (xs.map (relinkFilter r)).map (Filter.relabel f) := by
    intro r xs
    simp only [List.map_map, Function.comp_def, relinkFilter_relabel hf]
  have hnested : ∀ r : Renaming, (nested.map (Subquery.relabel f)).map (fun s =>
      { s with linkedFilter := s.linkedFilter.map (r.relabel f).apply }) =
        (nested.map fun s => { s with linkedFilter := s.linkedFilter.map r.apply }).map
          (Subquery.relabel f) := by
    intro r
    simp only [List.map_map]
    refine List.map_congr_left fun s _ => ?_
    simp only [Function.comp_apply, Subquery.relabel, SubqueryOf.relabelShell, Option.map_map,
      Function.comp_def, Renaming.apply_relabel hf]
  simp only [carryWith]
  rw [hdrawn, restoreAggregates_relabel, relabel_filters, relabel_filters, relabel_filters,
    relabel_subqueries, relabel_subqueries, carryFilters_relabel, filterRenaming_relabel,
    subqueryRenaming_relabel, hfilters, hnested]
  generalize restoreAggregates old _ = restored
  rw [relabel_eq f restored, relabel_eq]

mutual

/-- A relabelled block takes over from a relabelled one. -/
theorem carryOver_relabel (hf : Function.Injective f) (old : Block) : ∀ b : Block,
    carryOver (old.relabel f) (b.relabel f) = (carryOver old b).relabel f
  | ⟨t, j, x, g, h, o, l, a, subs⟩ => by
    rw [carryOver_eq, carryOver_eq, relabel_subqueries, relabel_subqueries,
      carryNested_relabel hf old.subqueries subs, carryWith_relabel hf]

theorem carryNested_relabel (hf : Function.Injective f) (olds : List Subquery) :
    ∀ subs : List (SubqueryOf Block),
      carryNested (olds.map (Subquery.relabel f)) (subs.map (Subquery.relabel f)) =
        (carryNested olds subs).map (Subquery.relabel f)
  | [] => rfl
  | ⟨i, r, a, k, fr, b⟩ :: rest => by
    have hnext := fun olds => carryNested_relabel hf olds rest
    rw [carryNested, List.map_cons]
    show carryNested _ (⟨f i, r, a, k.map f, fr, b.relabel f⟩ :: _) = _
    rw [carryNested, find?_role_relabel, eraseP_role_relabel, hnext, hnext]
    cases olds.find? fun old => decide (old.role = r) with
    | none => rfl
    | some old =>
      simp only [Option.map_some, Subquery.relabel_block, carryOver_relabel hf old.block b]
      rfl

end

end Block

namespace Canvas

/-- A relabelled canvas takes over from a relabelled one. -/
theorem carryOver_relabel (hf : Function.Injective f) (old c : Canvas) :
    (old.relabel f).carryOver (c.relabel f) = (old.carryOver c).relabel f := by
  have hmoved : cteRenaming (old.relabel f) (c.relabel f).ctes =
      (cteRenaming old c.ctes).relabel f := by
    simp only [cteRenaming, Renaming.relabel, relabel_ctes, List.filterMap_map, List.map_filterMap]
    refine List.filterMap_congr fun q _ => ?_
    simp only [Function.comp_apply, Cte.relabel_name, cteNamed?_relabel, Option.map_map]
    rfl
  have hcte : ∀ q : Cte, carryCte (old.relabel f) (q.relabel f) = (carryCte old q).relabel f := by
    intro q
    simp only [carryCte, Cte.relabel_name, cteNamed?_relabel]
    cases old.cteNamed? q.name with
    | none => rfl
    | some before =>
      simp only [Option.map_some, Cte.relabel_block, Block.carryOver_relabel hf]
      rfl
  have hcarried : ({ ctes := (c.relabel f).ctes.map (carryCte (old.relabel f))
                     root := (old.relabel f).root.carryOver (c.relabel f).root } : Canvas) =
      ({ ctes := c.ctes.map (carryCte old), root := old.root.carryOver c.root } : Canvas).relabel
        f := by
    refine congrArg₂ Canvas.mk ?_ (Block.carryOver_relabel hf _ _)
    simp only [relabel_ctes, List.map_map, Function.comp_def, hcte]
  simp only [carryOver, hmoved]
  rw [hcarried]
  refine mapBlocks_relabel _ _ (fun b => ?_) _
  have hlinks : ∀ t : Table,
      ({ t.relabel f with
        cte := (t.relabel f).cte.map ((cteRenaming old c.ctes).relabel f).apply } : Table) =
      ({ t with cte := t.cte.map (cteRenaming old c.ctes).apply } : Table).relabel f := by
    intro t
    simp only [Table.relabel, Option.map_map, Function.comp_def, Renaming.apply_relabel hf]
  rw [Block.relabel_eq, Block.relabel_eq]
  simp only [List.map_map, Function.comp_def, hlinks]

end Canvas

/-- Putting another block in place on a relabelled canvas. -/
theorem Reader.replaceBlock_relabel (hf : Function.Injective f) (c : Canvas) (focus : Focus)
    (b : Block) :
    replaceBlock (c.relabel f) (focus.relabel f) (b.relabel f) =
      (replaceBlock c focus b).relabel f := by
  have hupdate : (c.relabel f).updateBlock (focus.relabel f) (fun _ => b.relabel f) =
      (c.updateBlock focus fun _ => b).relabel f :=
    Canvas.updateBlock_relabel (fun _ => b) (fun _ => b.relabel f) hf (fun _ => rfl) c focus
  cases focus with
  | cte id =>
    rw [Focus.relabel] at hupdate
    simp only [replaceBlock, hupdate, Focus.relabel]
    exact Canvas.refreshCteColumns_relabel hf _ id
  | root => exact hupdate
  | subquery id => exact hupdate

end QueryCanvas
