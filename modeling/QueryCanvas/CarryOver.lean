import QueryCanvas.Canvas.Tree
import QueryCanvas.Sql.Quote

/-!
# Keeping identities when a query is read anew

A canvas that was read off an edited text has new identifiers, and everything lies at the origin.
What the text has in common with the canvas before keeps its identifier and its place: tables and
named queries by name, joins by what they connect, filters by their column and position, nested
queries by their position among those of their role.
-/

set_option autoImplicit false

namespace QueryCanvas

/-! ## Renaming identifiers -/

/-- The new identifiers that give way to old ones, each with the old one. -/
abbrev Renaming := List (EntityId × EntityId)

namespace Renaming

/-- The identifier in place of a given one. -/
def apply (r : Renaming) (id : EntityId) : EntityId := (r.lookup id).getD id

end Renaming

namespace Block

/-! ## Tables and joins -/

/-- A table with identifier and place of the table of that name before, and with its columns if the
new one declares none. -/
def carryTable (old : Block) (t : Table) : Table :=
  match old.tableNamed? t.name with
  | none => t
  | some before =>
    { t with
      id := before.id, position := before.position
      columns := if t.columns.isEmpty then before.columns else t.columns }

/-- The tables that get another identifier. -/
def tableRenaming (old : Block) (tables : List Table) : Renaming :=
  tables.filterMap fun t => (old.tableNamed? t.name).map fun before => (t.id, before.id)

/-- A join between renamed tables, with the identifier of the join before that connects the same. -/
def carryJoin (old : Block) (r : Renaming) (j : Join) : Join :=
  let j := { j with sourceTable := r.apply j.sourceTable, targetTable := r.apply j.targetTable }
  let same := old.joins.find? fun before =>
    before.sourceTable = j.sourceTable && before.targetTable = j.targetTable
      && before.sourceColumn = j.sourceColumn && before.targetColumn = j.targetColumn
  { j with id := (same.map (·.id)).getD j.id }

/-! ## Aggregates around columns -/

/-- Puts an aggregate around a column again, if the new block has it among its results. -/
def restoreAggregate (table column : String) (b : Block) (a : ColumnAggregate) : Block :=
  let expression := Sql.columnRef table column
  let isSame (s : SelectAggregate) : Bool :=
    s.function = a.function && s.expression = expression && s.aliasName = a.aliasName
  if b.aggregates.any isSame && b.tables.any (·.name = table) then
    { b with
      aggregates := b.aggregates.eraseP isSame
      tables := updateFirst (·.name = table) (·.setAggregate column (some a)) b.tables }
  else b

/-- Puts the aggregates around columns again that the block before had.  A text does not tell them
from other aggregates. -/
def restoreAggregates (old : Block) (b : Block) : Block :=
  old.tables.foldl
    (fun b t => t.aggregates.entries.foldl (fun b e => b.restoreAggregate t.name e.1 e.2) b) b

/-! ## Filters and nested queries -/

/-- Filters with the identifiers of the filters at the same position before, where the columns are
the same. -/
def carryFilters : List Filter → List Filter → List Filter
  | old :: olds, f :: rest =>
    (if f.column = old.column then { f with id := old.id } else f) :: carryFilters olds rest
  | _, filters => filters

/-- The filters that get another identifier. -/
def filterRenaming (olds filters : List Filter) : Renaming :=
  ((olds.zip filters).filter fun p => p.2.column = p.1.column).map fun p => (p.2.id, p.1.id)

/-- The nested queries that get another identifier: each takes that of the first one of its role
that is left. -/
def subqueryRenaming : List Subquery → List Subquery → Renaming
  | _, [] => []
  | olds, s :: rest =>
    match olds.find? (·.role = s.role) with
    | none => subqueryRenaming olds rest
    | some old => (s.id, old.id) :: subqueryRenaming (olds.eraseP (·.role = s.role)) rest

/-- A filter whose nested query is renamed. -/
def relinkFilter (r : Renaming) (f : Filter) : Filter :=
  match f.operand with
  | .subquery id => { f with operand := .subquery (r.apply id) }
  | .value _ => f

/-- What a block takes over from the block before, apart from its nested queries, which are given
as they are afterwards. -/
def carryWith (old b : Block) (nested : List Subquery) : Block :=
  let tables := tableRenaming old b.tables
  let filters := filterRenaming old.filters b.filters
  let subqueries := subqueryRenaming old.subqueries b.subqueries
  let b := { b with
    tables := b.tables.map (carryTable old)
    joins := b.joins.map (carryJoin old tables) }
  let b := restoreAggregates old b
  { b with
    filters := (carryFilters old.filters b.filters).map (relinkFilter subqueries)
    subqueries := nested.map fun s => { s with linkedFilter := s.linkedFilter.map filters.apply } }

mutual

/-- The block with all that it takes over from the block before. -/
def carryOver (old : Block) : Block → Block
  | ⟨t, j, f, g, h, o, l, a, subs⟩ =>
    carryWith old ⟨t, j, f, g, h, o, l, a, subs⟩ (carryNested old.subqueries subs)

/-- Nested queries, each with what it takes over from the first one of its role that is left. -/
def carryNested (olds : List (SubqueryOf Block)) :
    List (SubqueryOf Block) → List (SubqueryOf Block)
  | [] => []
  | ⟨i, r, a, k, f, b⟩ :: rest =>
    match olds.find? (·.role = r) with
    | none => ⟨i, r, a, k, f, b⟩ :: carryNested olds rest
    | some old =>
      ⟨old.id, r, a, k, old.frame, carryOver old.block b⟩
        :: carryNested (olds.eraseP (·.role = r)) rest

end

end Block

namespace Canvas

/-- A named query with what it takes over from the named query of that name before. -/
def carryCte (old : Canvas) (q : Cte) : Cte :=
  match old.cteNamed? q.name with
  | none => q
  | some before =>
    { q with id := before.id, frame := before.frame, block := before.block.carryOver q.block }

/-- The named queries that get another identifier. -/
def cteRenaming (old : Canvas) (ctes : List Cte) : Renaming :=
  ctes.filterMap fun q => (old.cteNamed? q.name).map fun before => (q.id, before.id)

/-- The canvas with all that it takes over from the canvas before. -/
def carryOver (old c : Canvas) : Canvas :=
  let moved := cteRenaming old c.ctes
  let carried : Canvas :=
    { ctes := c.ctes.map (carryCte old), root := old.root.carryOver c.root }
  carried.mapBlocks fun b =>
    { b with tables := b.tables.map fun t => { t with cte := t.cte.map moved.apply } }

end Canvas

end QueryCanvas
