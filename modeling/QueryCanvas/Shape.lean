import QueryCanvas.Sql.Quote
import QueryCanvas.Canvas.Block

/-!
# The shape of a query

Two queries mean the same if they have the same shape.  Identifiers, places and frames are no part
of a shape, and neither is the order of tables, chosen columns and joins, nor what is never written:
named queries that read from nothing, nested queries that no filter compares with, and the
connector of a last condition.
-/

set_option autoImplicit false

namespace QueryCanvas

/-! ## Sets in a fixed order -/

/-- Puts a member at its place in a list that is sorted by the keys, unless the key is there. -/
def insertByKey {α : Type} (key : α → List String) (a : α) : List α → List α
  | [] => [a]
  | b :: rest =>
    if key a < key b then a :: b :: rest
    else if key a = key b then b :: rest
    else b :: insertByKey key a rest

/-- The members of a list without repetitions, sorted by the keys. -/
def setByKey {α : Type} (key : α → List String) (l : List α) : List α :=
  l.foldr (insertByKey key) []

/-- Texts as a set. -/
def textSet (l : List String) : List String := setByKey (fun s => [s]) l

/-! ## Shapes -/

/-- A join by the names of what it connects. -/
structure JoinShape where
  source : String
  sourceColumn : String
  target : String
  targetColumn : String
  kind : JoinKind
deriving DecidableEq, Repr

/-- The texts by which joins are sorted. -/
def JoinShape.texts (j : JoinShape) : List String :=
  [j.source, j.sourceColumn, j.target, j.targetColumn, j.kind.keyword]

/-- A filter over nested queries of the shape `β`. -/
structure FilterShapeOf (β : Type) where
  column : String
  operator : FilterOperator
  value : String
  subquery : Option β
  connector : Connector
deriving DecidableEq, Repr

/-- A condition on the groups. -/
structure HavingShape where
  function : AggregateFunction
  column : String
  operator : Comparison
  value : String
  connector : Connector
deriving DecidableEq, Repr

/-- An aggregate among the results. -/
structure AggregateShape where
  function : AggregateFunction
  expression : String
  aliasName : Option String
deriving DecidableEq, Repr

/-- A nested query of the shape `β` that is no operand of a filter. -/
structure SubqueryShapeOf (β : Type) where
  role : SubqueryRole
  aliasName : Option String
  block : β
deriving DecidableEq, Repr

/-- The shape of a block. -/
structure BlockShape where
  /-- The names of the tables, as a set. -/
  tables : List String
  /-- The chosen columns without an aggregate around them, as a set. -/
  columns : List String
  /-- The joins, as a set. -/
  joins : List JoinShape
  filters : List (FilterShapeOf BlockShape)
  groupBy : List String
  having : List HavingShape
  orderBy : List (String × SortDirection)
  limit : Option String
  /-- The aggregates around chosen columns, then the others. -/
  aggregates : List AggregateShape
  /-- The derived tables, then the nested queries among the results. -/
  subqueries : List (SubqueryShapeOf BlockShape)

/-- The shape of a canvas: the named queries with their names, and the root. -/
structure CanvasShape where
  ctes : List (String × BlockShape)
  root : BlockShape

mutual

/-- Equality of shapes can be decided. -/
def BlockShape.decEq : (a b : BlockShape) → Decidable (a = b)
  | ⟨t, c, j, f, g, h, o, l, a, s⟩, ⟨t', c', j', f', g', h', o', l', a', s'⟩ =>
    have := BlockShape.decEqFilters f f'
    have := BlockShape.decEqNested s s'
    decidable_of_iff
      (t = t' ∧ c = c' ∧ j = j' ∧ f = f' ∧ g = g' ∧ h = h' ∧ o = o' ∧ l = l' ∧ a = a' ∧ s = s')
      (by simp)

/-- Equality of lists of filters can be decided. -/
def BlockShape.decEqFilters :
    (a b : List (FilterShapeOf BlockShape)) → Decidable (a = b)
  | [], [] => isTrue rfl
  | [], _ :: _ => isFalse (by simp)
  | _ :: _, [] => isFalse (by simp)
  | ⟨c, o, v, s, k⟩ :: rest, ⟨c', o', v', s', k'⟩ :: rest' =>
    have := BlockShape.decEqOperand s s'
    have := BlockShape.decEqFilters rest rest'
    decidable_of_iff ((c = c' ∧ o = o' ∧ v = v' ∧ s = s' ∧ k = k') ∧ rest = rest') (by simp)

/-- Equality of operands can be decided. -/
def BlockShape.decEqOperand : (a b : Option BlockShape) → Decidable (a = b)
  | none, none => isTrue rfl
  | none, some _ => isFalse (by simp)
  | some _, none => isFalse (by simp)
  | some a, some b =>
    have := BlockShape.decEq a b
    decidable_of_iff (a = b) (by simp)

/-- Equality of lists of nested queries can be decided. -/
def BlockShape.decEqNested :
    (a b : List (SubqueryShapeOf BlockShape)) → Decidable (a = b)
  | [], [] => isTrue rfl
  | [], _ :: _ => isFalse (by simp)
  | _ :: _, [] => isFalse (by simp)
  | ⟨r, a, s⟩ :: rest, ⟨r', a', s'⟩ :: rest' =>
    have := BlockShape.decEq s s'
    have := BlockShape.decEqNested rest rest'
    decidable_of_iff ((r = r' ∧ a = a' ∧ s = s') ∧ rest = rest') (by simp)

end

instance : DecidableEq BlockShape := BlockShape.decEq

deriving instance DecidableEq for CanvasShape

/-! ## The shape of what is drawn -/

namespace Table

/-- The chosen columns without an aggregate around them. -/
def plainColumns (t : Table) : List String :=
  (t.orderedSelection.filter fun column => (t.aggregates.find? column).isNone).map
    (Sql.columnRef t.name ·)

/-- The aggregates around chosen columns. -/
def columnAggregates (t : Table) : List AggregateShape :=
  t.orderedSelection.filterMap fun column =>
    (t.aggregates.find? column).map fun a => ⟨a.function, Sql.columnRef t.name column, a.aliasName⟩

end Table

/-- The shape of a join; none if a table of it is not there. -/
def Join.shape? (b : Block) (j : Join) : Option JoinShape :=
  match b.table? j.sourceTable, b.table? j.targetTable with
  | some source, some target =>
    some ⟨source.name, j.sourceColumn, target.name, j.targetColumn, j.kind⟩
  | _, _ => none

/-- The shape of a filter, given the shapes of the nested queries. -/
def Filter.shape (nested : List (SubqueryOf BlockShape)) (f : Filter) :
    FilterShapeOf BlockShape :=
  let linked := f.operand.subquery?.bind fun id => nested.find? (·.id = id)
  let value := if f.operator.isUnary || linked.isSome then "" else f.operand.value?.getD ""
  ⟨f.column, f.operator, value, linked.map (·.block), f.connector⟩

/-- The list with its last member changed. -/
def updateLast {α : Type} (f : α → α) : List α → List α
  | [] => []
  | [a] => [f a]
  | a :: b :: rest => a :: updateLast f (b :: rest)

/-- The nested queries of a role, by their shapes. -/
def subqueryShapes (nested : List (SubqueryOf BlockShape)) (role : SubqueryRole) :
    List (SubqueryShapeOf BlockShape) :=
  (nested.filter (·.role = role)).map fun s => ⟨s.role, s.aliasName, s.block⟩

/-- The shape of a block, given the shapes of its nested queries. -/
def Block.shapeWith (b : Block) (nested : List (SubqueryOf BlockShape)) : BlockShape :=
  { tables := textSet (b.tables.map (·.name))
    columns := textSet (b.tables.flatMap Table.plainColumns)
    joins := setByKey JoinShape.texts (b.joins.filterMap (Join.shape? b))
    filters := updateLast ({ · with connector := .and }) (b.filters.map (Filter.shape nested))
    groupBy := b.groupBy.map (·.column)
    having := updateLast ({ · with connector := .and })
      (b.having.map fun h => ⟨h.function, h.column, h.operator, h.value, h.connector⟩)
    orderBy := b.orderBy.map fun o => (o.column, o.direction)
    limit := b.limit.map Limit.sql
    aggregates := b.tables.flatMap Table.columnAggregates
      ++ b.aggregates.map fun a => ⟨a.function, a.expression, a.aliasName⟩
    subqueries := subqueryShapes nested .fromClause ++ subqueryShapes nested .selectList }

mutual

/-- The shape of a block. -/
def Block.shape : Block → BlockShape
  | ⟨t, j, f, g, h, o, l, a, subs⟩ =>
    Block.shapeWith ⟨t, j, f, g, h, o, l, a, subs⟩ (Block.nestedShapes subs)

/-- Nested queries with shapes in place of their blocks. -/
def Block.nestedShapes : List (SubqueryOf Block) → List (SubqueryOf BlockShape)
  | [] => []
  | ⟨i, r, a, k, f, b⟩ :: rest => ⟨i, r, a, k, f, Block.shape b⟩ :: Block.nestedShapes rest

end

/-- The shape of a canvas. -/
def Canvas.shape (c : Canvas) : CanvasShape :=
  { ctes := (c.ctes.filter (!·.block.hasNoSource)).map fun q => (q.name, q.block.shape)
    root := c.root.shape }

end QueryCanvas
