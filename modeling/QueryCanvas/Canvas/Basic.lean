import QueryCanvas.NameMap
import QueryCanvas.Number.Double
import QueryCanvas.Canvas.Id
import QueryCanvas.Canvas.Vocabulary

/-!
# What is drawn on the canvas

A *block* is the content of one `SELECT`: table boxes with their chosen columns, connectors
between them, conditions, grouping, sorting, a row limit, and nested queries with blocks of their
own.  A *canvas* is the root block together with the named blocks of its `WITH` clause.
-/

set_option autoImplicit false

namespace QueryCanvas

/-- A place on the canvas. -/
structure Position where
  x : Double
  y : Double
deriving DecidableEq, Repr, Inhabited

/-- The frame of a container on the canvas. -/
structure Frame where
  x : Double
  y : Double
  width : Double
  height : Double
deriving DecidableEq, Repr, Inhabited

/-- The most rows a query gives: a number, or a template parameter that stands for one. -/
inductive Limit where
  | count (n : Nat)
  | parameter (text : String)
deriving DecidableEq, Repr

/-- The limit as it is written in a query. -/
def Limit.sql : Limit → String
  | .count n => toString n
  | .parameter text => text

/-- An aggregate put around one chosen column. -/
structure ColumnAggregate where
  function : AggregateFunction
  aliasName : Option String
deriving DecidableEq, Repr

/-- A table box. -/
structure Table where
  id : EntityId
  name : String
  position : Position
  /-- The declared columns in their declared order; none where they are not known. -/
  columns : List String
  /-- The chosen columns in the order in which they were chosen. -/
  selected : List String
  aggregates : NameMap ColumnAggregate
  /-- The named query that this box reads from. -/
  cte : Option EntityId
deriving DecidableEq, Inhabited

/-- A connector between a column of one table and a column of another. -/
structure Join where
  id : EntityId
  sourceTable : EntityId
  sourceColumn : String
  targetTable : EntityId
  targetColumn : String
  kind : JoinKind
deriving DecidableEq, Repr, Inhabited

/-- What a filter compares its column with. -/
inductive Operand where
  | value (text : String)
  | subquery (id : EntityId)
deriving DecidableEq, Repr

namespace Operand

instance : Inhabited Operand := ⟨value ""⟩

/-- The written value, if the operand is one. -/
def value? : Operand → Option String
  | value text => some text
  | subquery _ => none

/-- The linked nested query, if the operand is one. -/
def subquery? : Operand → Option EntityId
  | value _ => none
  | subquery id => some id

end Operand

/-- A condition on the rows. -/
structure Filter where
  id : EntityId
  column : String
  operator : FilterOperator
  operand : Operand
  connector : Connector
deriving DecidableEq, Repr, Inhabited

/-- A column that rows are grouped by. -/
structure Grouping where
  id : EntityId
  column : String
deriving DecidableEq, Repr, Inhabited

/-- A condition on the groups. -/
structure Having where
  id : EntityId
  function : AggregateFunction
  column : String
  operator : Comparison
  value : String
  connector : Connector
deriving DecidableEq, Repr, Inhabited

/-- A column that the result is sorted by. -/
structure SortTerm where
  id : EntityId
  column : String
  direction : SortDirection
deriving DecidableEq, Repr, Inhabited

/-- An aggregate in the list of results that belongs to no single column. -/
structure SelectAggregate where
  id : EntityId
  function : AggregateFunction
  expression : String
  aliasName : Option String
deriving DecidableEq, Repr, Inhabited

/-- A nested query over blocks of the type `β`. -/
structure SubqueryOf (β : Type) where
  id : EntityId
  role : SubqueryRole
  aliasName : Option String
  /-- The filter that compares with this nested query. -/
  linkedFilter : Option EntityId
  frame : Frame
  block : β
deriving DecidableEq

/-- The content of one `SELECT`. -/
structure Block where
  tables : List Table
  joins : List Join
  filters : List Filter
  groupBy : List Grouping
  having : List Having
  orderBy : List SortTerm
  limit : Option Limit
  aggregates : List SelectAggregate
  subqueries : List (SubqueryOf Block)

/-- A nested query. -/
abbrev Subquery := SubqueryOf Block

/-- The block in which nothing is drawn. -/
def Block.empty : Block :=
  { tables := [], joins := [], filters := [], groupBy := [], having := [], orderBy := []
    limit := none, aggregates := [], subqueries := [] }

instance : Inhabited Block := ⟨Block.empty⟩

mutual

/-- Equality of blocks can be decided, nested queries included. -/
def Block.decEq : (a b : Block) → Decidable (a = b)
  | ⟨t, j, f, g, h, o, l, s, q⟩, ⟨t', j', f', g', h', o', l', s', q'⟩ =>
    have := Block.decEqList q q'
    decidable_of_iff
      (t = t' ∧ j = j' ∧ f = f' ∧ g = g' ∧ h = h' ∧ o = o' ∧ l = l' ∧ s = s' ∧ q = q')
      (by simp)

/-- Equality of lists of nested queries can be decided. -/
def Block.decEqList : (a b : List (SubqueryOf Block)) → Decidable (a = b)
  | [], [] => isTrue rfl
  | [], _ :: _ => isFalse (by simp)
  | _ :: _, [] => isFalse (by simp)
  | ⟨i, r, a, k, f, b⟩ :: rest, ⟨i', r', a', k', f', b'⟩ :: rest' =>
    have := Block.decEq b b'
    have := Block.decEqList rest rest'
    decidable_of_iff ((i = i' ∧ r = r' ∧ a = a' ∧ k = k' ∧ f = f' ∧ b = b') ∧ rest = rest')
      (by simp)

end

instance : DecidableEq Block := Block.decEq

/-- A named query of the `WITH` clause. -/
structure Cte where
  id : EntityId
  name : String
  frame : Frame
  block : Block
deriving DecidableEq, Inhabited

/-- The whole drawing: the named queries and the root block. -/
structure Canvas where
  ctes : List Cte
  root : Block
deriving DecidableEq

/-- The drawing without content. -/
def Canvas.empty : Canvas := { ctes := [], root := Block.empty }

instance : Inhabited Canvas := ⟨Canvas.empty⟩

/-- A pointer to one block of a canvas. -/
inductive Focus where
  | root
  | subquery (id : EntityId)
  | cte (id : EntityId)
deriving DecidableEq, Repr, Inhabited

end QueryCanvas
