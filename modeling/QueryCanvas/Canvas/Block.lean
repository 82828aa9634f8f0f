import QueryCanvas.Canvas.Table

/-!
# Looking up and changing the content of one block

Every change is total: an identifier that names nothing leaves the block as it is.  Removals take
along what refers to the removed thing: joins of a removed table, the conditions and terms on its
columns, the nested query of a removed filter.
-/

set_option autoImplicit false

namespace QueryCanvas

universe u

/-- Changes the first member of a list that satisfies a test. -/
def updateFirst {α : Type u} (p : α → Bool) (f : α → α) : List α → List α
  | [] => []
  | a :: rest => if p a then f a :: rest else a :: updateFirst p f rest

/-- The table part of a written `table.column`: what stands before the last point, without blanks
and quotes around it. -/
def columnQualifier? (column : String) : Option String :=
  let cs := column.toList.reverse
  match cs.dropWhile (· ≠ '.') with
  | [] => none
  | _ :: before =>
    some (String.ofList
      (Text.stripWhere (· == '"') (Text.stripWhere Text.isBlank before.reverse)))

/-- Whether a written column is one of the table of that name. -/
def refersTo (column table : String) : Bool :=
  (columnQualifier? column).any fun q => Text.sameName q table

/-- The fields of a filter that an update changes. -/
structure FilterUpdate where
  column : Option String
  operator : Option FilterOperator
  value : Option String
  connector : Option Connector
deriving DecidableEq, Repr

/-- The fields of a group condition that an update changes. -/
structure HavingUpdate where
  function : Option AggregateFunction
  column : Option String
  operator : Option Comparison
  value : Option String
  connector : Option Connector
deriving DecidableEq, Repr

/-- The fields of a result aggregate that an update changes; the inner option of `aliasName` takes
the alias away. -/
structure SelectAggregateUpdate where
  function : Option AggregateFunction
  expression : Option String
  aliasName : Option (Option String)
deriving DecidableEq, Repr

namespace Block

/-! ## Looking up -/

def table? (b : Block) (id : EntityId) : Option Table := b.tables.find? (·.id = id)

/-- The first table of a name, in any case. -/
def tableNamed? (b : Block) (name : String) : Option Table :=
  b.tables.find? (Text.sameName ·.name name)

/-- The name of a table, or the empty text for an identifier that names none. -/
def tableName (b : Block) (id : EntityId) : String := ((b.table? id).map (·.name)).getD ""

def filter? (b : Block) (id : EntityId) : Option Filter := b.filters.find? (·.id = id)

def subquery? (b : Block) (id : EntityId) : Option Subquery := b.subqueries.find? (·.id = id)

/-- The nested queries of one role, in order. -/
def subqueriesIn (b : Block) (role : SubqueryRole) : List Subquery :=
  b.subqueries.filter (·.role = role)

/-- True if there is nothing to write after `FROM`. -/
def hasNoSource (b : Block) : Bool :=
  b.tables.isEmpty && (b.subqueriesIn .fromClause).isEmpty

/-- Adds to a list the texts that it does not hold yet. -/
def addNew (known : List String) (names : List String) : List String :=
  names.foldl (fun known name => if known.contains name then known else known ++ [name]) known

/-- The names under which a query around this block can use its results. -/
def outputColumns (b : Block) : List String :=
  let chosen := b.tables.flatMap fun t =>
    t.orderedSelection.map fun column =>
      ((t.aggregates.find? column).bind (·.aliasName)).getD column
  let aliases := b.aggregates.filterMap (·.aliasName)
    ++ (b.subqueriesIn .selectList).filterMap (·.aliasName)
  addNew [] (chosen ++ aliases)

/-! ## Tables and their columns -/

def addTable (b : Block) (t : Table) : Block := { b with tables := b.tables ++ [t] }

def updateTable (b : Block) (id : EntityId) (f : Table → Table) : Block :=
  { b with tables := updateFirst (·.id = id) f b.tables }

/-- Drops the nested queries of an identifier. -/
def dropSubquery (b : Block) (id : EntityId) : Block :=
  { b with subqueries := b.subqueries.filter (·.id ≠ id) }

/-- Drops the nested query that an operand links. -/
def dropLinked (b : Block) (operand : Operand) : Block :=
  match operand.subquery? with
  | some id => b.dropSubquery id
  | none => b

/-- Removes a filter together with the nested query that it links. -/
def removeFilter (b : Block) (id : EntityId) : Block :=
  match b.filter? id with
  | none => b
  | some f => { b with filters := b.filters.eraseP (·.id = id) }.dropLinked f.operand

/-- Removes everything that names a column of the table of that name. -/
def removeReferences (b : Block) (name : String) : Block :=
  let dropped := (b.filters.filter (refersTo ·.column name)).map (·.id)
  let b := dropped.foldl removeFilter b
  { b with
    groupBy := b.groupBy.filter (!refersTo ·.column name)
    having := b.having.filter (!refersTo ·.column name)
    orderBy := b.orderBy.filter (!refersTo ·.column name) }

/-- Removes a table and its joins.  Columns are written by table name, so what names them stays as
long as another table of that name is left. -/
def removeTable (b : Block) (id : EntityId) : Block :=
  match b.table? id with
  | none => b
  | some t =>
    let b := { b with
      tables := b.tables.eraseP (·.id = id)
      joins := b.joins.filter fun j => j.sourceTable ≠ id && j.targetTable ≠ id }
    if (b.tableNamed? t.name).isNone then b.removeReferences t.name else b

/-! ## Joins -/

/-- A join can be drawn between two different tables of the block. -/
def canJoin (b : Block) (source target : EntityId) : Bool :=
  (b.table? source).isSome && (b.table? target).isSome && source ≠ target

def addJoin (b : Block) (j : Join) : Block :=
  if b.canJoin j.sourceTable j.targetTable then { b with joins := b.joins ++ [j] } else b

def updateJoin (b : Block) (id : EntityId) (f : Join → Join) : Block :=
  { b with joins := updateFirst (·.id = id) f b.joins }

def removeJoin (b : Block) (id : EntityId) : Block :=
  { b with joins := b.joins.filter (·.id ≠ id) }

/-! ## Filters -/

def addFilter (b : Block) (f : Filter) : Block := { b with filters := b.filters ++ [f] }

/-- Changes the given fields of a filter.  A written value in place of a linked nested query drops
that nested query. -/
def updateFilter (b : Block) (id : EntityId) (u : FilterUpdate) : Block :=
  match b.filter? id with
  | none => b
  | some old =>
    let change (f : Filter) : Filter :=
      { f with
        column := u.column.getD f.column
        operator := u.operator.getD f.operator
        connector := u.connector.getD f.connector
        operand := (u.value.map Operand.value).getD f.operand }
    let b := { b with filters := updateFirst (·.id = id) change b.filters }
    if u.value.isSome then b.dropLinked old.operand else b

/-! ## Grouping, sorting, limit and result aggregates -/

def addGrouping (b : Block) (g : Grouping) : Block := { b with groupBy := b.groupBy ++ [g] }

def removeGrouping (b : Block) (id : EntityId) : Block :=
  { b with groupBy := b.groupBy.filter (·.id ≠ id) }

def addHaving (b : Block) (h : Having) : Block := { b with having := b.having ++ [h] }

def updateHaving (b : Block) (id : EntityId) (u : HavingUpdate) : Block :=
  let change (h : Having) : Having :=
    { h with
      function := u.function.getD h.function
      column := u.column.getD h.column
      operator := u.operator.getD h.operator
      value := u.value.getD h.value
      connector := u.connector.getD h.connector }
  { b with having := updateFirst (·.id = id) change b.having }

def removeHaving (b : Block) (id : EntityId) : Block :=
  { b with having := b.having.filter (·.id ≠ id) }

def addSortTerm (b : Block) (o : SortTerm) : Block := { b with orderBy := b.orderBy ++ [o] }

def setDirection (b : Block) (id : EntityId) (direction : SortDirection) : Block :=
  let change (o : SortTerm) : SortTerm := { o with direction := direction }
  { b with orderBy := updateFirst (·.id = id) change b.orderBy }

def removeSortTerm (b : Block) (id : EntityId) : Block :=
  { b with orderBy := b.orderBy.filter (·.id ≠ id) }

def addAggregate (b : Block) (a : SelectAggregate) : Block :=
  { b with aggregates := b.aggregates ++ [a] }

def updateAggregate (b : Block) (id : EntityId) (u : SelectAggregateUpdate) : Block :=
  let change (a : SelectAggregate) : SelectAggregate :=
    { a with
      function := u.function.getD a.function
      expression := u.expression.getD a.expression
      aliasName := u.aliasName.getD a.aliasName }
  { b with aggregates := updateFirst (·.id = id) change b.aggregates }

def removeAggregate (b : Block) (id : EntityId) : Block :=
  { b with aggregates := b.aggregates.filter (·.id ≠ id) }

/-! ## Nested queries of this block -/

/-- Makes a filter compare with a nested query of the block that stands in the `WHERE` clause.
The nested query that the filter compared with before loses its link. -/
def linkFilter (b : Block) (filterId subqueryId : EntityId) : Block :=
  if !(b.subquery? subqueryId).any (·.role = .whereClause) then b
  else match b.filter? filterId with
    | none => b
    | some old =>
      let relink (s : Subquery) : Subquery :=
        if s.id = subqueryId then { s with linkedFilter := some filterId }
        else if old.operand.subquery? = some s.id then { s with linkedFilter := none }
        else s
      let change (f : Filter) : Filter := { f with operand := .subquery subqueryId }
      { b with
        filters := updateFirst (·.id = filterId) change b.filters
        subqueries := b.subqueries.map relink }

/-- Whether a nested query of a role can be added with a link to a filter. -/
def canNest (b : Block) (role : SubqueryRole) (filterId : Option EntityId) : Bool :=
  filterId.all fun f => role = .whereClause && (b.filter? f).isSome

/-- Adds an empty nested query, linked to a filter of the block if one is given. -/
def addSubquery (b : Block) (id : EntityId) (role : SubqueryRole) (filterId : Option EntityId)
    (frame : Frame) : Block :=
  if !b.canNest role filterId then b
  else
    let nested : Subquery :=
      { id := id, role := role, aliasName := none, linkedFilter := filterId, frame := frame
        block := Block.empty }
    let b := { b with subqueries := b.subqueries ++ [nested] }
    match filterId with
    | some f => b.linkFilter f id
    | none => b

/-- Removes a nested query of this block.  The filters that compared with it hold the empty value
from then on. -/
def removeSubquery (b : Block) (id : EntityId) : Block :=
  if (b.subquery? id).isNone then b
  else
    let release (f : Filter) : Filter :=
      if f.operand.subquery? = some id then { f with operand := .value "" } else f
    { b with
      subqueries := b.subqueries.eraseP (·.id = id)
      filters := b.filters.map release }

def setSubqueryAlias (b : Block) (id : EntityId) (aliasName : Option String) : Block :=
  let change (s : Subquery) : Subquery := { s with aliasName := aliasName }
  { b with subqueries := updateFirst (·.id = id) change b.subqueries }

end Block

end QueryCanvas
