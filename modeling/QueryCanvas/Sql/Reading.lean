import QueryCanvas.Catalog
import QueryCanvas.Canvas.Tree
import QueryCanvas.Sql.Reference

/-!
# From a query to a canvas

A canvas is read off a parsed query.  Only what a canvas can draw is accepted; the first thing in
the query that it cannot draw is the fault.  Reading follows the query: sources and joins, results,
conditions, grouping, conditions on groups, sorting, limit.
-/

set_option autoImplicit false

namespace QueryCanvas.Sql

/-- What names in a query can refer to, besides its own sources. -/
structure Scope where
  catalog : Catalog
  /-- The named queries that the query can read from. -/
  ctes : List Cte

/-- Reading may use new identifiers, and fails at what a canvas cannot draw. -/
abbrev Reading := ExceptT ReadFault Fresh

/-- Reading a part of a block goes on with the draft of the block. -/
abbrev Drafting := StateT Draft Reading

/-- Fails at something that a canvas cannot draw. -/
def refuse {m : Type → Type} {α : Type} [MonadExceptOf ReadFault m] (construct : String) : m α :=
  throw (.unsupported construct)

namespace Drafting

/-- A new identifier. -/
def mint : Drafting EntityId := fun d => do return (← (Fresh.mint : Fresh EntityId), d)

/-- What follows from the draft as it stands. -/
def ask {α : Type} (f : Draft → Except ReadFault α) : Drafting α := do
  match f (← get) with
  | .ok a => return a
  | .error e => throw e

/-- Changes the block of the draft. -/
def edit (f : Block → Block) : Drafting Unit := modify fun d => { d with block := f d.block }

end Drafting

open Drafting

/-! ## Sources and joins -/

/-- Takes a table as a source.  It is known by its alias first, then by its name. -/
def readTable (s : Scope) (name : List Name) (named : Option Alias) : Drafting EntityId := do
  let written := plainPath name
  if ((← get).block.tableNamed? written).isSome then
    refuse ("table " ++ written ++ " referenced more than once")
  let cte := if name.length = 1 then s.ctes.find? (Text.sameName ·.name written) else none
  let id ← mint
  let table := match cte with
    | some q => { Table.create id q.name q.block.outputColumns default with cte := some q.id }
    | none => Table.create id written (s.catalog.columns written) default
  if named.any (!·.columns.isEmpty) then refuse "table alias column list"
  let known (key : String) : SourceName := ⟨key, some (id, table.name)⟩
  modify fun d =>
    { d with
      sources := d.sources ++ (named.map (known ·.name.value)).toList ++ [known table.name]
      block := d.block.addTable table }
  return id

/-- One side of an equality that joins two tables. -/
def joinSide (e : Expr) (d : Draft) : Except ReadFault (EntityId × String) :=
  match e.columnName? with
  | some ⟨some qualifier, column⟩ =>
    match (d.source? qualifier).bind (·.table) with
    | some (id, _) => .ok (id, d.declared id column)
    | none => .error (.unsupported ("join condition on unknown table " ++ qualifier))
  | _ => .error (.unsupported "join condition on unqualified columns")

/-- An equality that joins a table to the tables before it. -/
def readEquality (joined : EntityId) (kind : JoinKind) : Expr → Drafting Unit
  | .binary left (.compare .eq) right => do
    let (sourceTable, sourceColumn) ← ask (joinSide left)
    let (targetTable, targetColumn) ← ask (joinSide right)
    if sourceTable = targetTable then refuse "join condition within one table"
    if sourceTable ≠ joined && targetTable ≠ joined then
      refuse "join condition not referencing the joined table"
    if !(← get).block.canJoin sourceTable targetTable then refuse "join condition"
    let id ← mint
    edit (·.addJoin { id, sourceTable, sourceColumn, targetTable, targetColumn, kind })
  | _ => refuse "non-equality join condition"

/-- A condition of a join: equalities tied by `AND`, each of which is drawn as a join. -/
def readJoinCondition (joined : EntityId) (kind : JoinKind) (condition : Expr) : Drafting Unit := do
  let conditions := condition.conditions .and
  if conditions.any (·.2 = .or) then refuse "OR in join condition"
  conditions.forM fun c => readEquality joined kind c.1

/-- What ties a joined table to the tables before it. -/
def readConstraint (joined : EntityId) (kind : JoinKind) : Constraint → Drafting Unit
  | .on condition => readJoinCondition joined kind condition
  | .none => return ()
  | _ => refuse "join without an ON condition"

/-! ## Results -/

/-- The table whose column is chosen. -/
def selectionOwner (c : ColumnName) (d : Draft) : Except ReadFault EntityId :=
  match c.qualifier with
  | some qualifier =>
    match d.source? qualifier with
    | some ⟨_, some (id, _)⟩ => .ok id
    | some _ => .error (.unsupported "column of a derived table")
    | none => .error (.unsupported ("unknown table " ++ qualifier))
  | none =>
    match d.owner? c.column with
    | some t => .ok t.id
    | none => .error (.unsupported ("ambiguous column " ++ c.column))

/-- Chooses a column. -/
def readColumn (e : Expr) (named : Option Name) : Drafting Unit := do
  if named.isSome then refuse "aliased column"
  match e.columnName? with
  | none => refuse "column reference"
  | some c =>
    let table ← ask (selectionOwner c)
    let column := (← get).declared table c.column
    edit (·.updateTable table (·.select column))

/-- Chooses all declared columns of a table. -/
def readAllColumns (table : List Name) : Drafting Unit := do
  let qualifier := plainPath table
  match (← get).source? qualifier with
  | some ⟨_, some (id, _)⟩ =>
    let columns := (((← get).block.table? id).map (·.columns)).getD []
    if columns.isEmpty then refuse (qualifier ++ ".* without known columns")
    edit (·.updateTable id fun t => columns.foldl Table.select t)
  | some _ => refuse "* of a derived table"
  | none => refuse ("unknown table " ++ qualifier)

/-- Remembers an alias of a result. -/
def noteAlias (named : Option Name) : Drafting Unit :=
  modify fun d => { d with aliases := d.aliases ++ (named.map (·.value)).toList }

/-- Adds an aggregate to the results. -/
def readAggregate (function : List Name) (arguments : Arguments) (tail : CallTail)
    (named : Option Name) : Drafting Unit := do
  match ← ask (·.aggregate? function arguments tail) with
  | none => refuse ("function " ++ Name.path function)
  | some (kind, expression) =>
    noteAlias named
    let id ← mint
    edit (·.addAggregate { id, function := kind, expression, aliasName := named.map (·.value) })

/-! ## Conditions, grouping and sorting -/

/-- The filter operator of an operator between two expressions. -/
def filterOperator? : Operator → Option FilterOperator
  | .compare c => some c.toFilterOperator
  | _ => none

/-- The column that a condition is on. -/
def readSubject (e : Expr) : Drafting String := do
  match e.columnName? with
  | some c => return (← get).columnText c
  | none => refuse "condition on an expression"

/-- Adds a filter on a column with a written value. -/
def addFilter (subject : Expr) (operator : FilterOperator) (value : String)
    (connector : Connector) : Drafting Unit := do
  let column ← readSubject subject
  let id ← mint
  edit (·.addFilter { id, column, operator, operand := .value value, connector })

/-- Adds a filter on a column with a nested query. -/
def addLinkedFilter (column : String) (operator : FilterOperator) (block : Block)
    (connector : Connector) : Drafting Unit := do
  let filterId ← mint
  let id ← mint
  edit fun b =>
    let b := b.addFilter { id := filterId, column, operator, operand := .subquery id, connector }
    let linked : Subquery :=
      { id, role := .whereClause, aliasName := none, linkedFilter := some filterId, frame := default
        block }
    { b with subqueries := b.subqueries ++ [linked] }

/-- The grouping. -/
def readGrouping (all : Bool) (terms : List Expr) (modifiers : List String) : Drafting Unit := do
  if all then refuse "GROUP BY ALL"
  if !modifiers.isEmpty then refuse "GROUP BY modifiers"
  terms.forM fun e => do
    match e.columnName? with
    | none => refuse "GROUP BY expression"
    | some c =>
      let column := (← get).columnText c
      let id ← mint
      edit (·.addGrouping { id, column })

/-- A condition on the groups: an aggregate that is compared with a value. -/
def readHaving (connector : Connector) : Expr → Drafting Unit
  | .binary left op right => do
    match op with
    | .compare operator =>
      match left with
      | .call function _ arguments tail =>
        match ← ask (·.aggregate? function arguments tail) with
        | none => refuse ("function " ++ Name.path function)
        | some (kind, column) =>
          let id ← mint
          edit (·.addHaving
            { id, function := kind, column, operator, value := right.printed, connector })
      | _ => refuse "HAVING condition without aggregate"
    | op => refuse ("HAVING operator " ++ op.text)
  | _ => refuse "HAVING condition"

/-- The column or the aggregate that rows are sorted by. -/
def sortColumn (e : Expr) (d : Draft) : Except ReadFault String :=
  let other : Except ReadFault String :=
    match e.columnName? with
    | some c => .ok (d.columnText c)
    | none => .error (.unsupported "ORDER BY expression")
  match e with
  | .column [n] =>
    if d.aliases.any (Text.sameName · n.value) then .ok (quoteName n.value) else other
  | .call function _ arguments tail => do
    match ← d.aggregate? function arguments tail with
    | some (kind, expression) => return kind.sql ++ "(" ++ expression ++ ")"
    | none => throw (.unsupported "ORDER BY expression")
  | _ => other

/-- A term that rows are sorted by. -/
def readSortTerm : OrderTerm → Drafting Unit
  | .mk e descending nullsFirst _ => do
    if nullsFirst.isSome then refuse "NULLS FIRST / NULLS LAST"
    let column ← ask (sortColumn e)
    let id ← mint
    let direction := if descending = some true then SortDirection.desc else .asc
    edit (·.addSortTerm { id, column, direction })

/-- The clauses of a select that a canvas has no place for. -/
def refuseExtras (x : SelectExtras) : Drafting Unit := do
  if x.distinct.isSome then refuse "DISTINCT"
  if x.top.isSome then refuse "TOP"
  if x.into.isSome then refuse "SELECT INTO"
  if !x.lateralViews.isEmpty then refuse "LATERAL VIEW"
  if x.windows.isSome then refuse "WINDOW"
  if x.qualify.isSome then refuse "QUALIFY"

/-- Whether a select is `SELECT NULL` with nothing else, which stands for an empty block. -/
def isEmptySelect : List SelectItem → List FromPart → Option Expr → List Expr → Option Expr →
    SelectExtras → Option (List OrderTerm) → Option Expr → Bool
  | [.expr .null none], [], none, [], none, x, none, none => !x.groupAll
  | _, _, _, _, _, _, _, _ => false

/-! ## Blocks -/

mutual

/-- The block of a query.  A nested query has no named queries of its own. -/
def readBlock (s : Scope) (nested : Bool) : Query → Reading Block
  | .mk _ ctes body orderBy limit x => do
    if nested && !ctes.isEmpty then refuse "WITH inside a nested query"
    if x.offset.isSome then refuse "OFFSET"
    if x.fetch.isSome then refuse "FETCH"
    match body with
    | .other form _ => refuse form.construct
    | .select items sources condition groupBy having sx =>
      if isEmptySelect items sources condition groupBy having sx orderBy limit then
        return Block.empty
      else
        let all : Drafting Unit := do
          refuseExtras sx
          readSources s sources
          match items with
          | [.wildcard _] => pure ()
          | items => readItems s items
          match condition with
          | some e => readFilters s .and e
          | none => pure ()
          readGrouping sx.groupAll groupBy sx.groupModifiers
          ((having.map (·.conditions .and)).getD []).forM fun c => readHaving c.2 c.1
          (orderBy.getD []).forM readSortTerm
          match limit with
          | some e =>
            let value ← ask fun _ => e.limit
            edit ({ · with limit := some value })
          | none => pure ()
        let (_, draft) ← all.run Draft.empty
        return draft.block

/-- The items of a `FROM` clause. -/
def readSources (s : Scope) : List FromPart → Drafting Unit
  | [] => return ()
  | .mk source joins :: rest => do
    let _ ← readSource s source
    readJoins s joins
    readSources s rest

/-- Joins with further sources. -/
def readJoins (s : Scope) : List JoinClause → Drafting Unit
  | [] => return ()
  | .mk _ op source constraint :: rest => do
    match op with
    | .cross =>
      let _ ← readSource s source
      pure ()
    | .kind kind =>
      match ← readSource s source with
      | none => refuse "join on a derived table"
      | some joined => readConstraint joined kind constraint
    | .other _ => refuse "join type"
    readJoins s rest

/-- A source of rows.  For a table its identifier is given. -/
def readSource (s : Scope) : Source → Drafting (Option EntityId)
  | .table name arguments named _ => do
    if arguments.isSome then refuse "table function"
    some <$> readTable s name named
  | .derived lateral q named => do
    if lateral then refuse "LATERAL"
    let block ← readBlock s true q
    let id ← mint
    if named.any (!·.columns.isEmpty) then refuse "derived table column list"
    let aliasName := named.map (·.name.value)
    let derived : Subquery :=
      { id, role := .fromClause, aliasName, linkedFilter := none, frame := default, block }
    modify fun d =>
      { d with
        sources := d.sources ++ (aliasName.map fun key => ⟨key, none⟩).toList
        block := { d.block with subqueries := d.block.subqueries ++ [derived] } }
    return none
  | .joined _ => refuse "parenthesized join"
  | .other _ => refuse "table source"

/-- The list of results. -/
def readItems (s : Scope) : List SelectItem → Drafting Unit
  | [] => return ()
  | .wildcard _ :: _ => refuse "* alongside other select items"
  | .tableWildcard table _ :: rest => do
    readAllColumns table
    readItems s rest
  | .expr e named :: rest => do
    match e with
    | .column parts => readColumn (.column parts) named
    | .call function _ arguments tail => readAggregate function arguments tail named
    | .subquery q =>
      let block ← readBlock s true q
      let id ← mint
      noteAlias named
      let scalar : Subquery :=
        { id, role := .selectList, aliasName := named.map (·.value), linkedFilter := none
          frame := default, block }
      edit fun b => { b with subqueries := b.subqueries ++ [scalar] }
    | _ => refuse "expression in select list"
    readItems s rest

/-- The conditions of the `WHERE` clause, the last of which gets the given connector. -/
def readFilters (s : Scope) (last : Connector) : Expr → Drafting Unit
  | .binary left .and right => do
    readFilters s .and left
    readFilters s last right
  | .binary left .or right => do
    readFilters s .or left
    readFilters s last right
  | .binary left op (.subquery q) => do
    match filterOperator? op with
    | none => refuse ("operator " ++ op.text)
    | some operator =>
      let column ← readSubject left
      let block ← readBlock s true q
      addLinkedFilter column operator block last
  | .binary left op right => do
    match filterOperator? op with
    | none => refuse ("operator " ++ op.text)
    | some operator =>
      let value ← ask fun _ => right.literal
      addFilter left operator value last
  | .like anyCase negated _ subject pattern escape => do
    if escape.isSome then refuse (if anyCase then "ILIKE ... ESCAPE" else "LIKE ... ESCAPE")
    let value ← ask fun _ => pattern.literal
    let operator : FilterOperator := match anyCase, negated with
      | false, false => .like
      | false, true => .notLike
      | true, false => .ilike
      | true, true => .notIlike
    addFilter subject operator value last
  | .test subject operator => addFilter subject operator "" last
  | .inList subject negated items =>
    addFilter subject (if negated then .notIn else .isIn)
      (joined ", " (items.map Expr.printed)) last
  | .inQuery subject negated q => do
    let column ← readSubject subject
    let block ← readBlock s true q
    addLinkedFilter column (if negated then .notIn else .isIn) block last
  | .between subject negated low high =>
    addFilter subject (if negated then .notBetween else .between)
      (low.printed ++ " AND " ++ high.printed) last
  | .nested _ => refuse "parenthesized condition group"
  | _ => refuse "WHERE condition"

end

/-- Reads the named queries of a query, each of which can read from those before it. -/
def readCtes (catalog : Catalog) : List Cte → List CtePart → Reading (List Cte)
  | known, [] => return known
  | known, .mk named _ q _ :: rest => do
    if !named.columns.isEmpty then refuse "CTE column list"
    let name := named.name.value
    if known.any (Text.sameName ·.name name) then refuse ("CTE " ++ name ++ " defined twice")
    let block ← readBlock { catalog, ctes := known } true q
    let id ← (Fresh.mint : Fresh EntityId)
    readCtes catalog (known ++ [{ id, name, frame := default, block }]) rest

/-- The canvas of a query. -/
def readCanvas (catalog : Catalog) : Query → Reading Canvas
  | .mk recursive ctes body orderBy limit x => do
    if recursive then refuse "WITH RECURSIVE"
    let known ← readCtes catalog [] ctes
    let root ← readBlock { catalog, ctes := known } false (.mk recursive ctes body orderBy limit x)
    return { ctes := known, root }

/-- The query that a text consists of, in the course of reading. -/
def readQuery (d : Dialect) (text : String) : Reading Query :=
  match Query.parse d text with
  | .ok q => return q
  | .error e => throw e

/-- The canvas of a text. -/
def readText (d : Dialect) (catalog : Catalog) (text : String) : Reading Canvas := do
  readCanvas catalog (← readQuery d text)

/-- The block of the text of a nested query, which can read from the given named queries. -/
def readNestedText (d : Dialect) (s : Scope) (text : String) : Reading Block := do
  readBlock s true (← readQuery d text)

end QueryCanvas.Sql
