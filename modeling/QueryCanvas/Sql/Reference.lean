import QueryCanvas.Canvas.Block
import QueryCanvas.Sql.Query
import QueryCanvas.Sql.Quote

/-!
# What the names in a query refer to

While a block is read off a query, its sources are known by the names that the query gives to them.
A canvas has no aliases of tables: a column is written with the name of its table, in the spelling
in which the table declares it.
-/

set_option autoImplicit false

namespace QueryCanvas.Sql

/-! ## Columns -/

/-- A column as it is written in a query: perhaps with the name of a source before it. -/
structure ColumnName where
  qualifier : Option String
  column : String
deriving DecidableEq, Repr

/-- The column that an expression is. -/
def Expr.columnName? : Expr → Option ColumnName
  | .column parts =>
    match parts.reverse with
    | [] => none
    | [last] => some ⟨none, last.value⟩
    | last :: before => some ⟨some (joined "." (before.reverse.map (·.value))), last.value⟩
  | _ => none

/-- A name with points in it, without quotes. -/
def plainPath (parts : List Name) : String := joined "." (parts.map (·.value))

/-- The text of an expression, in which parameters stand as such again. -/
def Expr.printed (e : Expr) : String := Parameter.unmask e.print

/-! ## Sources -/

/-- A name under which a source is known.  A source that is no table is a nested query. -/
structure SourceName where
  key : String
  table : Option (EntityId × String)
deriving DecidableEq, Repr

/-- A block that is being read. -/
structure Draft where
  block : Block
  sources : List SourceName
  /-- The aliases of results, by which the rows can be sorted. -/
  aliases : List String

namespace Draft

/-- The draft of which nothing is read yet. -/
def empty : Draft := { block := Block.empty, sources := [], aliases := [] }

/-- The first source of a name, in any case. -/
def source? (d : Draft) (name : String) : Option SourceName :=
  d.sources.find? (Text.sameName ·.key name)

/-- The tables that declare a column, in any case. -/
def owners (d : Draft) (column : String) : List Table :=
  d.block.tables.filter fun t => t.columns.any (Text.sameName · column)

/-- The table of a column that is written without one: the only table if nothing else is read from,
else the only table that declares the column. -/
def owner? (d : Draft) (column : String) : Option Table :=
  match d.block.tables, d.block.subqueriesIn .fromClause with
  | [t], [] => some t
  | _, _ =>
    match d.owners column with
    | [t] => some t
    | _ => none

/-- The spelling in which a table declares a column; a column that it does not declare stays as it
is. -/
def declared (d : Draft) (table : EntityId) (column : String) : String :=
  ((d.block.table? table).bind fun t => t.columns.find? (Text.sameName · column)).getD column

/-- A column as it is written on a canvas.  An unknown source stays as it is, and a column of no
known table stands alone. -/
def columnText (d : Draft) (c : ColumnName) : String :=
  match c.qualifier with
  | some qualifier =>
    match (d.source? qualifier).bind (·.table) with
    | some (id, name) => columnRef name (d.declared id c.column)
    | none => columnRef qualifier c.column
  | none =>
    match d.owner? c.column with
    | some t => columnRef t.name (d.declared t.id c.column)
    | none => quoteName c.column

/-- The text of an expression, with the columns in it as they are written on a canvas.  Columns
inside calls and other forms stay as they are. -/
def expressionText (d : Draft) : Expr → String
  | .binary left op right =>
    d.expressionText left ++ " " ++ op.text ++ " " ++ d.expressionText right
  | .nested e => "(" ++ d.expressionText e ++ ")"
  | e =>
    match e.columnName? with
    | some c => d.columnText c
    | none => e.printed

/-! ## Aggregates -/

/-- The text of an argument of an aggregate. -/
def argumentText (d : Draft) : Argument → Except ReadFault String
  | .wildcard => .ok "*"
  | .expr e => .ok (d.expressionText e)
  | .other _ => .error (.unsupported "aggregate argument")

/-- The function and the argument of an aggregate; none if the called function is no aggregate. -/
def aggregate? (d : Draft) (function : List Name) (arguments : Arguments) (tail : CallTail) :
    Except ReadFault (Option (AggregateFunction × String)) :=
  let name := ((function.getLast?).map (·.value)).getD ""
  match AggregateFunction.ofName? name with
  | none => .ok none
  | some kind =>
    if tail.window.isSome then .error (.unsupported "window function")
    else if tail.filter.isSome then .error (.unsupported "aggregate FILTER")
    else if tail.withinGroup.isSome then .error (.unsupported "WITHIN GROUP")
    else match arguments with
      | .list distinct items clauses =>
        if !clauses.isEmpty then .error (.unsupported "aggregate argument clause")
        else do
          let texts ← items.mapM d.argumentText
          let text := joined ", " texts
          return some (kind, if distinct = some true then "DISTINCT " ++ text else text)
      | _ => .error (.unsupported (name ++ " without arguments"))

end Draft

/-! ## Conditions and values -/

/-- The conditions of a tree of `AND` and `OR` from left to right, each with the connector between
it and the next one.  The last one gets the given connector. -/
def Expr.conditions : Expr → Connector → List (Expr × Connector)
  | .binary left .and right, last => left.conditions .and ++ right.conditions last
  | .binary left .or right, last => left.conditions .or ++ right.conditions last
  | e, last => [(e, last)]

/-- The value that a literal stands for. -/
def Expr.literal : Expr → Except ReadFault String
  | .number digits _ => .ok digits
  | .text value => .ok value
  | .signed negative (.number digits _) => .ok ((if negative then "-" else "+") ++ digits)
  | .column _ => .error (.unsupported "column-to-column comparison")
  | _ => .error (.unsupported "comparison value")

/-- The limit that an expression stands for. -/
def Expr.limit : Expr → Except ReadFault Limit
  | .number digits _ =>
    let cs := digits.toList
    if !cs.isEmpty && cs.all Char.isDigit && Decimal.digitsValue cs < UInt64.size then
      .ok (.count (Decimal.digitsValue cs))
    else .error (.unsupported ("LIMIT " ++ digits))
  | .text value =>
    if Parameter.isParameter value then .ok (.parameter value)
    else .error (.unsupported "LIMIT expression")
  | _ => .error (.unsupported "LIMIT expression")

end QueryCanvas.Sql
