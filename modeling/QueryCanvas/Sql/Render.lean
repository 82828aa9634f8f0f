import QueryCanvas.Canvas.Tree
import QueryCanvas.Sql.Arrangement
import QueryCanvas.Sql.Quote

/-!
# The query of a canvas

Every canvas has a query text.  What leads to nothing is written as empty text, and a block with
nothing to read from as a fixed comment, so writing never fails.  A layout decides only about line
ends and indentation: one line for all, or one line for each clause, with the nested queries
indented.
-/

set_option autoImplicit false

namespace QueryCanvas.Sql

/-- How a query text is laid out. -/
structure Layout where
  /-- One clause a line, with indented nested queries. -/
  pretty : Bool
  /-- Blanks for each level of nesting. -/
  indent : Nat
deriving DecidableEq, Repr

namespace Layout

instance : Inhabited Layout := ⟨{ pretty := true, indent := 2 }⟩

/-- The layout on a single line. -/
def compact : Layout := { pretty := false, indent := 2 }

/-- The widest indentation in use. -/
def maxIndent : Nat := 16

/-- The layout with its indentation limited to the widest one. -/
def clamped (l : Layout) : Layout := { l with indent := min l.indent maxIndent }

/-- The blanks of one level. -/
def pad (l : Layout) : String := String.ofList (List.replicate l.indent ' ')

/-- What stands between two clauses. -/
def clauseBreak (l : Layout) : String := if l.pretty then "\n" else " "

/-- What stands before a join or a further condition. -/
def innerBreak (l : Layout) : String := if l.pretty then "\n" ++ l.pad else " "

/-- What stands between two named queries. -/
def cteBreak (l : Layout) : String := if l.pretty then ",\n" else ", "

/-- The text with its lines moved one level in; empty lines stay empty. -/
def indentLines (l : Layout) (text : String) : String :=
  "\n".intercalate ((Text.lines text).map fun line => if line.isEmpty then "" else l.pad ++ line)

/-- A nested query in its parentheses. -/
def nest (l : Layout) (body : String) : String :=
  if l.pretty then "(\n" ++ l.indentLines body ++ "\n)" else "(" ++ body ++ ")"

end Layout

/-- The text of a root block that reads from nothing. -/
def noTables : String := "/* no tables selected */"

/-- The list of results of a block in which nothing is chosen. -/
def noColumns : String := "/* no columns selected */ *"

/-- The text of a nested block that reads from nothing. -/
def emptyNested : String := "SELECT NULL"

def commaList (items : List String) : String := ", ".intercalate items

/-- An expression with its alias, if it has one. -/
def aliased (expression : String) (aliasName : Option String) : String :=
  match aliasName with
  | some name => expression ++ " AS " ++ quoteName name
  | none => expression

/-- An aggregate function applied to an expression. -/
def call (function : AggregateFunction) (argument : String) : String :=
  function.sql ++ "(" ++ argument ++ ")"

/-- The name of a table in a join, empty if the join leads to no table. -/
def tableText (name : String) : String := if name.isEmpty then "" else quotePath name

/-- One side of a join condition. -/
def endpoint (table column : String) : String := tableText table ++ "." ++ quoteName column

/-- The condition of a join. -/
def joinCondition (b : Block) (j : Join) : String :=
  endpoint (b.tableName j.sourceTable) j.sourceColumn ++ " = "
    ++ endpoint (b.tableName j.targetTable) j.targetColumn

/-- A join step. -/
def joinStep (b : Block) (s : JoinStep) : String :=
  s.kind.keyword ++ " " ++ tableText ((s.joined.map (·.name)).getD "") ++ " ON "
    ++ " AND ".intercalate (s.conditions.map (joinCondition b))

/-- An item of the `FROM` clause. -/
def fromItem (l : Layout) (b : Block) (item : FromItem) : String :=
  quotePath item.base.name
    ++ String.join (item.steps.map fun s => l.innerBreak ++ joinStep b s)

/-- The chosen columns of a table in the list of results. -/
def chosenColumns (t : Table) : List String :=
  t.orderedSelection.map fun column =>
    let reference := columnRef t.name column
    match t.aggregates.find? column with
    | some a => aliased (call a.function reference) a.aliasName
    | none => reference

/-- The written nested queries of one role, with their aliases. -/
def nestedItems (nested : List (SubqueryOf String)) (role : SubqueryRole) : List String :=
  (nested.filter (·.role = role)).map fun s => aliased s.block s.aliasName

/-- The list of results. -/
def selectList (b : Block) (nested : List (SubqueryOf String)) : String :=
  let items := b.tables.flatMap chosenColumns
    ++ b.aggregates.map (fun a => aliased (call a.function a.expression) a.aliasName)
    ++ nestedItems nested .selectList
  if items.isEmpty then noColumns else commaList items

/-- What follows `FROM`. -/
def fromClause (l : Layout) (b : Block) (nested : List (SubqueryOf String)) : String :=
  commaList ((fromItems b).map (fromItem l b) ++ nestedItems nested .fromClause)

/-- A filter.  The text of a linked nested query comes from the list of written ones. -/
def filterText (nested : List (SubqueryOf String)) (f : Filter) : String :=
  let subject := f.column ++ " " ++ f.operator.sql
  if f.operator.isUnary then subject
  else
    let linked := f.operand.subquery?.bind fun id => nested.find? (·.id = id)
    match linked with
    | some s => subject ++ " " ++ s.block
    | none =>
      let value := f.operand.value?.getD ""
      if f.operator.isList then subject ++ " (" ++ value ++ ")"
      else if f.operator.isRange then subject ++ " " ++ value
      else subject ++ " " ++ formatValue value

/-- A condition on the groups. -/
def havingText (h : Having) : String :=
  call h.function h.column ++ " " ++ h.operator.sql ++ " " ++ h.value

/-- Conditions in a chain, each tied to the next by its connector.  The connector of the last one
ties nothing. -/
def chain (l : Layout) : List (String × Connector) → String
  | [] => ""
  | [(text, _)] => text
  | (text, connector) :: rest =>
    text ++ l.innerBreak ++ connector.sql ++ " " ++ chain l rest

/-- A clause, left out if it has no content. -/
def clause (keyword : String) {α : Type} (items : List α) (text : List α → String) :
    List String :=
  if items.isEmpty then [] else [keyword ++ " " ++ text items]

/-- The query of a block, given the texts of its nested queries. -/
def blockText (l : Layout) (b : Block) (nested : List (SubqueryOf String)) : String :=
  if b.hasNoSource then noTables
  else
    l.clauseBreak.intercalate <|
      ["SELECT " ++ selectList b nested, "FROM " ++ fromClause l b nested]
        ++ clause "WHERE" b.filters
            (fun fs => chain l (fs.map fun f => (filterText nested f, f.connector)))
        ++ clause "GROUP BY" b.groupBy (fun gs => commaList (gs.map (·.column)))
        ++ clause "HAVING" b.having
            (fun hs => chain l (hs.map fun h => (havingText h, h.connector)))
        ++ clause "ORDER BY" b.orderBy
            (fun os => commaList (os.map fun o => o.column ++ " " ++ o.direction.sql))
        ++ clause "LIMIT" b.limit.toList (fun ls => String.join (ls.map (·.sql)))

mutual

/-- The query of a block. -/
def renderBlock (l : Layout) : Block → String
  | ⟨t, j, f, g, h, o, n, a, subs⟩ =>
    blockText l ⟨t, j, f, g, h, o, n, a, subs⟩ (renderNested l subs)

/-- Nested queries with their texts, in parentheses, in place of their blocks. -/
def renderNested (l : Layout) : List (SubqueryOf Block) → List (SubqueryOf String)
  | [] => []
  | ⟨i, r, a, k, f, b⟩ :: rest =>
    ⟨i, r, a, k, f, l.nest (if b.hasNoSource then emptyNested else renderBlock l b)⟩
      :: renderNested l rest

end

/-- The query of a canvas: the named queries that read from something, then the root. -/
def render (l : Layout) (c : Canvas) : String :=
  if c.root.hasNoSource then noTables
  else
    let ctes := (c.ctes.filter (!·.block.hasNoSource)).map fun q =>
      quoteName q.name ++ " AS " ++ l.nest (renderBlock l q.block)
    let body := renderBlock l c.root
    if ctes.isEmpty then body
    else "WITH " ++ l.cteBreak.intercalate ctes ++ l.clauseBreak ++ body

end QueryCanvas.Sql
