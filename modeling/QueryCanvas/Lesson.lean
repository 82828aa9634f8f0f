import QueryCanvas.Canvas.Tree
import QueryCanvas.Data.Toml
import QueryCanvas.Saved

/-!
# Lessons

A challenge of a lesson is a list of criteria on a canvas and on the query text in force.  A
criterion on the canvas holds if any block of it will do, nested ones included.  Challenges are
stored as TOML or JSON documents.
-/

set_option autoImplicit false

namespace QueryCanvas

/-- A criterion on a canvas or on a query text.  What is left open may be anything. -/
inductive Criterion where
  | hasTable (table : String)
  /-- The column is chosen. -/
  | hasColumn (table column : String)
  /-- Two tables are joined, in either direction. -/
  | hasJoin (left right : String)
  | hasJoinKind (kind : JoinKind)
  | hasFilter (column : String) (operator : Option FilterOperator) (value : Option String)
  | hasGrouping (column : String)
  | hasHaving (function : Option AggregateFunction) (column : Option String)
  | hasSortTerm (column : String) (direction : Option SortDirection)
  | hasLimit (value : Option String)
  /-- The query text holds these words, whatever their case and the blanks between them. -/
  | sqlContains (keyword : String)
deriving DecidableEq, Repr

namespace Criterion

/-! ## Comparing names and texts -/

/-- A written column without quotes, without blanks around it and in lower case. -/
def plainColumn (column : String) : String :=
  (Text.trim (String.ofList (column.toList.filter (· ≠ '"')))).toLower

/-- What follows the last point of a written column. -/
def lastPart (column : String) : String :=
  String.ofList (column.toList.reverse.takeWhile (· ≠ '.')).reverse

/-- Whether a written column is the wanted one, which may be given without its table. -/
def columnMatches (column wanted : String) : Bool :=
  plainColumn column = plainColumn wanted
    || (!(plainColumn wanted).toList.contains '.'
      && lastPart (plainColumn column) = plainColumn wanted)

/-- A text in lower case with each run of blanks as one space. -/
def plainText (s : String) : String := (Text.collapse s).toLower

/-! ## Meaning -/

/-- Whether one block meets the criterion by itself. -/
def holdsIn (b : Block) : Criterion → Bool
  | hasTable table => b.tables.any fun t => Text.sameName t.name table
  | hasColumn table column =>
    b.tables.any fun t =>
      Text.sameName t.name table && t.selected.any fun c => Text.sameName c column
  | hasJoin left right =>
    b.joins.any fun j =>
      let source := b.tableName j.sourceTable
      let target := b.tableName j.targetTable
      (Text.sameName source left && Text.sameName target right)
        || (Text.sameName source right && Text.sameName target left)
  | hasJoinKind kind => b.joins.any (·.kind = kind)
  | hasFilter column operator value =>
    b.filters.any fun f =>
      columnMatches f.column column
        && operator.all (f.operator = ·)
        && value.all fun v => f.operand.value? = some (Text.trim v)
  | hasGrouping column => b.groupBy.any fun g => columnMatches g.column column
  | hasHaving function column =>
    b.having.any fun h =>
      function.all (h.function = ·) && column.all (columnMatches h.column)
  | hasSortTerm column direction =>
    b.orderBy.any fun o => columnMatches o.column column && direction.all (o.direction = ·)
  | hasLimit value => b.limit.any fun l => value.all fun v => l.sql = Text.trim v
  | sqlContains _ => false

/-- Whether a canvas with its query text meets the criterion. -/
def holds (c : Canvas) (sql : String) : Criterion → Bool
  | sqlContains keyword => Text.contains (plainText sql) (plainText keyword)
  | criterion => c.blocks.any fun b => criterion.holdsIn b

/-- The criterion in words. -/
def display : Criterion → String
  | hasTable table => "uses table " ++ table
  | hasColumn table column => "selects " ++ table ++ "." ++ column
  | hasJoin left right => "joins " ++ left ++ " and " ++ right
  | hasJoinKind kind => "uses " ++ kind.keyword
  | hasFilter column operator value =>
    "filters on " ++ column ++ (operator.map (" " ++ ·.sql)).getD ""
      ++ (value.map (" " ++ ·)).getD ""
  | hasGrouping column => "groups by " ++ column
  | hasHaving function column =>
    "has a HAVING condition" ++
      match function, column with
      | some function, some column => " on " ++ function.sql ++ "(" ++ column ++ ")"
      | some function, none => " on " ++ function.sql
      | none, some column => " on " ++ column
      | none, none => ""
  | hasSortTerm column direction =>
    "orders by " ++ column ++ (direction.map (" " ++ ·.sql)).getD ""
  | hasLimit (some value) => "limits to " ++ value
  | hasLimit none => "has a LIMIT"
  | sqlContains keyword => "SQL contains " ++ keyword

/-! ## Stored form -/

open Data Saved

/-- The field that names the kind of a criterion. -/
def kindField : String := "kind"

/-- The names of the fields of each kind, and how to read them. -/
def readers : List (String × List String × (Fields → Option Criterion)) :=
  [("has_table", ["table"], fun f => return .hasTable (← f.required "table" toText?)),
   ("has_column", ["table", "column"], fun f =>
      return .hasColumn (← f.required "table" toText?) (← f.required "column" toText?)),
   ("has_join", ["left", "right"], fun f =>
      return .hasJoin (← f.required "left" toText?) (← f.required "right" toText?)),
   ("has_join_type", ["join_type"], fun f =>
      return .hasJoinKind (← f.required "join_type" toJoinKind?)),
   ("has_filter", ["column", "operator", "value"], fun f =>
      return .hasFilter (← f.required "column" toText?) (← f.maybe "operator" toFilterOperator?)
        (← f.maybe "value" toText?)),
   ("has_group_by", ["column"], fun f => return .hasGrouping (← f.required "column" toText?)),
   ("has_having", ["function", "column"], fun f =>
      return .hasHaving (← f.maybe "function" toFunction?) (← f.maybe "column" toText?)),
   ("has_order_by", ["column", "direction"], fun f =>
      return .hasSortTerm (← f.required "column" toText?) (← f.maybe "direction" toDirection?)),
   ("has_limit", ["value"], fun f => return .hasLimit (← f.maybe "value" toText?)),
   ("sql_contains", ["keyword"], fun f => return .sqlContains (← f.required "keyword" toText?))]

/-- Splits a stored criterion into its kind and its fields. -/
def splitKind? : Data → Option (String × Data)
  | .record fields =>
    match fields.filter (·.1 = kindField) with
    | [(_, .text kind)] => some (kind, .record (fields.filter (·.1 ≠ kindField)))
    | _ => none
  | .list (.text kind :: rest) => some (kind, .list rest)
  | _ => none

/-- The criterion of a document.  Its kind and its fields make up a record, or a list in order. -/
def decode? : Decoder Criterion := fun d => do
  let (kind, fields) ← if d.isUsable then splitKind? d else none
  let (_, names, reader) ← readers.find? (·.1 = kind)
  reader (← fields.open? names)

/-- The document of a criterion. -/
def encode : Criterion → Data
  | hasTable table => fieldsOf "has_table" [("table", .text table)]
  | hasColumn table column =>
    fieldsOf "has_column" [("table", .text table), ("column", .text column)]
  | hasJoin left right => fieldsOf "has_join" [("left", .text left), ("right", .text right)]
  | hasJoinKind kind => fieldsOf "has_join_type" [("join_type", .text kind.word)]
  | hasFilter column operator value =>
    fieldsOf "has_filter"
      [("column", .text column), ("operator", ofMaybe (fun op => .text op.sql) operator),
       ("value", ofMaybe .text value)]
  | hasGrouping column => fieldsOf "has_group_by" [("column", .text column)]
  | hasHaving function column =>
    fieldsOf "has_having"
      [("function", ofMaybe (fun f => .text f.sql) function), ("column", ofMaybe .text column)]
  | hasSortTerm column direction =>
    fieldsOf "has_order_by"
      [("column", .text column), ("direction", ofMaybe (fun d => .text d.sql) direction)]
  | hasLimit value => fieldsOf "has_limit" [("value", ofMaybe .text value)]
  | sqlContains keyword => fieldsOf "sql_contains" [("keyword", .text keyword)]
where
  fieldsOf (kind : String) (fields : List (String × Data)) : Data :=
    .record ((kindField, .text kind) :: fields)

end Criterion

/-- A challenge of a lesson. -/
structure Challenge where
  id : String
  title : String
  description : String
  hints : List String
  criteria : List Criterion
deriving DecidableEq, Repr

/-- How far a challenge is met: its criteria in order, each with whether it holds. -/
structure Progress where
  challenge : String
  outcomes : List (Criterion × Bool)
deriving DecidableEq, Repr

namespace Challenge

open Data

/-- The challenge of a document. -/
def decode? : Decoder Challenge := fun d => do
  let f ← d.open? ["id", "title", "description", "hints", "criteria"]
  return {
    id := ← f.required "id" toText?
    title := ← f.required "title" toText?
    description := ← f.withDefault "description" "" toText?
    hints := ← f.withDefault "hints" [] (toList? toText?)
    criteria := ← f.required "criteria" (toList? Criterion.decode?) }

/-- The challenge of a stored JSON text. -/
def readJson? (s : String) : Option Challenge := (Json.read? s).bind decode?

/-- The challenge of a stored TOML text. -/
def readToml? (s : String) : Option Challenge := (Toml.read? s).bind decode?

/-- The document of a challenge. -/
def encode (c : Challenge) : Data :=
  .record
    [("id", .text c.id), ("title", .text c.title), ("description", .text c.description),
     ("hints", .list (c.hints.map .text)), ("criteria", .list (c.criteria.map Criterion.encode))]

/-- How far a canvas with its query text meets the challenge. -/
def progress (c : Challenge) (canvas : Canvas) (sql : String) : Progress :=
  { challenge := c.id, outcomes := c.criteria.map fun k => (k, k.holds canvas sql) }

end Challenge

namespace Progress

/-- The number of criteria that hold. -/
def count (p : Progress) : Nat := (p.outcomes.filter (·.2)).length

/-- The number of criteria. -/
def total (p : Progress) : Nat := p.outcomes.length

/-- Whether every criterion holds. -/
def isComplete (p : Progress) : Bool := p.outcomes.all (·.2)

/-- The first criterion that does not hold. -/
def next? (p : Progress) : Option Criterion := (p.outcomes.find? (!·.2)).map (·.1)

end Progress

end QueryCanvas
