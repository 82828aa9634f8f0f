import QueryCanvas.Canvas.Basic
import QueryCanvas.Data.JsonText

/-!
# Saved canvases

The form in which a canvas is stored: a record with the number of the format, the named queries and
the root block.  A filter stores its operand in two fields, a written value and the identifier of a
linked nested query.  Almost every field may be left out when it is read.  A canvas of a newer
format is refused as a whole.
-/

set_option autoImplicit false

namespace QueryCanvas

namespace Data

/-- The number of levels of a tree. -/
def height : Data → Nat
  | list items => heightIn items + 1
  | record fields => heightOf fields + 1
  | _ => 1
where
  heightIn : List Data → Nat
    | [] => 0
    | d :: rest => max (height d) (heightIn rest)
  heightOf : List (String × Data) → Nat
    | [] => 0
    | (_, d) :: rest => max (height d) (heightOf rest)

end Data

namespace Saved

open Data

/-- The number of the format that is written, and the newest that is read. -/
def version : Nat := 1

/-- Why a stored canvas could not be read. -/
inductive Fault where
  | malformed
  | newerVersion (found : Nat)
deriving DecidableEq, Repr

/-! ## Reading -/

def toId? : Decoder EntityId := fun d => d.toText?.map (⟨·⟩)

def toPosition? : Decoder Position := fun d => do
  let f ← d.open? ["x", "y"]
  return {
    x := ← f.required "x" toDouble?
    y := ← f.required "y" toDouble? }

def toFrame? : Decoder Frame := fun d => do
  let f ← d.open? ["x", "y", "width", "height"]
  return {
    x := ← f.required "x" toDouble?
    y := ← f.required "y" toDouble?
    width := ← f.required "width" toDouble?
    height := ← f.required "height" toDouble? }

/-- A limit: a number of 64 bits or a text. -/
def toLimit? : Decoder Limit
  | .text s => some (.parameter s)
  | d => (d.toNat? (UInt64.size - 1)).map .count

def toJoinKind? : Decoder JoinKind := toWord? JoinKind.all JoinKind.word

def toFilterOperator? : Decoder FilterOperator := toWord? FilterOperator.all FilterOperator.sql

def toComparison? : Decoder Comparison := toWord? Comparison.all Comparison.sql

def toConnector? : Decoder Connector := toWord? Connector.all Connector.sql

def toFunction? : Decoder AggregateFunction := toWord? AggregateFunction.all AggregateFunction.sql

def toDirection? : Decoder SortDirection := toWord? SortDirection.all SortDirection.sql

def toRole? : Decoder SubqueryRole := toWord? SubqueryRole.all SubqueryRole.word

def toColumnAggregate? : Decoder ColumnAggregate := fun d => do
  let f ← d.open? ["function", "alias"]
  return {
    function := ← f.required "function" toFunction?
    aliasName := ← f.maybe "alias" toText? }

def toTable? : Decoder Table := fun d => do
  let f ← d.open? ["id", "name", "position", "columns", "selected", "aggregates", "cte"]
  return {
    id := ← f.required "id" toId?
    name := ← f.required "name" toText?
    position := ← f.withDefault "position" default toPosition?
    columns := ← f.withDefault "columns" [] (toList? toText?)
    selected := ← f.withDefault "selected" [] (toList? toText?)
    aggregates := NameMap.ofList
      (← f.withDefault "aggregates" [] (toList? (toPair? toText? toColumnAggregate?)))
    cte := ← f.maybe "cte" toId? }

def toJoin? : Decoder Join := fun d => do
  let f ← d.open?
    ["id", "source_table", "source_column", "target_table", "target_column", "kind"]
  return {
    id := ← f.required "id" toId?
    sourceTable := ← f.required "source_table" toId?
    sourceColumn := ← f.required "source_column" toText?
    targetTable := ← f.required "target_table" toId?
    targetColumn := ← f.required "target_column" toText?
    kind := ← f.withDefault "kind" default toJoinKind? }

/-- Reads a filter.  Of the two fields of the operand the link counts, if there is one. -/
def toFilter? : Decoder Filter := fun d => do
  let f ← d.open? ["id", "column", "operator", "value", "subquery_id", "connector"]
  let id ← f.required "id" toId?
  let column ← f.required "column" toText?
  let operator ← f.withDefault "operator" default toFilterOperator?
  let value ← f.withDefault "value" "" toText?
  let subquery ← f.maybe "subquery_id" toId?
  let connector ← f.withDefault "connector" default toConnector?
  let operand := (subquery.map Operand.subquery).getD (.value value)
  return { id, column, operator, operand, connector }

def toGrouping? : Decoder Grouping := fun d => do
  let f ← d.open? ["id", "column"]
  return {
    id := ← f.required "id" toId?
    column := ← f.required "column" toText? }

def toHaving? : Decoder Having := fun d => do
  let f ← d.open? ["id", "function", "column", "operator", "value", "connector"]
  return {
    id := ← f.required "id" toId?
    function := ← f.withDefault "function" default toFunction?
    column := ← f.required "column" toText?
    operator := ← f.withDefault "operator" default toComparison?
    value := ← f.withDefault "value" "" toText?
    connector := ← f.withDefault "connector" default toConnector? }

def toSortTerm? : Decoder SortTerm := fun d => do
  let f ← d.open? ["id", "column", "direction"]
  return {
    id := ← f.required "id" toId?
    column := ← f.required "column" toText?
    direction := ← f.withDefault "direction" default toDirection? }

def toSelectAggregate? : Decoder SelectAggregate := fun d => do
  let f ← d.open? ["id", "function", "expression", "alias"]
  return {
    id := ← f.required "id" toId?
    function := ← f.withDefault "function" default toFunction?
    expression := ← f.required "expression" toText?
    aliasName := ← f.maybe "alias" toText? }

/-- Reads a nested query, given a reader of its block. -/
def toSubquery? (block : Decoder Block) : Decoder Subquery := fun d => do
  let f ← d.open? ["id", "role", "alias", "linked_filter", "geometry", "context"]
  return {
    id := ← f.required "id" toId?
    role := ← f.required "role" toRole?
    aliasName := ← f.maybe "alias" toText?
    linkedFilter := ← f.maybe "linked_filter" toId?
    frame := ← f.withDefault "geometry" default toFrame?
    block := ← f.withDefault "context" Block.empty block }

/-- Reads a block, given a reader of the blocks of its nested queries. -/
def toBlockWith? (nested : Decoder Block) : Decoder Block := fun d => do
  let f ← d.open?
    ["tables", "joins", "filters", "group_by", "having", "order_by", "limit",
     "select_aggregates", "subqueries"]
  return {
    tables := ← f.withDefault "tables" [] (toList? toTable?)
    joins := ← f.withDefault "joins" [] (toList? toJoin?)
    filters := ← f.withDefault "filters" [] (toList? toFilter?)
    groupBy := ← f.withDefault "group_by" [] (toList? toGrouping?)
    having := ← f.withDefault "having" [] (toList? toHaving?)
    orderBy := ← f.withDefault "order_by" [] (toList? toSortTerm?)
    limit := ← f.maybe "limit" toLimit?
    aggregates := ← f.withDefault "select_aggregates" [] (toList? toSelectAggregate?)
    subqueries := ← f.withDefault "subqueries" [] (toList? (toSubquery? nested)) }

/-- Reads a block whose nested queries nest at most `depth` levels. -/
def toBlock? : (depth : Nat) → Decoder Block
  | 0 => fun _ => none
  | depth + 1 => toBlockWith? (toBlock? depth)

def toCte? (block : Decoder Block) : Decoder Cte := fun d => do
  let f ← d.open? ["id", "name", "geometry", "context"]
  return {
    id := ← f.required "id" toId?
    name := ← f.required "name" toText?
    frame := ← f.withDefault "geometry" default toFrame?
    block := ← f.withDefault "context" Block.empty block }

/-- Reads a canvas with the number of its format. -/
def toVersioned? : Decoder (Nat × Canvas) := fun d => do
  let block := toBlock? d.height
  let f ← d.open? ["version", "ctes", "root"]
  let found ← f.withDefault "version" version (toNat? (UInt32.size - 1))
  let ctes ← f.withDefault "ctes" [] (toList? (toCte? block))
  let root ← f.withDefault "root" Block.empty block
  return (found, { ctes, root })

/-- The canvas of a document. -/
def decode (d : Data) : Except Fault Canvas :=
  match toVersioned? d with
  | none => .error .malformed
  | some (found, canvas) => if version < found then .error (.newerVersion found) else .ok canvas

/-- The canvas of a stored text. -/
def read (s : String) : Except Fault Canvas :=
  match Json.read? s with
  | none => .error .malformed
  | some d => decode d

/-! ## Writing -/

def ofId (id : EntityId) : Data := .text id.text

def ofPosition (p : Position) : Data := .record [("x", .double p.x), ("y", .double p.y)]

def ofFrame (f : Frame) : Data :=
  .record [("x", .double f.x), ("y", .double f.y), ("width", .double f.width),
    ("height", .double f.height)]

def ofLimit : Limit → Data
  | .count n => .whole n
  | .parameter s => .text s

def ofColumnAggregate (a : ColumnAggregate) : Data :=
  .record [("function", .text a.function.sql), ("alias", ofMaybe .text a.aliasName)]

def ofTable (t : Table) : Data :=
  .record
    [("id", ofId t.id), ("name", .text t.name), ("position", ofPosition t.position),
     ("columns", .list (t.columns.map .text)), ("selected", .list (t.selected.map .text)),
     ("aggregates", .list (t.aggregates.entries.map fun entry =>
       .list [.text entry.1, ofColumnAggregate entry.2])),
     ("cte", ofMaybe ofId t.cte)]

def ofJoin (j : Join) : Data :=
  .record
    [("id", ofId j.id), ("source_table", ofId j.sourceTable),
     ("source_column", .text j.sourceColumn), ("target_table", ofId j.targetTable),
     ("target_column", .text j.targetColumn), ("kind", .text j.kind.word)]

def ofFilter (f : Filter) : Data :=
  .record
    [("id", ofId f.id), ("column", .text f.column), ("operator", .text f.operator.sql),
     ("value", .text (f.operand.value?.getD "")),
     ("subquery_id", ofMaybe ofId f.operand.subquery?), ("connector", .text f.connector.sql)]

def ofGrouping (g : Grouping) : Data := .record [("id", ofId g.id), ("column", .text g.column)]

def ofHaving (h : Having) : Data :=
  .record
    [("id", ofId h.id), ("function", .text h.function.sql), ("column", .text h.column),
     ("operator", .text h.operator.sql), ("value", .text h.value),
     ("connector", .text h.connector.sql)]

def ofSortTerm (o : SortTerm) : Data :=
  .record [("id", ofId o.id), ("column", .text o.column), ("direction", .text o.direction.sql)]

def ofSelectAggregate (a : SelectAggregate) : Data :=
  .record
    [("id", ofId a.id), ("function", .text a.function.sql), ("expression", .text a.expression),
     ("alias", ofMaybe .text a.aliasName)]

/-- The document of a nested query whose block is a document already. -/
def ofSubquery (s : SubqueryOf Data) : Data :=
  .record
    [("id", ofId s.id), ("role", .text s.role.word), ("alias", ofMaybe .text s.aliasName),
     ("linked_filter", ofMaybe ofId s.linkedFilter), ("geometry", ofFrame s.frame),
     ("context", s.block)]

mutual

/-- The document of a block. -/
def ofBlock : Block → Data
  | ⟨tables, joins, filters, groupBy, having, orderBy, limit, aggregates, subqueries⟩ =>
    .record
      [("tables", .list (tables.map ofTable)), ("joins", .list (joins.map ofJoin)),
       ("filters", .list (filters.map ofFilter)), ("group_by", .list (groupBy.map ofGrouping)),
       ("having", .list (having.map ofHaving)), ("order_by", .list (orderBy.map ofSortTerm)),
       ("limit", ofMaybe ofLimit limit),
       ("select_aggregates", .list (aggregates.map ofSelectAggregate)),
       ("subqueries", .list (ofNested subqueries))]

/-- The documents of nested queries. -/
def ofNested : List (SubqueryOf Block) → List Data
  | [] => []
  | ⟨id, role, aliasName, linkedFilter, frame, block⟩ :: rest =>
    ofSubquery ⟨id, role, aliasName, linkedFilter, frame, ofBlock block⟩ :: ofNested rest

end

def ofCte (q : Cte) : Data :=
  .record
    [("id", ofId q.id), ("name", .text q.name), ("geometry", ofFrame q.frame),
     ("context", ofBlock q.block)]

/-- The document of a canvas. -/
def encode (c : Canvas) : Data :=
  .record
    [("version", .whole version), ("ctes", .list (c.ctes.map ofCte)), ("root", ofBlock c.root)]

/-- The text in which a canvas is stored. -/
def write (c : Canvas) : String := Json.pretty (encode c)

end Saved

end QueryCanvas
