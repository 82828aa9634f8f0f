import QueryCanvas.Parameter
import QueryCanvas.Sql.Arrangement
import QueryCanvas.Canvas.Tree

/-!
# Diagnosis of a canvas

Drawing keeps a canvas in good order, but a stored canvas may hold anything.  The diagnosis lists
what writing a query passes over in silence: names that are missing or taken, links that lead to
nothing, joins and nested queries that are not written.
-/

set_option autoImplicit false

namespace QueryCanvas

/-- How serious a finding is. -/
inductive Severity where
  | warning | error
deriving DecidableEq, Repr

namespace Severity

def word : Severity → String
  | warning => "warning"
  | error => "error"

end Severity

/-- Something about a canvas that is not in order. -/
structure Finding where
  severity : Severity
  message : String
  /-- What the finding is about, if it is about a single entity. -/
  entity : Option EntityId
deriving DecidableEq, Repr

namespace Finding

def error (message : String) (entity : EntityId) : Finding := ⟨.error, message, some entity⟩

def warning (message : String) (entity : EntityId) : Finding := ⟨.warning, message, some entity⟩

/-- The finding on one line. -/
def display (f : Finding) : String :=
  let text := f.severity.word ++ ": " ++ f.message
  match f.entity with
  | some id => text ++ " [" ++ id.text ++ "]"
  | none => text

end Finding

namespace Diagnosis

/-- Findings on the names of the named queries, given the names of those before them. -/
def cteNames (before : List String) : List Cte → List Finding
  | [] => []
  | q :: rest =>
    if (Text.trim q.name).isEmpty then
      .error "CTE has an empty name" q.id :: cteNames before rest
    else if before.any (Text.sameName q.name) then
      .error ("CTE name " ++ q.name ++ " is used more than once") q.id :: cteNames before rest
    else cteNames (q.name :: before) rest

/-- Findings on tables that read a named query which is not there. -/
def tables (c : Canvas) (b : Block) : List Finding :=
  b.tables.filterMap fun t =>
    if t.cte.any fun id => (c.cte? id).isNone then
      some (.error ("table " ++ t.name ++ " reads from a CTE that no longer exists") t.id)
    else none

def joins (b : Block) : List Finding :=
  b.joins.filterMap fun j =>
    if (b.table? j.sourceTable).isNone || (b.table? j.targetTable).isNone then
      some (.error "join endpoint is missing" j.id)
    else if j.sourceTable = j.targetTable then
      some (.warning "join connects a table to itself and is not rendered" j.id)
    else none

/-- Findings on joins that are written as a join of another kind. -/
def joinKinds (b : Block) : List Finding :=
  (Sql.overriddenJoins b).map fun (j, kind) =>
    .warning (j.kind.keyword ++ " is rendered as " ++ kind.keyword ++ ", the join it is ANDed onto")
      j.id

/-- Whether the table part of a written column names something in the block. -/
def isKnown (b : Block) (column : String) : Bool :=
  match columnQualifier? column with
  | none => true
  | some q =>
    b.tables.any (fun t => Text.sameName t.name q)
      || (b.subqueriesIn .fromClause).any fun s => s.aliasName.any fun a => Text.sameName a q

/-- A finding on a column of a table that is not there. -/
def column (b : Block) (clause column : String) (id : EntityId) : List Finding :=
  if isKnown b column then []
  else [.warning (clause ++ " column " ++ column ++ " refers to a table not in this query") id]

def filter (b : Block) (f : Filter) : List Finding :=
  let linked : List Finding :=
    if f.operand.subquery?.any fun id => (b.subquery? id).isNone then
      [.error "filter is linked to a subquery that no longer exists" f.id]
    else []
  column b "filter" f.column f.id ++ linked

/-- Whether a nested query and a filter of the block are linked to each other. -/
def isLinked (b : Block) (s : Subquery) : Bool :=
  (s.linkedFilter.bind b.filter?).any fun f => f.operand.subquery? = some s.id

def subquery (b : Block) (s : Subquery) : List Finding :=
  let unlinked : List Finding :=
    if s.role = .whereClause && !isLinked b s then
      [.warning "WHERE subquery is not linked to any filter and is not rendered" s.id]
    else []
  let empty : List Finding :=
    if s.block.hasNoSource then [.warning "subquery has no tables" s.id] else []
  unlinked ++ empty

def limit : Option Limit → List Finding
  | some (.parameter text) =>
    if Parameter.isParameter text then []
    else
      [⟨.error, "LIMIT " ++ text ++ " is neither a number nor a \x7b\x7bname\x7d\x7d placeholder",
        none⟩]
  | _ => []

/-- All findings on one block. -/
def block (c : Canvas) (b : Block) : List Finding :=
  tables c b ++ joins b ++ joinKinds b
    ++ b.filters.flatMap (filter b)
    ++ b.groupBy.flatMap (fun g => column b "GROUP BY" g.column g.id)
    ++ b.having.flatMap (fun h => column b "HAVING" h.column h.id)
    ++ b.orderBy.flatMap (fun o => column b "ORDER BY" o.column o.id)
    ++ b.subqueries.flatMap (subquery b)
    ++ limit b.limit

end Diagnosis

/-- All findings on a canvas, the errors before the warnings. -/
def Canvas.diagnose (c : Canvas) : List Finding :=
  let found := Diagnosis.cteNames [] c.ctes ++ c.blocks.flatMap (Diagnosis.block c)
  found.filter (·.severity = .error) ++ found.filter (·.severity = .warning)

end QueryCanvas
