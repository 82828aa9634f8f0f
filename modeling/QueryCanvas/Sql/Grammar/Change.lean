import QueryCanvas.Sql.Grammar.Select

/-!
# Changes of rows

The grammar of the statements that insert, update and delete rows.  Nothing is kept of them.
-/

set_option autoImplicit false

namespace QueryCanvas.Sql.Inside

open Sql.Parser

variable (g : Inside)

/-- What is done in place of a failing change. -/
def conflictClause : Parser Unit := do
  if g.dialect = .sqlite then
    if ← word? "OR" then
      let _ ← oneOf ["REPLACE", "ROLLBACK", "ABORT", "FAIL", "IGNORE"]
    else if ← word? "REPLACE" then return ()

/-- A new value for a column, or for columns in parentheses. -/
def assignment : Parser Unit := do
  if ← seesMark "(" then
    let _ ← parenthesized (list g.trailing path)
  else
    let _ ← path
  mark "="
  let _ ← g.expr

/-- New values. -/
def assignments : Parser Unit := do
  let _ ← list g.trailing g.assignment

/-- The results that a change has. -/
def returning : Parser Unit := do
  let _ ← after? "RETURNING" (list g.trailing g.selectItem)

/-- A condition. -/
def condition : Parser Unit := do
  let _ ← after? "WHERE" g.expr

/-- What is done with a row that is there already, behind `ON`. -/
def onConflict : Parser Unit := do
  if ← word? "CONFLICT" then
    if ← words? ["ON", "CONSTRAINT"] then
      let _ ← path
    else
      let _ ← names? g.trailing
    word "DO"
    if ← word? "NOTHING" then return ()
    else
      words ["UPDATE", "SET"]
      g.assignments
      g.condition
  else
    words ["DUPLICATE", "KEY", "UPDATE"]
    g.assignments

/-- What follows `INSERT`. -/
def insertion : Parser Unit := do
  let d := g.dialect
  g.conflictClause
  if d ∈ [.mysql, .generic] then
    let _ ← oneOf? ["LOW_PRIORITY", "DELAYED", "HIGH_PRIORITY"]
    let _ ← word? "IGNORE"
  let _ ← word? "OVERWRITE"
  let _ ← word? "INTO"
  let _ ← word? "LOCAL"
  let _ ← word? "TABLE"
  let _ ← path
  if d = .postgresql then
    let _ ← after? "AS" name
  if ← words? ["DEFAULT", "VALUES"] then pure ()
  else
    let startsQuery : Bool := match ← ahead with
      | .mark "(" :: rest => areWords ["SELECT"] rest || areWords ["WITH"] rest
      | _ => false
    if !startsQuery then
      let _ ← names? g.trailing
      let _ ← after? "PARTITION" (parenthesized g.exprs)
    let _ ← g.query
  if d ∈ [.mysql, .generic] then
    let _ ← after? "AS" do
      let _ ← path
      names? g.trailing
  let _ ← after? "ON" g.onConflict
  g.returning

/-- What follows `UPDATE`. -/
def updating : Parser Unit := do
  g.conflictClause
  let _ ← g.fromPart g.source
  word "SET"
  g.assignments
  if ← word? "FROM" then
    if g.dialect ≠ .mysql then
      let _ ← g.fromPart g.source
  g.condition
  g.returning

/-- What follows `DELETE`. -/
def deletion : Parser Unit := do
  if ← word? "FROM" then pure ()
  else if g.dialect ≠ .generic then
    let _ ← list g.trailing path
    word "FROM"
  let _ ← g.sources
  let _ ← after? "USING" g.sources
  g.condition
  g.returning
  let _ ← afterAll? ["ORDER", "BY"] g.orderTerms
  let _ ← after? "LIMIT" g.expr

end QueryCanvas.Sql.Inside
