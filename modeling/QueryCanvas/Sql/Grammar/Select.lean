import QueryCanvas.Sql.Grammar.Tables

/-!
# Selects

The grammar of `SELECT` with its clauses up to `QUALIFY`.
-/

set_option autoImplicit false

namespace QueryCanvas.Sql.Inside

open Sql.Parser

variable (g : Inside)

/-! ## Results -/

/-- A column, or columns in parentheses, behind a word after a star. -/
def starColumns : Parser String := do
  if ← seesMark "(" then
    return "(" ++ joined ", " ((← names g.trailing).map Name.text) ++ ")"
  else return (← name).text

/-- A name and its new name. -/
def renamed : Parser String := do
  let old ← name
  word "AS"
  return old.text ++ " AS " ++ (← name).text

/-- What follows a star among the results. -/
def starOptions : Parser String := do
  let generic := g.dialect = .generic
  let duck := generic || g.dialect = .duckdb
  let ilike ← if generic then after? "ILIKE" (do
      match ← next with
      | .text .plain s => return textLiteral s
      | _ => fail)
    else pure none
  let exclude ← if duck && ilike.isNone then after? "EXCLUDE" g.starColumns else pure none
  let except ← if generic then after? "EXCEPT" g.starColumns else pure none
  let replace ← do
    if duck then
      after? "REPLACE" (parenthesized (list g.trailing do
        let e ← g.exprText
        let _ ← word? "AS"
        return e ++ " AS " ++ (← name).text))
    else pure none
  let rename ← do
    if generic then
      after? "RENAME" do
        if ← seesMark "(" then
          return "(" ++ joined ", " (← parenthesized (list g.trailing renamed)) ++ ")"
        else renamed
    else pure none
  return optional " ILIKE " ilike ++ optional " EXCLUDE " exclude ++ optional " EXCEPT " except
    ++ (match replace with
      | some items => " REPLACE (" ++ joined ", " items ++ ")"
      | none => "")
    ++ optional " RENAME " rename

/-- An item of the list of results. -/
def selectItem : Parser SelectItem := do
  match ← g.starred with
  | .all => return .wildcard (← g.starOptions)
  | .allOf table => return .tableWildcard table (← g.starOptions)
  | .expr e =>
    let aliased : Parser SelectItem := do return .expr e (← alias? Keyword.noColumnAlias)
    match e with
    | .column [n] => if n.folded = "FROM" then fail else aliased
    | .binary (.column [n]) (.compare .eq) right =>
      if g.dialect = .mssql then return .expr right (some n) else aliased
    | _ => aliased

/-! ## Clauses in front of the results -/

/-- The word `DISTINCT`, perhaps with its expressions. -/
def distinctText? : Parser (Option String) := do
  if ← word? "ALL" then
    if ← seesWord "DISTINCT" then fail else return none
  else if ← word? "DISTINCT" then
    if ← word? "ON" then
      let es ← parenthesized (listBefore g.trailing ")" g.expr)
      return some ("DISTINCT ON (" ++ joined ", " (printExprs es) ++ ")")
    else return some "DISTINCT"
  else return none

/-- The number of rows behind `TOP`. -/
def topText : Parser String := do
  let count ← do
    if ← seesMark "(" then
      let e ← parenthesized g.exprText
      pure ("(" ++ e ++ ")")
    else toString <$> natural
  let percent ← word? "PERCENT"
  let ties ← words? ["WITH", "TIES"]
  return "TOP " ++ count ++ flag percent " PERCENT" ++ flag ties " WITH TIES"

/-- The new table behind `INTO`. -/
def intoText : Parser String := do
  let temporary ← oneOf? ["TEMP", "TEMPORARY"]
  let unlogged ← word? "UNLOGGED"
  let table ← word? "TABLE"
  return "INTO" ++ flag temporary.isSome " TEMPORARY" ++ flag unlogged " UNLOGGED"
    ++ flag table " TABLE" ++ " " ++ Name.path (← path)

/-! ## Clauses behind the sources -/

/-- A view behind the sources. -/
def lateralView? : Parser (Option String) := do
  if ← words? ["LATERAL", "VIEW"] then
    let outer ← word? "OUTER"
    let e ← g.exprText
    let view ← path
    let columns ← list g.trailing do
      return (← alias? ["WHERE", "GROUP", "CLUSTER", "HAVING", "LATERAL"])
    let columns := columns.filterMap id
    return some (" LATERAL VIEW" ++ flag outer " OUTER" ++ " " ++ e ++ " " ++ Name.path view
      ++ (if columns.isEmpty then "" else " AS " ++ joined ", " (columns.map Name.text)))
  else return none

/-- The sets of expressions of a construct of grouping, as they are written. -/
def groupingSets (mayBeBare : Bool) : Parser String := parenthesized do
  let sets ← list g.trailing do
    if ← seesMark "(" then
      match ← parenthesized (listBefore g.trailing ")" g.expr) with
      | [e] => return if mayBeBare then e.print else "(" ++ e.print ++ ")"
      | es => return "(" ++ joined ", " (printExprs es) ++ ")"
    else if mayBeBare then g.exprText
    else fail
  return "(" ++ joined ", " sets ++ ")"

/-- A term of a grouping. -/
def groupTerm : Parser Expr := do
  if g.dialect ∈ [.postgresql, .duckdb, .generic] then
    if ← words? ["GROUPING", "SETS"] then
      return .other ("GROUPING SETS " ++ (← g.groupingSets false))
    else if ← word? "CUBE" then return .other ("CUBE " ++ (← g.groupingSets true))
    else if ← word? "ROLLUP" then return .other ("ROLLUP " ++ (← g.groupingSets true))
    else
      match ← ahead with
      | .mark "(" :: .mark ")" :: _ =>
        mark "("
        mark ")"
        return .other "()"
      | _ => g.expr
  else g.expr

/-- What follows the terms of a grouping. -/
def groupModifiers : Parser (List String) := do
  if g.dialect = .generic then
    many do
      if ← word? "WITH" then
        return some ("WITH " ++ (← oneOf ["ROLLUP", "CUBE", "TOTALS"]))
      else return none
  else return []

/-- The grouping: whether it is by all columns, the terms, and what follows them. -/
def grouping : Parser (Bool × List Expr × List String) := do
  if ← words? ["GROUP", "BY"] then
    if ← word? "ALL" then return (true, [], ← g.groupModifiers)
    else
      let terms ← list g.trailing g.groupTerm
      return (false, terms, ← g.groupModifiers)
  else return (false, [], [])

/-- A clause of the distribution of rows, as it is written. -/
def distribution (k : String) : Parser (List String) := do
  if ← words? [k, "BY"] then return [" " ++ k ++ " BY " ++ (← g.exprsText)] else return []

/-- The named windows behind `WINDOW`. -/
def windowsText : Parser String := do
  let windows ← list g.trailing do
    let n ← name
    word "AS"
    if ← mark? "(" then return n.text ++ " AS " ++ (← g.window)
    else if g.dialect = .generic then return n.text ++ " AS " ++ (← name).text
    else fail
  return joined ", " windows

/-- The conditions of a hierarchy. -/
def hierarchyText? : Parser (Option String) := do
  if g.dialect ∈ [.generic, .mssql] then
    let stepsText : Parser String := do
      return joined ", " (printExprs (← list g.trailing g.hierarchyExpr))
    if ← words? ["START", "WITH"] then
      let start ← g.exprText
      words ["CONNECT", "BY"]
      let steps ← stepsText
      return some ("START WITH " ++ start ++ " CONNECT BY " ++ steps)
    else if ← words? ["CONNECT", "BY"] then
      let steps ← stepsText
      words ["START", "WITH"]
      let start ← g.exprText
      return some ("START WITH " ++ start ++ " CONNECT BY " ++ steps)
    else return none
  else return none

/-! ## Selects -/

/-- A select. -/
def select : Parser Body := do
  word "SELECT"
  let distinct ← g.distinctText?
  let top ← after? "TOP" g.topText
  let items ← list g.trailing g.selectItem
  let into ← after? "INTO" intoText
  let sources ← if ← word? "FROM" then g.sources else pure []
  let lateralViews ← many g.lateralView?
  let prewhere ← if g.dialect = .generic then after? "PREWHERE" g.exprText else pure none
  let condition ← after? "WHERE" g.expr
  let (groupAll, groupBy, groupModifiers) ← g.grouping
  let cluster ← g.distribution "CLUSTER"
  let distribute ← g.distribution "DISTRIBUTE"
  let sort ← g.distribution "SORT"
  let having ← after? "HAVING" g.expr
  let windowsBefore ← after? "WINDOW" g.windowsText
  let qualify ← after? "QUALIFY" g.exprText
  let windowsAfter ← do
    if windowsBefore.isNone && qualify.isSome then after? "WINDOW" g.windowsText else pure none
  let connectBy ← g.hierarchyText?
  return .select items sources condition groupBy having
    { distinct, top, into, lateralViews, prewhere, groupAll, groupModifiers,
      distribution := cluster ++ distribute ++ sort, windows := windowsBefore.or windowsAfter,
      qualify, windowsFirst := windowsBefore.isSome, connectBy }

end QueryCanvas.Sql.Inside
