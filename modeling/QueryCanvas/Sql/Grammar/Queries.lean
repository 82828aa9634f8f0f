import QueryCanvas.Sql.Grammar.Change

/-!
# Queries

The grammar of whole queries: named queries, the body, and the clauses behind it.
-/

set_option autoImplicit false

namespace QueryCanvas.Sql.Inside

open Sql.Parser

variable (g : Inside)

/-! ## Named queries -/

/-- A named query. -/
def ctePart : Parser CtePart := do
  let n ← name
  let columns ← if ← word? "AS" then pure [] else do
    let columns ← names g.trailing
    word "AS"
    pure columns
  let materialized ← do
    if g.dialect = .postgresql then
      if ← word? "MATERIALIZED" then pure (some "MATERIALIZED")
      else if ← words? ["NOT", "MATERIALIZED"] then pure (some "NOT MATERIALIZED")
      else pure none
    else pure none
  let q ← parenthesized g.query
  return .mk { name := n, columns } materialized q (← after? "FROM" name)

/-- The named queries of a query: whether they may refer to themselves, and the list. -/
def ctes : Parser (Bool × List CtePart) := do
  if ← word? "WITH" then
    let recursive ← word? "RECURSIVE"
    return (recursive, ← list g.trailing g.ctePart)
  else return (false, [])

/-! ## The body -/

/-- A body without a combination of rows. -/
def singleBody : Parser Body := do
  if ← seesWord "SELECT" then g.select
  else if ← seesMark "(" then
    let q ← parenthesized g.query
    return .other .enclosed ("(" ++ q.print ++ ")")
  else if ← word? "VALUES" then
    return .other .rows (← g.valuesText (g.dialect = .mysql))
  else if ← word? "TABLE" then
    let n ← name
    let rest ← if ← mark? "." then some <$> name else pure none
    return .other .rows ("TABLE " ++ n.text ++ optional "." (rest.map Name.text))
  else fail

/-- The strength with which a word combines two bodies; 0 for any other word. -/
def combinationStrength (t : Option Token) : Nat :=
  match t with
  | some (.word n) =>
    match n.folded with
    | "UNION" | "EXCEPT" => 10
    | "INTERSECT" => 20
    | _ => 0
  | _ => 0

/-- The word that combines two bodies. -/
def combination : Parser Combination := do
  match ← oneOf ["UNION", "EXCEPT", "INTERSECT"] with
  | "UNION" => return .union
  | "EXCEPT" => return .except
  | _ => return .intersect

/-- How rows that occur more than once are combined. -/
def quantifier : Parser String := do
  match (← [["ALL", "BY", "NAME"], ["DISTINCT", "BY", "NAME"], ["ALL"], ["DISTINCT"],
      ["BY", "NAME"]].findM? fun ks => words? ks) with
  | some ks => return joined " " ks ++ " "
  | none => return ""

/-- Combines a body with those that follow it by combinations stronger than given, at most so many;
`behind` reads the body behind a combination of a strength. -/
def extendBody (behind : Nat → Parser Body) (strength : Nat) : Nat → Body → Parser Body
  | 0, _ => fail
  | m + 1, left => do
    let following := combinationStrength (← peek)
    if following ≤ strength then return left
    else
      let how ← combination
      let q ← quantifier
      let right ← behind following
      extendBody behind strength m
        (.other (.combined how) (left.print ++ " " ++ how.text ++ " " ++ q ++ right.print))

/-- A body of combinations stronger than given; at most so many are nested or follow each other. -/
def bodyUpTo : Nat → Nat → Parser Body
  | 0, _ => fail
  | n + 1, strength => do extendBody (bodyUpTo n) strength (n + 1) (← g.singleBody)

/-- The body of a query. -/
def body : Parser Body := fun ts => g.bodyUpTo (ts.length + 1) 0 ts

/-! ## The clauses behind the body -/

/-- The terms of `ORDER BY`, with what is interpolated between them. -/
def orderBy? : Parser (Option (List OrderTerm) × Option String) := do
  if ← words? ["ORDER", "BY"] then
    let terms ← g.orderTerms
    let interpolate ← do
      if g.dialect = .generic then
        after? "INTERPOLATE" do
          if ← seesMark "(" then
            let items ← parenthesized (listBefore g.trailing ")" do
              let n ← name
              let e ← after? "AS" g.exprText
              return n.text ++ optional " AS " e)
            return "INTERPOLATE (" ++ joined ", " items ++ ")"
          else return "INTERPOLATE"
      else pure none
    return (some terms, interpolate)
  else return (none, none)

/-- A number of rows and a number of rows to pass over, as far as they are known. -/
structure Bounds where
  limit : Option Expr
  offset : Option String

/-- What follows `OFFSET`. -/
def offsetText : Parser String := do
  let e ← g.exprText
  match ← oneOf? ["ROW", "ROWS"] with
  | some k => return "OFFSET " ++ e ++ " " ++ k
  | none => return "OFFSET " ++ e

/-- Adds to the bounds what stands next. -/
def addBounds (b : Bounds) : Parser Bounds := do
  let limited ← do
    if b.limit.isNone && (← word? "LIMIT") then
      if ← word? "ALL" then pure b else pure { b with limit := some (← g.expr) }
    else pure b
  let shifted ← do
    if limited.offset.isNone && (← word? "OFFSET") then
      pure { limited with offset := some (← g.offsetText) }
    else pure limited
  match shifted with
  | { limit := some first, offset := none } =>
    if g.dialect ∈ [.generic, .mysql, .sqlite] then
      if ← mark? "," then
        return { limit := some (← g.expr), offset := some ("OFFSET " ++ first.print) }
      else return shifted
    else return shifted
  | _ => return shifted

/-- What follows `FETCH`. -/
def fetchText : Parser String := do
  let _ ← oneOf ["FIRST", "NEXT"]
  let count ← do
    if (← oneOf? ["ROW", "ROWS"]).isSome then pure ""
    else
      let v ← value
      let percent ← word? "PERCENT"
      let _ ← oneOf ["ROW", "ROWS"]
      pure (" " ++ v.print ++ flag percent " PERCENT")
  let ties ← do
    if ← word? "ONLY" then pure false
    else
      words ["WITH", "TIES"]
      pure true
  return "FETCH FIRST" ++ count ++ " ROWS" ++ (if ties then " WITH TIES" else " ONLY")

/-- A lock of the rows, behind `FOR`. -/
def lockText : Parser String := do
  let kind ← oneOf ["UPDATE", "SHARE"]
  let table ← after? "OF" path
  let wait ← do
    if ← word? "NOWAIT" then pure " NOWAIT"
    else if ← words? ["SKIP", "LOCKED"] then pure " SKIP LOCKED"
    else pure ""
  return "FOR " ++ kind ++ optional " OF " (table.map Name.path) ++ wait

/-- A form of the result behind `FOR`; the word that names it comes first. -/
def formText : Parser String := do
  match ← oneOf ["XML", "JSON", "BROWSE"] with
  | "BROWSE" => return "FOR BROWSE"
  | "JSON" =>
    let mode ← oneOf ["AUTO", "PATH"]
    let options ← many do
      if ← mark? "," then
        match ← oneOf ["ROOT", "INCLUDE_NULL_VALUES", "WITHOUT_ARRAY_WRAPPER"] with
        | "ROOT" =>
          let root ← parenthesized (textValue .generic)
          return some (", ROOT('" ++ root ++ "')")
        | k => return some (", " ++ k)
      else return none
    return "FOR JSON " ++ mode ++ String.join options
  | _ =>
    let mode ← do
      match ← oneOf ["RAW", "AUTO", "EXPLICIT", "PATH"] with
      | "RAW" | "PATH" => do
        let element ←
          if ← seesMark "(" then some <$> parenthesized (textValue .generic) else pure none
        pure (optional "('" (element.map (· ++ "')")))
      | _ => pure ""
    return "FOR XML" ++ mode

/-- The locks, and a form of the result, which comes last. -/
def locks : Parser (List String × Option String) := do
  let locks ← many do
    match ← ahead with
    | .word n :: rest =>
      if n.folded = "FOR" && !(["XML", "JSON", "BROWSE"].any fun k => areWords [k] rest) then
        word "FOR"
        return some (← lockText)
      else return none
    | _ => return none
  return (locks, ← after? "FOR" formText)

/-- The columns by which a number of rows is meant. -/
def limitBy? : Parser (Option String) := do
  if g.dialect = .generic then after? "BY" g.exprsText else return none

/-- Settings for the query. -/
def settings? : Parser (Option String) := do
  if g.dialect = .generic then
    after? "SETTINGS" do
      return joined ", " (← list g.trailing do
        let k ← name
        mark "="
        return k.text ++ " = " ++ (← value).print)
  else return none

/-- The format of the result. -/
def format? : Parser (Option String) := do
  if g.dialect = .generic then
    after? "FORMAT" do
      if ← word? "NULL" then return "FORMAT NULL" else return "FORMAT " ++ (← name).text
  else return none

/-- A query of which the named queries are read: the body and the clauses behind it. -/
def queryBehind (recursive : Bool) (ctes : List CtePart) : Parser Query := do
  let body ← g.body
  let (orderBy, interpolate) ← g.orderBy?
  let bounds ← g.addBounds (← g.addBounds { limit := none, offset := none })
  let limitBy ← g.limitBy?
  let settings ← g.settings?
  let fetch ← after? "FETCH" fetchText
  let (locks, forClause) ← locks
  let format ← g.format?
  return .mk recursive ctes body orderBy bounds.limit
    { interpolate, offset := bounds.offset, limitBy, settings, fetch, locks, forClause, format }

/-- A query.  In place of a body, rows can be changed. -/
def wholeQuery : Parser Query := do
  let (recursive, ctes) ← g.ctes
  let change (what : String) (p : Parser Unit) : Parser Query := do
    p
    return .mk recursive ctes (.other .rows what) none none .none
  if ← word? "INSERT" then change "INSERT" g.insertion
  else if ← word? "UPDATE" then change "UPDATE" g.updating
  else g.queryBehind recursive ctes

end QueryCanvas.Sql.Inside
