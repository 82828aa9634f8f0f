import QueryCanvas.Sql.Grammar.Expression

/-!
# Tables and joins

The grammar of the `FROM` clause.
-/

set_option autoImplicit false

namespace QueryCanvas.Sql.Inside

open Sql.Parser

variable (g : Inside)

/-! ## Tables -/

/-- What follows `PIVOT` or `UNPIVOT` behind a source, with its alias. -/
def pivot? : Parser (Option String) := do
  if ← word? "PIVOT" then
    let inner ← parenthesized do
      let calls ← list g.trailing do
        let function ← path
        let e ← g.call function
        let n ← alias? ["FOR"]
        return e.print ++ optional " AS " (n.map Name.text)
      word "FOR"
      let column ← path
      word "IN"
      let values ← parenthesized (list g.trailing do
        let e ← g.exprText
        let n ← alias? []
        return e ++ optional " AS " (n.map Name.text))
      return joined ", " calls ++ " FOR " ++ Name.path column
        ++ " IN (" ++ joined ", " values ++ ")"
    let n ← tableAlias? g.trailing
    return some (" PIVOT(" ++ inner ++ ")" ++ optional " AS " (n.map Alias.text))
  else if ← word? "UNPIVOT" then
    let inner ← parenthesized do
      let value ← name
      word "FOR"
      let key ← name
      word "IN"
      let columns ← names g.trailing
      return value.text ++ " FOR " ++ key.text ++ " IN ("
        ++ joined ", " (columns.map Name.text) ++ ")"
    let n ← tableAlias? g.trailing
    return some (" UNPIVOT(" ++ inner ++ ")" ++ optional " AS " (n.map Alias.text))
  else return none

/-- A source with what is pivoted behind it. -/
def pivoted (s : Source) : Parser Source := do
  let pivots ← many g.pivot?
  return if pivots.isEmpty then s else .other (s.print ++ String.join pivots)

/-- A query as a source, behind its opening parenthesis. -/
def derived (lateral : Bool) : Parser Source := do
  let q ← g.query
  mark ")"
  return .derived lateral q (← tableAlias? g.trailing)

/-- The rows behind `VALUES`, as they are written. -/
def valuesText (mayBeEmpty : Bool) : Parser String := do
  let rows ← list g.trailing do
    let row ← word? "ROW"
    mark "("
    if mayBeEmpty && (← mark? ")") then return (row, "()")
    else
      let es ← g.exprsText
      mark ")"
      return (row, "(" ++ es ++ ")")
  let explicit := rows.any (·.1)
  return "VALUES " ++ joined ", " (rows.map fun r => flag explicit "ROW" ++ r.2)

/-- The arguments of a table function, as they are written. -/
def tableArguments : Parser String := do
  if ← mark? ")" then return "()"
  else
    let items ← list g.trailing g.argument
    mark ")"
    return "(" ++ joined ", " (printArguments items) ++ ")"

/-- Hints in parentheses behind a table. -/
def hints? : Parser String := do
  match ← ahead with
  | .word n :: .mark "(" :: _ =>
    if n.folded = "WITH" then
      word "WITH"
      let es ← parenthesized g.exprsText
      return " WITH (" ++ es ++ ")"
    else return ""
  | _ => return ""

/-- A table by its name, or a table function. -/
def namedTable : Parser Source := do
  let d := g.dialect
  let table ← path
  let parts ← do
    if d ∈ [.mysql, .generic] then after? "PARTITION" (names g.trailing) else pure none
  let version ← do
    if d = .mssql then afterAll? ["FOR", "SYSTEM_TIME", "AS", "OF"] g.exprText else pure none
  let arguments ← if ← mark? "(" then some <$> g.tableArguments else pure none
  let ordinality ← words? ["WITH", "ORDINALITY"]
  let named ← tableAlias? g.trailing
  let hints ← g.hints?
  let before := flag ordinality " WITH ORDINALITY"
    ++ optional " PARTITION (" (parts.map fun ns => joined ", " (ns.map Name.text) ++ ")")
  g.pivoted (.table table arguments named
    (before, hints ++ optional " FOR SYSTEM_TIME AS OF " version))

/-- An unnested array behind `UNNEST`. -/
def unnested : Parser Source := do
  let es ← parenthesized g.exprsText
  let ordinality ← words? ["WITH", "ORDINALITY"]
  let named ← tableAlias? g.trailing
  let offset ← afterAll? ["WITH", "OFFSET"] (alias? Keyword.noColumnAlias)
  return .other ("UNNEST(" ++ es ++ ")" ++ flag ordinality " WITH ORDINALITY"
    ++ optional " AS " (named.map Alias.text)
    ++ (match offset with
      | some n => " WITH OFFSET" ++ optional " AS " (n.map Name.text)
      | none => ""))

/-! ## Joins -/

/-- What ties a joined source to the sources before it. -/
def constraint (natural : Bool) : Parser Constraint := do
  if natural then return .natural
  else if ← word? "ON" then return .on (← g.expr)
  else if ← word? "USING" then return .using (← names g.trailing)
  else return .none

/-- The operator of a join behind the words that it begins with. -/
def joinOperator? (natural : Bool) : Parser (Option JoinOperator) := do
  let sided (side : String) (kind : JoinKind) : Parser (Option JoinOperator) := do
    word side
    if ← word? "OUTER" then
      word "JOIN"
      return some (.kind kind)
    else
      match ← oneOf ["SEMI", "ANTI", "JOIN"] with
      | "JOIN" => return some (.kind kind)
      | k => do
        word "JOIN"
        return some (.other (side ++ " " ++ k ++ " JOIN"))
  if ← seesOneOf ["INNER", "JOIN"] then
    let _ ← word? "INNER"
    word "JOIN"
    return some (.kind .inner)
  else if ← seesWord "LEFT" then sided "LEFT" .left
  else if ← seesWord "RIGHT" then sided "RIGHT" .right
  else if ← word? "FULL" then
    let _ ← word? "OUTER"
    word "JOIN"
    return some (.kind .full)
  else if ← seesWord "OUTER" then fail
  else if natural then fail
  else return none

/-- A join with a further source, given the grammar of a source. -/
def join? (source : Parser Source) : Parser (Option JoinClause) := do
  let isGlobal ← word? "GLOBAL"
  if ← word? "CROSS" then
    match ← oneOf ["JOIN", "APPLY"] with
    | "JOIN" => return some (.mk isGlobal .cross (← source) .none)
    | _ => return some (.mk isGlobal (.other "CROSS APPLY") (← source) .none)
  else if ← words? ["OUTER", "APPLY"] then
    return some (.mk isGlobal (.other "OUTER APPLY") (← source) .none)
  else if ← word? "ASOF" then
    word "JOIN"
    let s ← source
    word "MATCH_CONDITION"
    let condition ← parenthesized g.exprText
    return some (.mk isGlobal (.other "ASOF JOIN")
      (.other (s.print ++ " MATCH_CONDITION (" ++ condition ++ ")")) (← g.constraint false))
  else
    let natural ← word? "NATURAL"
    match ← joinOperator? natural with
    | none => return none
    | some op =>
      let s ← source
      return some (.mk isGlobal op s (← g.constraint natural))

/-- A source with the sources that are joined to it, given the grammar of a source. -/
def fromPart (source : Parser Source) : Parser FromPart := do
  let first ← source
  return .mk first (← many (g.join? source))

/-! ## Sources -/

/-- An alias of a source that may have been given inside its parentheses. -/
def withOuterAlias (outer : Option Alias) : Source → Option Source
  | .table name arguments named marks =>
    if named.isSome && outer.isSome then none
    else some (.table name arguments (outer.or named) marks)
  | .derived lateral q named =>
    if named.isSome && outer.isSome then none else some (.derived lateral q (outer.or named))
  | .joined text => some (.joined text)
  | .other text =>
    some (.other (text ++ optional " AS " (outer.map Alias.text)))

/-- A source in parentheses that is no query, behind the opening one. -/
def enclosedSource (inner : Parser FromPart) : Parser Source := do
  let .mk source joins ← inner
  let isJoin := match source with
    | .joined _ => true
    | _ => !joins.isEmpty
  if isJoin then
    mark ")"
    let named ← tableAlias? g.trailing
    return .joined ("(" ++ source.print ++ printJoins joins ++ ")"
      ++ optional " AS " (named.map Alias.text))
  else if g.dialect = .generic then
    mark ")"
    match withOuterAlias (← tableAlias? g.trailing) source with
    | some s => return s
    | none => fail
  else fail

/-- A source behind `LATERAL`. -/
def lateral : Parser Source := do
  if ← mark? "(" then g.derived true
  else
    let function ← path
    mark "("
    let args ← g.tableArguments
    let named ← tableAlias? g.trailing
    return .other ("LATERAL " ++ Name.path function ++ args
      ++ optional " AS " (named.map Alias.text))

/-- A source of rows in which parentheses nest at most so deep. -/
def sourceUpTo : Nat → Parser Source
  | 0 => fail
  | n + 1 => do
    if ← word? "LATERAL" then g.lateral
    else
      match ← ahead with
      | .mark "(" :: _ =>
        mark "("
        match ← attempt (g.derived false) with
        | some s => g.pivoted s
        | none => g.enclosedSource (g.fromPart (sourceUpTo n))
      | .word w :: rest =>
        match w.folded with
        | "TABLE" =>
          word "TABLE"
          let e ← parenthesized g.exprText
          let named ← tableAlias? g.trailing
          return .other ("TABLE(" ++ e ++ ")" ++ optional " AS " (named.map Alias.text))
        | "VALUES" =>
          if g.dialect = .generic && rest.head? = some (.mark "(") then
            word "VALUES"
            let rows ← g.valuesText false
            let named ← tableAlias? g.trailing
            return .derived false (.plain (.other .rows rows)) named
          else g.namedTable
        | "UNNEST" =>
          if g.dialect ∈ [.postgresql, .generic] then
            word "UNNEST"
            g.unnested
          else g.namedTable
        | _ => g.namedTable
      | _ => g.namedTable

/-- A source of rows. -/
def source : Parser Source := fun ts => g.sourceUpTo (ts.length + 1) ts

/-- The sources of a `FROM` clause. -/
def sources : Parser (List FromPart) := list g.trailing (g.fromPart g.source)

end QueryCanvas.Sql.Inside
