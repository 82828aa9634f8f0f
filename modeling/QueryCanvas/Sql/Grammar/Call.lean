import QueryCanvas.Sql.Grammar.Literal
import QueryCanvas.Sql.Grammar.Strength

/-!
# Function calls

The grammar of calls: the arguments with their clauses, and what follows them.  The parsers for the
expressions and queries inside are given.
-/

set_option autoImplicit false

namespace QueryCanvas.Sql

/-- The grammar of what stands inside a construct, which is one level deeper. -/
structure Inside where
  dialect : Dialect
  /-- Set inside the conditions of a hierarchy, in which `PRIOR` is an operator. -/
  hierarchy : Bool
  /-- Reads an expression of operators stronger than given. -/
  operand : Nat → Parser Expr
  /-- Reads an expression among the conditions of a hierarchy. -/
  hierarchyExpr : Parser Expr
  query : Parser Query

namespace Inside

variable (g : Inside)

/-- Whether a comma may stand behind the last member of a list. -/
def trailing : Bool := g.dialect = .duckdb

/-- Reads an expression. -/
def expr : Parser Expr := g.operand 0

/-- Reads an operand of an operator of a class, on its right. -/
def operandOf (c : OperatorClass) : Parser Expr := g.operand (g.dialect.strength c)

/-- Reads expressions separated by commas. -/
def exprs : Parser (List Expr) := Parser.list g.trailing g.expr

/-- The text of the expression that is read. -/
def exprText : Parser String := Expr.print <$> g.expr

/-- The text of the expressions that are read. -/
def exprsText : Parser String := do return joined ", " (printExprs (← g.exprs))

open Sql.Parser

/-! ## Sorting -/

/-- The bounds by which missing rows are filled in, as they are written. -/
def fillText : Parser String := do
  if g.dialect = .generic then
    if ← words? ["WITH", "FILL"] then
      let first ← after? "FROM" g.exprText
      let last ← after? "TO" g.exprText
      let step ← after? "STEP" g.exprText
      return " WITH FILL" ++ optional " FROM " first ++ optional " TO " last
        ++ optional " STEP " step
    else return ""
  else return ""

/-- A term of a list of terms to sort by. -/
def orderTerm : Parser OrderTerm := do
  let e ← g.expr
  let descending ← do
    if ← word? "ASC" then pure (some false)
    else if ← word? "DESC" then pure (some true)
    else pure none
  let nullsFirst ← do
    if ← words? ["NULLS", "FIRST"] then pure (some true)
    else if ← words? ["NULLS", "LAST"] then pure (some false)
    else pure none
  return .mk e descending nullsFirst (← g.fillText)

/-- The terms to sort by. -/
def orderTerms : Parser (List OrderTerm) := list g.trailing g.orderTerm

/-- The text of the terms to sort by. -/
def orderText : Parser String := do return joined ", " (printTerms (← g.orderTerms))

/-! ## Windows -/

/-- A length of time behind the word `INTERVAL`. -/
def intervalText : Parser String := do
  let value ← if g.dialect = .mysql then g.expr else g.operand 1000
  let unit ← do
    if ← seesOneOf timeUnits then some <$> timePart g.dialect
    else if g.dialect = .mysql then fail
    else pure none
  let text := "INTERVAL " ++ value.print ++ optional " " unit
  if unit = some "SECOND" then
    if ← mark? "(" then
      let n ← natural
      let m ← if ← mark? "," then some <$> natural else pure none
      mark ")"
      return text ++ " (" ++ toString n ++ optional ", " (m.map toString) ++ ")"
    else return text
  else
    let size ← precision?
    let last ← after? "TO" (timePart g.dialect)
    let lastSize ← if last = some "SECOND" then precision? else pure ""
    let spaced (s : String) : String := if s.isEmpty then "" else " " ++ s
    return text ++ spaced size ++ optional " TO " last ++ spaced lastSize

/-- A bound of the frame of a window. -/
def frameBound : Parser String := do
  if ← words? ["CURRENT", "ROW"] then return "CURRENT ROW"
  else
    let distance ← do
      if ← word? "UNBOUNDED" then pure "UNBOUNDED"
      else match ← peek with
        | some (.text .plain _) => g.intervalText
        | _ => g.exprText
    return distance ++ " " ++ (← oneOf ["PRECEDING", "FOLLOWING"])

/-- The frame of a window. -/
def frame : Parser String := do
  let units ← oneOf ["ROWS", "RANGE", "GROUPS"]
  if ← word? "BETWEEN" then
    let first ← g.frameBound
    word "AND"
    return units ++ " BETWEEN " ++ first ++ " AND " ++ (← g.frameBound)
  else return units ++ " " ++ (← g.frameBound)

/-- A window behind its opening parenthesis. -/
def window : Parser String := do
  let base ← do
    match ← peek with
    | some (.word n) => if n.isKeyword then pure none else some <$> name
    | _ => pure none
  let partition ← afterAll? ["PARTITION", "BY"] g.exprsText
  let order ← afterAll? ["ORDER", "BY"] g.orderText
  let frame ← if ← seesMark ")" then pure none else some <$> g.frame
  mark ")"
  return "(" ++ joined " " ((base.map Name.text).toList
    ++ (partition.map ("PARTITION BY " ++ ·)).toList ++ (order.map ("ORDER BY " ++ ·)).toList
    ++ frame.toList) ++ ")"

/-! ## Arguments -/

/-- What a star can stand for, or an expression. -/
inductive Starred where
  | expr (e : Expr)
  | all
  | allOf (table : List Name)

/-- A name behind a point, in a place where a star may stand too. -/
def memberOrStar : Parser (Option Name) := do
  match ← next with
  | .word n => return some n
  | .text .plain s => return some ⟨s, some '\''⟩
  | .mark "*" => return none
  | _ => fail

/-- Names joined by points before a star, at most so many; none if there is no star at the end. -/
def starPathUpTo : Nat → Parser (Option (List Name))
  | 0 => fail
  | n + 1 => do
    if ← mark? "." then
      match ← memberOrStar with
      | none => return some []
      | some first => return (← starPathUpTo n).map (first :: ·)
    else return none

/-- A star, a table name with a star, or an expression. -/
def starred : Parser Starred := fun ts =>
  let plain : Parser Starred := Starred.expr <$> g.expr
  let starOf (first : Name) (rest : List Token) : Except ParseFault (Starred × List Token) :=
    match starPathUpTo (rest.length + 1) rest with
    | .error e => .error e
    | .ok (some names, rest) => .ok (.allOf (first :: names), rest)
    | .ok (none, _) => plain ts
  match ts with
  | .mark "*" :: rest => .ok (.all, rest)
  | .word n :: .mark "." :: rest => starOf n (.mark "." :: rest)
  | .text .plain s :: .mark "." :: rest => starOf ⟨s, some '\''⟩ (.mark "." :: rest)
  | _ => plain ts

namespace Starred

/-- What was read as an argument. -/
def toArgument : Starred → Argument
  | .expr e => .expr e
  | .all => .wildcard
  | .allOf table => .other (Name.path table ++ ".*")

/-- What was read as it is written. -/
def text : Starred → String
  | .expr e => e.print
  | .all => "*"
  | .allOf table => Name.path table ++ ".*"

end Starred

/-- An argument with a name, as it is written. -/
def namedArgument (sign : String) : Parser Argument := do
  let n ← name
  mark sign
  let value ← if sign = ":=" then g.exprText else Starred.text <$> g.starred
  return .other (n.text ++ " " ++ sign ++ " " ++ value)

/-- An argument. -/
def argument : Parser Argument := do
  let free := g.dialect = .generic || g.dialect = .duckdb
  match (← ahead).drop 1 with
  | .mark "=>" :: _ => g.namedArgument "=>"
  | .mark "=" :: _ => if free then g.namedArgument "=" else Starred.toArgument <$> g.starred
  | .mark ":=" :: _ => if free then g.namedArgument ":=" else Starred.toArgument <$> g.starred
  | _ => Starred.toArgument <$> g.starred

/-- How missing values are treated. -/
def nullTreatment? : Parser (Option String) := do
  match ← oneOf? ["RESPECT", "IGNORE"] with
  | some k => do
    word "NULLS"
    return some (k ++ " NULLS")
  | none => return none

/-- What is done with a result that is too long. -/
def overflow? : Parser (Option String) := do
  if ← words? ["ON", "OVERFLOW"] then
    if ← word? "ERROR" then return some "ON OVERFLOW ERROR"
    else
      word "TRUNCATE"
      let filler ← do
        if ← seesOneOf ["WITH", "WITHOUT"] then pure none else some <$> g.exprText
      let count ← oneOf ["WITH", "WITHOUT"]
      word "COUNT"
      return some ("ON OVERFLOW TRUNCATE" ++ optional " " filler ++ " " ++ count ++ " COUNT")
  else return none

/-- Whether arguments are distinct, or all of them. -/
def distinct? : Parser (Option Bool) := do
  if ← word? "ALL" then
    if ← seesWord "DISTINCT" then fail else return some false
  else if ← word? "DISTINCT" then return some true
  else return none

/-- The clauses behind the last argument, as they are written, and how missing values are
treated. -/
def argumentClauses : Parser (List String × Bool) := do
  let generic := g.dialect = .generic
  let nulls ← if generic then nullTreatment? else pure none
  let order ← afterAll? ["ORDER", "BY"] g.orderText
  let limit ← after? "LIMIT" g.exprText
  let having ← do
    if generic then
      after? "HAVING" do return (← oneOf ["MIN", "MAX"]) ++ " " ++ (← g.exprText)
    else pure none
  let separator ← do
    if generic || g.dialect = .mysql then after? "SEPARATOR" (Expr.print <$> value) else pure none
  let overflow ← g.overflow?
  return (nulls.toList ++ (order.map ("ORDER BY " ++ ·)).toList
    ++ (limit.map ("LIMIT " ++ ·)).toList ++ (having.map ("HAVING " ++ ·)).toList
    ++ (separator.map ("SEPARATOR " ++ ·)).toList ++ overflow.toList, nulls.isSome)

/-- The arguments behind the opening parenthesis, and whether they say how missing values are
treated. -/
def arguments : Parser (Arguments × Bool) := do
  if ← mark? ")" then return (.list none [] [], false)
  else
    let distinct ← distinct?
    let items ← list g.trailing g.argument
    let (clauses, nulls) ← g.argumentClauses
    mark ")"
    return (.list distinct items clauses, nulls)

/-! ## Calls -/

/-- What stands behind `FILTER`.  Where no condition follows, the word and its parenthesis are
passed over. -/
def filter? : Parser (Option String) := do
  if g.dialect ∈ [.postgresql, .sqlite, .duckdb] then
    if ← word? "FILTER" then
      if ← mark? "(" then
        if ← word? "WHERE" then
          let condition ← g.exprText
          mark ")"
          return some ("(WHERE " ++ condition ++ ")")
        else return none
      else return none
    else return none
  else return none

/-- What follows the arguments of a call. -/
def callTail (treated : Bool) : Parser CallTail := do
  let withinGroup ← afterAll? ["WITHIN", "GROUP"] do
    let order ← parenthesized do
      words ["ORDER", "BY"]
      g.orderText
    return "(ORDER BY " ++ order ++ ")"
  let filter ← g.filter?
  let nullTreatment ← if treated then pure none else nullTreatment?
  let window ← after? "OVER" do
    if ← mark? "(" then g.window else Name.text <$> name
  return { withinGroup, filter, nullTreatment, window }

/-- A call behind the name of the function and its opening parenthesis. -/
def callOf (function : List Name) : Parser Expr := do
  let (first, treated) ← g.arguments
  let again ← if g.dialect = .generic then mark? "(" else pure false
  if again then
    let (second, treated) ← g.arguments
    return .call function first.print second (← g.callTail treated)
  else return .call function "" first (← g.callTail treated)

/-- A call behind the name of the function. -/
def call (function : List Name) : Parser Expr := do
  mark "("
  g.callOf function

end Inside

end QueryCanvas.Sql
