import QueryCanvas.Sql.Grammar.Operand

/-!
# Expressions

The grammar of expressions: an operand, followed by operators with their operands.  All operators
group to the left.
-/

set_option autoImplicit false

namespace QueryCanvas.Sql.Inside

open Sql.Parser

variable (g : Inside)

/-! ## What follows an operand -/

/-- A query without parentheses, if one begins here. -/
def bareQuery? : Parser (Option Query) := do
  if ← seesOneOf ["SELECT", "WITH"] then some <$> g.query else return none

/-- The members of a group behind `ANY` and the like, as they are written.  A query in parentheses
is an operand of its own, to which stronger operators may follow. -/
def groupText (strength : Nat) : Parser String := do
  match ← ahead with
  | .mark "(" :: t :: _ =>
    if t.isWord "SELECT" || t.isWord "WITH" then
      match ← g.operand strength with
      | .subquery q => return (Expr.subquery q).print
      | e => return "(" ++ e.print ++ ")"
    else parenthesized do return "(" ++ (← g.operand strength).print ++ ")"
  | _ => fail

/-- The right side of an operator: an operand, or for comparisons the members of a group. -/
def rightSide (left : Expr) (op : Operator) (strength : Nat) : Parser Expr := do
  match ← oneOf? ["ANY", "ALL", "SOME"] with
  | none => return .binary left op (← g.operand strength)
  | some quantifier =>
    let group ← g.groupText strength
    match op with
    | .compare _ => return .other (left.print ++ " " ++ op.text ++ " " ++ quantifier ++ group)
    | _ => fail

/-- What follows `IS`. -/
def tested (left : Expr) : Parser Expr := do
  let other (text : String) : Expr := .other (left.print ++ text)
  let negated ← word? "NOT"
  if ← word? "NULL" then return .test left (if negated then .isNotNull else .isNull)
  else if ← word? "TRUE" then
    return if negated then other " IS NOT TRUE" else .test left .isTrue
  else if ← word? "FALSE" then
    return if negated then other " IS NOT FALSE" else .test left .isFalse
  else if ← word? "UNKNOWN" then
    return other (if negated then " IS NOT UNKNOWN" else " IS UNKNOWN")
  else
    words ["DISTINCT", "FROM"]
    return other ((if negated then " IS NOT DISTINCT FROM " else " IS DISTINCT FROM ")
      ++ (← g.exprText))

/-- The character behind `ESCAPE` that takes the meaning from the next one. -/
def escape? : Parser (Option String) := after? "ESCAPE" (textValue g.dialect)

/-- What follows `LIKE` or `ILIKE`. -/
def likened (left : Expr) (anyCase negated : Bool) : Parser Expr := do
  let any ← word? "ANY"
  let pattern ← g.operandOf .like
  return .like anyCase negated any left pattern (← g.escape?)

/-- What follows `IN`. -/
def member (left : Expr) (negated : Bool) : Parser Expr := do
  if ← word? "UNNEST" then
    let e ← parenthesized g.exprText
    return .other (left.print ++ " " ++ flag negated "NOT " ++ "IN UNNEST(" ++ e ++ ")")
  else parenthesized do
    match ← g.bareQuery? with
    | some q => return .inQuery left negated q
    | none =>
      if g.dialect = .sqlite then
        return .inList left negated (← listBefore g.trailing ")" g.expr)
      else return .inList left negated (← g.exprs)

/-- What follows an operand as a test with a keyword, which may be negated. -/
def compared (left : Expr) : Parser Expr := do
  let negated ← word? "NOT"
  let text (form : String) : Parser Expr := do
    return .other (left.print ++ " " ++ flag negated "NOT " ++ form ++ " "
      ++ (← g.operandOf .like).print)
  match ← oneOf ["REGEXP", "RLIKE", "IN", "BETWEEN", "LIKE", "ILIKE", "SIMILAR"] with
  | "IN" => g.member left negated
  | "BETWEEN" =>
    let low ← g.operandOf .between
    word "AND"
    return .between left negated low (← g.operandOf .between)
  | "LIKE" => g.likened left false negated
  | "ILIKE" => g.likened left true negated
  | "SIMILAR" =>
    word "TO"
    let e ← text "SIMILAR TO"
    match ← g.escape? with
    | some c => return .other (e.print ++ " ESCAPE '" ++ c ++ "'")
    | none => return e
  | form => text form

/-- What follows an opening bracket: an index, or the bounds of a range. -/
def subscript (left : Expr) : Parser Expr := do
  let lower ← if ← mark? ":" then pure none else some <$> g.exprText
  let opening := left.print ++ "[" ++ optional "" lower
  if lower.isSome && (← mark? "]") then return .other (opening ++ "]")
  else
    if lower.isSome then mark ":"
    let close (s : String) : Expr := .other (opening ++ ":" ++ s ++ "]")
    if ← mark? "]" then return close ""
    else
      let upper ← g.exprText
      if ← mark? "]" then return close upper
      else
        mark ":"
        if ← mark? "]" then return close (upper ++ ":")
        else
          let stride ← g.exprText
          mark "]"
          return close (upper ++ ":" ++ stride)

/-- The keys behind an opening bracket in a dialect with maps. -/
def mapKeys (left : Expr) : Parser Expr := do
  let first ← g.exprText
  mark "]"
  let others ← many do
    if ← mark? "[" then
      let e ← g.exprText
      mark "]"
      return some ("[" ++ e ++ "]")
    else if ← mark? "." then return some ("." ++ (← g.exprText))
    else return none
  return .other (left.print ++ "[" ++ first ++ "]" ++ String.join others)

/-- The name of an operator of one's own in parentheses. -/
def ownOperator : Parser String := parenthesized do
  let part : Parser String := do
    match ← next with
    | .word n => return n.text
    | .mark s | .custom s => return s
    | _ => fail
  let first ← part
  let others ← many do
    if ← mark? "." then return some (← part) else return none
  return "OPERATOR(" ++ joined "." (first :: others) ++ ")"

/-- What follows a mark that is an operator. -/
def markedOperator (left : Expr) (s : String) (strength : Nat) : Parser Expr := do
  match g.dialect.markOperator? s with
  | some op => g.rightSide left op strength
  | none =>
    match s with
    | "::" => return .other (left.print ++ "::" ++ (← dataType g.dialect).1)
    | "!" => return .other (left.print ++ "!")
    | "[" =>
      if g.dialect ∈ [.postgresql, .duckdb, .generic] then g.subscript left else g.mapKeys left
    | _ => fail

/-- What follows a keyword that is an operator. -/
def wordedOperator (left : Expr) (keyword : String) (strength : Nat) : Parser Expr := do
  match keyword with
  | "AND" => g.rightSide left .and strength
  | "OR" => g.rightSide left .or strength
  | "XOR" => g.rightSide left (.other "XOR") strength
  | "OPERATOR" =>
    if g.dialect ∈ [.postgresql, .generic] then
      g.rightSide left (.other (← ownOperator)) strength
    else fail
  | "IS" => g.tested left
  | "AT" =>
    words ["TIME", "ZONE"]
    return .other (left.print ++ " AT TIME ZONE " ++ (← g.operand strength).print)
  | "DIV" => if g.dialect = .mysql then return .binary left (.other "DIV") (← g.expr) else fail
  | _ => fail

/-- An operator of the given strength with what follows it. -/
def continued (left : Expr) (strength : Nat) : Parser Expr := do
  if ← seesOneOf ["NOT", "IN", "BETWEEN", "LIKE", "ILIKE", "SIMILAR", "REGEXP", "RLIKE"] then
    g.compared left
  else match ← next with
    | .mark s => g.markedOperator left s strength
    | .custom s => g.rightSide left (.other s) strength
    | .word n => g.wordedOperator left n.folded strength
    | _ => fail

/-! ## Expressions -/

/-- Goes on with an expression while an operator stronger than given follows, for at most so many
operators. -/
def climb (strength : Nat) : Nat → Expr → Parser Expr
  | 0, _ => fail
  | n + 1, left => do
    let following := g.dialect.nextStrength (← ahead)
    if following ≤ strength then return left
    else climb strength n (← g.continued left following)

/-- An expression of operators stronger than given. -/
def expression (strength : Nat) : Parser Expr := do
  let first ← g.operandFirst
  g.climb strength ((← ahead).length + 1) first

end QueryCanvas.Sql.Inside
