import QueryCanvas.Sql.Grammar.Call

/-!
# Operands

The grammar of what can stand between operators: literals, names, calls, and the forms that begin
with a keyword.  A keyword that begins a form begins nothing else; any other word is a name.
-/

set_option autoImplicit false

namespace QueryCanvas.Sql.Inside

open Sql.Parser

variable (g : Inside)

/-! ## Forms that begin with a keyword -/

/-- The branches of `CASE` behind the first `WHEN`. -/
def branches : Parser (List String) := do
  let branch : Parser String := do
    let condition ← g.exprText
    word "THEN"
    return " WHEN " ++ condition ++ " THEN " ++ (← g.exprText)
  let first ← branch
  let others ← many (after? "WHEN" branch)
  return first :: others

/-- What follows `CASE`. -/
def caseText : Parser String := do
  let subject ← do
    if ← word? "WHEN" then pure none
    else
      let e ← g.exprText
      word "WHEN"
      pure (some e)
  let branches ← g.branches
  let other ← after? "ELSE" g.exprText
  word "END"
  return "CASE" ++ optional " " subject ++ String.join branches ++ optional " ELSE " other ++ " END"

/-- What follows a word for a cast. -/
def castText (form : String) : Parser String := parenthesized do
  let e ← g.exprText
  word "AS"
  let (type, _) ← dataType g.dialect
  let format ← after? "FORMAT" do
    let v ← value
    let zone ← afterAll? ["AT", "TIME", "ZONE"] value
    return v.print ++ optional " AT TIME ZONE " (zone.map Expr.print)
  return form ++ "(" ++ e ++ " AS " ++ type ++ optional " FORMAT " format ++ ")"

/-- What follows a word for a conversion. -/
def convertText (form : String) : Parser String := parenthesized do
  if g.dialect = .mssql then
    let (type, _) ← dataType g.dialect
    mark ","
    let e ← g.exprText
    let styles ← if ← mark? "," then some <$> g.exprsText else pure none
    return form ++ "(" ++ type ++ ", " ++ e ++ optional ", " styles ++ ")"
  else
    let e ← g.exprText
    if ← word? "USING" then return form ++ "(" ++ e ++ " USING " ++ Name.path (← path) ++ ")"
    else
      mark ","
      let (type, _) ← dataType g.dialect
      let set ← afterAll? ["CHARACTER", "SET"] path
      return form ++ "(" ++ e ++ ", " ++ type
        ++ optional " CHARACTER SET " (set.map Name.path) ++ ")"

/-- What follows `EXISTS`. -/
def existsText : Parser String := do
  let q ← parenthesized g.query
  return "EXISTS (" ++ q.print ++ ")"

/-- What follows `EXTRACT`. -/
def extractText : Parser String := parenthesized do
  let part ← timePart g.dialect
  if ← word? "FROM" then return "EXTRACT(" ++ part ++ " FROM " ++ (← g.exprText) ++ ")"
  else if g.dialect = .generic then
    mark ","
    return "EXTRACT(" ++ part ++ ", " ++ (← g.exprText) ++ ")"
  else fail

/-- What follows a word for rounding. -/
def roundText (form : String) : Parser String := parenthesized do
  let e ← g.exprText
  if ← word? "TO" then return form ++ "(" ++ e ++ " TO " ++ (← timePart g.dialect) ++ ")"
  else if ← mark? "," then
    match ← value with
    | .number digits _ => return form ++ "(" ++ e ++ ", " ++ digits ++ ")"
    | _ => fail
  else return form ++ "(" ++ e ++ ")"

/-- What follows `POSITION`: two operands with `IN` between them, or arguments. -/
def position (n : Name) : Parser Expr := do
  let found ← attempt (parenthesized do
    let e ← g.operandOf .between
    word "IN"
    return "POSITION(" ++ e.print ++ " IN " ++ (← g.exprText) ++ ")")
  match found with
  | some text => return .other text
  | none => g.call [n]

/-- What follows `SUBSTRING`. -/
def substringText : Parser String := parenthesized do
  let e ← g.exprText
  let comma ← mark? ","
  let start ← if comma then some <$> g.exprText else after? "FROM" g.exprText
  let length ← if ← mark? "," then some <$> g.exprText else after? "FOR" g.exprText
  let sign (k : String) : String := if comma then ", " else " " ++ k ++ " "
  return "SUBSTRING(" ++ e ++ optional (sign "FROM") start ++ optional (sign "FOR") length ++ ")"

/-- What follows `OVERLAY`. -/
def overlayText : Parser String := parenthesized do
  let e ← g.exprText
  word "PLACING"
  let new ← g.exprText
  word "FROM"
  let start ← g.exprText
  let length ← after? "FOR" g.exprText
  return "OVERLAY(" ++ e ++ " PLACING " ++ new ++ " FROM " ++ start ++ optional " FOR " length
    ++ ")"

/-- What follows `TRIM`. -/
def trimText : Parser String := parenthesized do
  let side ← oneOf? ["BOTH", "LEADING", "TRAILING"]
  let before := "TRIM(" ++ optional "" (side.map (· ++ " "))
  let e ← g.exprText
  if ← word? "FROM" then return before ++ e ++ " FROM " ++ (← g.exprText) ++ ")"
  else if g.dialect = .generic then
    let characters ← if ← mark? "," then some <$> g.exprsText else pure none
    return before ++ e ++ optional ", " characters ++ ")"
  else return before ++ e ++ ")"

/-- The members of an array behind the opening bracket. -/
def arrayText : Parser String := do
  let items ← listBefore g.trailing "]" g.expr
  mark "]"
  return "[" ++ joined ", " (printExprs items) ++ "]"

/-- What follows `MATCH`. -/
def matchText : Parser String := do
  let columns ← parenthesized (list g.trailing name)
  word "AGAINST"
  let against ← parenthesized do
    let v ← value
    let modifiers := [["IN", "NATURAL", "LANGUAGE", "MODE", "WITH", "QUERY", "EXPANSION"],
      ["IN", "NATURAL", "LANGUAGE", "MODE"], ["IN", "BOOLEAN", "MODE"],
      ["WITH", "QUERY", "EXPANSION"]]
    let ts ← ahead
    match modifiers.find? (areWords · ts) with
    | some ks => do
      words ks
      return v.print ++ " " ++ joined " " ks
    | none => return v.print
  return "MATCH (" ++ joined ", " (columns.map Name.text) ++ ") AGAINST (" ++ against ++ ")"

/-- What follows `STRUCT`. -/
def structText : Parser String := parenthesized do
  let field : Parser String := do
    let e ← g.exprText
    return e ++ optional " AS " ((← after? "AS" name).map Name.text)
  return "STRUCT(" ++ joined ", " (← listBefore g.trailing ")" field) ++ ")"

/-- The fields of a dictionary behind the opening brace. -/
def dictionaryText (key : Parser String) : Parser String := do
  let field : Parser String := do
    let k ← key
    mark ":"
    return k ++ ": " ++ (← g.exprText)
  let fields ← listBefore g.trailing "\x7d" field
  mark "\x7d"
  return "\x7b" ++ joined ", " fields ++ "\x7d"

/-- What follows `NOT`. -/
def notText : Parser String := do
  if ← word? "EXISTS" then return "NOT " ++ (← g.existsText)
  else return "NOT " ++ (← g.operandOf .not).print

/-- A function that is called without arguments or with them. -/
def timeFunction (n : Name) : Parser Expr := do
  if ← mark? "(" then return .call [n] "" (← g.arguments).1 .none
  else return .call [n] "" .none .none

/-! ## Names and calls -/

/-- What follows a point in an operand: a name, or a star where the dialect allows one. -/
def members : Nat → Parser (List Name × Bool)
  | 0 => fail
  | n + 1 => do
    if ← mark? "." then
      match ← memberOrStar with
      | none => if g.dialect = .postgresql then return ([], true) else fail
      | some first =>
        let (rest, star) ← members n
        return (first :: rest, star)
    else return ([], false)

/-- A column or a call that begins with the given word. -/
def columnOrCall (n : Name) : Parser Expr := do
  let (rest, star) ← g.members ((← ahead).length + 1)
  let parts := n :: rest
  if star then return .other (Name.path parts ++ ".*")
  else if ← mark? "(" then
    if g.dialect = .mssql && (← ahead).take 2 = [.mark "+", .mark ")"] then
      mark "+"
      mark ")"
      return .other (Name.path parts ++ " (+)")
    else g.callOf parts
  else return .column parts

/-- An operand that begins with a word that begins no form. -/
def named (n : Name) : Parser Expr := do
  match ← peek with
  | some (.mark "(") | some (.mark ".") => g.columnOrCall n
  | some (.text kind s) =>
    if n.value.startsWith "_" && kind ∈ [.plain, .doubleQuoted, .hex] then
      let _ ← next
      return .other (n.value ++ " " ++ writeText kind s)
    else return .column [n]
  | _ => return .column [n]

/-- An operand that begins with a word. -/
def worded (n : Name) : Parser Expr := do
  let d := g.dialect
  let form (p : Parser String) : Parser Expr := Expr.other <$> p
  let follows (s : String) : Parser Bool := seesMark s
  match n.folded with
  | "TRUE" => return .other "true"
  | "FALSE" => return .other "false"
  | "NULL" => return .null
  | "CURRENT_CATALOG" | "CURRENT_USER" | "SESSION_USER" | "USER" =>
    if d ∈ [.postgresql, .generic] then return .call [n] "" .none .none else g.named n
  | "CURRENT_TIMESTAMP" | "CURRENT_TIME" | "CURRENT_DATE" | "LOCALTIME" | "LOCALTIMESTAMP" =>
    g.timeFunction n
  | "CASE" => form g.caseText
  | "CONVERT" => form (g.convertText "CONVERT")
  | "TRY_CONVERT" =>
    if d ∈ [.generic, .mssql] then form (g.convertText "TRY_CONVERT") else g.named n
  | "CAST" => form (g.castText "CAST")
  | "TRY_CAST" => form (g.castText "TRY_CAST")
  | "SAFE_CAST" => form (g.castText "SAFE_CAST")
  | "EXISTS" => form g.existsText
  | "EXTRACT" => form g.extractText
  | "CEIL" => form (g.roundText "CEIL")
  | "FLOOR" => form (g.roundText "FLOOR")
  | "POSITION" => if ← follows "(" then g.position n else g.named n
  | "SUBSTRING" => form g.substringText
  | "OVERLAY" => form g.overlayText
  | "TRIM" => form g.trimText
  | "INTERVAL" => form g.intervalText
  | "ARRAY" =>
    if ← mark? "[" then return .other ("ARRAY" ++ (← g.arrayText))
    else if ← follows "(" then
      return .call [⟨"ARRAY", none⟩] "" (.query (← parenthesized g.query)) .none
    else g.named n
  | "NOT" => form g.notText
  | "MATCH" => if d ∈ [.mysql, .generic] then form g.matchText else g.named n
  | "STRUCT" => if d = .generic then form g.structText else g.named n
  | "PRIOR" =>
    if g.hierarchy then form (do return "PRIOR " ++ (← g.operandOf .plus).print) else g.named n
  | "MAP" =>
    if d ∈ [.duckdb, .generic] then
      if ← mark? "\x7b" then return .other ("MAP " ++ (← g.dictionaryText g.exprText))
      else g.named n
    else g.named n
  | _ => g.named n

/-! ## Operands -/

/-- A text in quotes behind the name of its type, or a length of time. -/
def typedText : Parser String := do
  match ← dataType g.dialect with
  | (_, .interval) => g.intervalText
  | (_, .custom) => fail
  | (type, .known) => return type ++ " " ++ textLiteral (← textValue g.dialect)

/-- What follows an opening parenthesis. -/
def enclosedOperand : Parser Expr := do
  let inner ← do
    if ← seesOneOf ["SELECT", "WITH"] then Expr.subquery <$> g.query
    else
      match ← g.exprs with
      | [e] => pure (.nested e)
      | es => pure (.other ("(" ++ joined ", " (printExprs es) ++ ")"))
  mark ")"
  if ← mark? "." then
    match ← next with
    | .word n => return .other (inner.print ++ "." ++ n.text)
    | _ => fail
  else return inner

/-- An operand that does not begin with the name of a type. -/
def plainOperand : Parser Expr := do
  let d := g.dialect
  match ← peek with
  | some (.word n) =>
    let _ ← next
    g.worded n
  | some (.mark "[") =>
    let _ ← next
    return .other (← g.arrayText)
  | some (.mark "-") =>
    let _ ← next
    return .signed true (← g.operandOf .times)
  | some (.mark "+") =>
    let _ ← next
    return .signed false (← g.operandOf .times)
  | some (.mark "(") =>
    let _ ← next
    g.enclosedOperand
  | some (.mark "\x7b") =>
    if d ∈ [.duckdb, .generic] then
      let _ ← next
      return .other (← g.dictionaryText (Name.text <$> name))
    else fail
  | some (.mark s) =>
    if d = .postgresql && s ∈ ["!!", "|/", "||/", "@", "~"] then
      let _ ← next
      return .other (s ++ (← g.operandOf .plus).print)
    else value
  | some (.text .escaped _) | some (.text .unicode _) =>
    if d ∈ [.postgresql, .generic] then value else fail
  | some (.number ..) | some (.text ..) | some (.placeholder _) => value
  | _ => fail

/-- An operand with its collation. -/
def plainOperandWithCollation : Parser Expr := do
  let e ← g.plainOperand
  match ← after? "COLLATE" path with
  | some collation => return .other (e.print ++ " COLLATE " ++ Name.path collation)
  | none => return e

/-- What can stand between operators. -/
def operandFirst : Parser Expr := do
  match ← attempt g.typedText with
  | some text => return .other text
  | none => g.plainOperandWithCollation

end QueryCanvas.Sql.Inside
