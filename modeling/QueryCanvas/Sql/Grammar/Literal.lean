import QueryCanvas.Sql.Parser
import QueryCanvas.Number.Decimal

/-!
# Names, literals and data types

The parts of queries without queries or expressions inside.
-/

set_option autoImplicit false

namespace QueryCanvas.Sql

namespace Parser

/-! ## Names -/

/-- A name: any word, or a text in quotes. -/
def name : Parser Name := do
  match ← next with
  | .word n => return n
  | .text .plain s => return ⟨s, some '\''⟩
  | .text .doubleQuoted s => return ⟨s, some '"'⟩
  | _ => fail

/-- Names joined by points, at most so many. -/
def pathUpTo : Nat → Parser (List Name)
  | 0 => fail
  | n + 1 => do
    let first ← name
    if ← mark? "." then return first :: (← pathUpTo n) else return [first]

/-- Names joined by points. -/
def path : Parser (List Name) := fun ts => pathUpTo (ts.length + 1) ts

/-- An alias, if there is one.  Without `AS` the reserved words are none. -/
def alias? (reserved : List String) : Parser (Option Name) := do
  if ← word? "AS" then return some (← name)
  else
    match ← peek with
    | some (.word n) => if reserved.contains n.folded then return none else return some (← name)
    | some (.text .plain _) | some (.text .doubleQuoted _) => return some (← name)
    | _ => return none

/-- Names in parentheses. -/
def names (trailing : Bool) : Parser (List Name) := parenthesized (list trailing name)

/-- Names in parentheses, if there is a parenthesis. -/
def names? (trailing : Bool) : Parser (List Name) := do
  if ← seesMark "(" then names trailing else return []

/-- An alias of a table, if there is one. -/
def tableAlias? (trailing : Bool) : Parser (Option Alias) := do
  match ← alias? Keyword.noTableAlias with
  | some n => return some { name := n, columns := ← names? trailing }
  | none => return none

/-! ## Literals -/

/-- The value of a text in quotes with escapes, written with escapes. -/
def escapedText (s : String) : String :=
  String.ofList (s.toList.flatMap fun c =>
    match c with
    | '\'' => ['\\', '\'']
    | '\\' => ['\\', '\\']
    | '\n' => ['\\', 'n']
    | '\t' => ['\\', 't']
    | '\r' => ['\\', 'r']
    | c => [c])

/-- The hexadecimal digits of a number in upper case, filled up with zeros. -/
def upperHex (width n : Nat) : List Char :=
  let ds := (Nat.toDigits 16 n).map Char.toUpper
  List.replicate (width - ds.length) '0' ++ ds

/-- The value of a text with code points, written with code points. -/
def unicodeText (s : String) : String :=
  String.ofList (s.toList.flatMap fun c =>
    if c == '\'' then ['\'', '\'']
    else if c == '\\' then ['\\', '\\']
    else if c.toNat < 0x80 then [c]
    else if c.toNat ≤ 0xffff then '\\' :: upperHex 4 c.toNat
    else '\\' :: '+' :: upperHex 6 c.toNat)

/-- A text as it is written. -/
def writeText (kind : TextKind) (s : String) : String :=
  match kind with
  | .plain => textLiteral s
  | .doubleQuoted => enclosed '"' s
  | .escaped => "E'" ++ escapedText s ++ "'"
  | .unicode => "U&'" ++ unicodeText s ++ "'"
  | .national => "N'" ++ s ++ "'"
  | .hex => "X'" ++ s ++ "'"
  | .bytes => "B'" ++ s ++ "'"
  | .doubleBytes => "B\"" ++ s ++ "\""
  | .raw => "R'" ++ s ++ "'"
  | .doubleRaw => "R\"" ++ s ++ "\""
  | .dollar tag => "$" ++ tag ++ "$" ++ s ++ "$" ++ tag ++ "$"

/-- A literal value. -/
def value : Parser Expr := do
  match ← next with
  | .number digits long => return .number digits long
  | .text .plain s => return .text s
  | .text kind s => return .other (writeText kind s)
  | .placeholder s => return .other s
  | .mark s =>
    if s = ":" || s = "@" then
      match ← next with
      | .word n => return .other (s ++ n.value)
      | .number digits false => return .other (s ++ digits)
      | _ => fail
    else fail
  | .word n =>
    match n.folded with
    | "TRUE" => return .other "true"
    | "FALSE" => return .other "false"
    | "NULL" => return .null
    | _ =>
      match n.quote with
      | some '"' => return .other (enclosed '"' n.value)
      | some '\'' => return .text n.value
      | _ => fail
  | _ => fail

/-- A literal that is a text; a word that is no keyword stands for one too. -/
def textValue (d : Dialect) : Parser String := do
  match ← next with
  | .word n => if n.isKeyword then fail else return n.value
  | .text .plain s | .text .doubleQuoted s | .text .unicode s => return s
  | .text .escaped s => if d = .postgresql || d = .generic then return s else fail
  | _ => fail

/-- A whole number of 64 bits. -/
def natural : Parser Nat := do
  match ← next with
  | .number digits _ =>
    let cs := digits.toList
    if cs.all Char.isDigit && Decimal.digitsValue cs < UInt64.size then
      return Decimal.digitsValue cs
    else fail
  | _ => fail

/-- A number in parentheses as it is written, if there is one. -/
def precision? : Parser String := do
  if ← mark? "(" then
    let n ← natural
    mark ")"
    return "(" ++ toString n ++ ")"
  else return ""

/-! ## Data types -/

/-- What a parsed data type is. -/
inductive TypeKind where
  | known | interval | custom
deriving DecidableEq, Repr

/-- Types with a name only. -/
def plainTypes : List String :=
  ["BOOLEAN", "BOOL", "REAL", "FLOAT4", "FLOAT32", "FLOAT64", "FLOAT8", "INT16", "INT32", "INT64",
   "INT128", "INT256", "UINT8", "UINT16", "UINT32", "UINT64", "UINT128", "UINT256", "UUID", "DATE",
   "DATE32", "JSON", "JSONB", "REGCLASS", "TEXT", "BYTEA", "TRIGGER"]

/-- Types with an optional number in parentheses. -/
def sizedTypes : List String :=
  ["FLOAT", "CLOB", "BINARY", "VARBINARY", "BLOB", "BYTES", "DATETIME", "TIMESTAMPTZ", "TIMETZ",
   "STRING"]

/-- Types of whole numbers, which may be unsigned. -/
def wholeTypes : List String :=
  ["TINYINT", "INT2", "SMALLINT", "MEDIUMINT", "INT", "INT4", "INT8", "INTEGER", "BIGINT"]

/-- Types of decimal numbers with an optional precision and scale. -/
def decimalTypes : List String := ["NUMERIC", "DECIMAL", "DEC", "BIGNUMERIC", "BIGDECIMAL"]

/-- The length of a text type as it is written, if there is one. -/
def textLength? : Parser String := do
  if ← mark? "(" then
    if ← word? "MAX" then
      mark ")"
      return "(MAX)"
    else
      let n ← natural
      let unit ← oneOf? ["CHARACTERS", "OCTETS"]
      mark ")"
      return "(" ++ toString n ++ optional " " unit ++ ")"
  else return ""

/-- Precision and scale as they are written, if there are any. -/
def scale? : Parser String := do
  if ← mark? "(" then
    let n ← natural
    let m ← if ← mark? "," then some <$> natural else pure none
    mark ")"
    return "(" ++ toString n ++ optional "," (m.map toString) ++ ")"
  else return ""

/-- The time zone of a type of times as it is written, if there is one. -/
def zone? : Parser String := do
  if ← word? "WITH" then
    words ["TIME", "ZONE"]
    return " WITH TIME ZONE"
  else if ← word? "WITHOUT" then
    words ["TIME", "ZONE"]
    return " WITHOUT TIME ZONE"
  else return ""

/-- The modifiers of a custom type, in parentheses. -/
def modifiers : Parser (List String) := do
  let items ← many do
    match ← peek with
    | some (.word n) => do let _ ← next; return some [n.text]
    | some (.number digits _) => do let _ ← next; return some [digits]
    | some (.text .plain s) => do let _ ← next; return some [s]
    | some (.mark ",") => do let _ ← next; return some []
    | _ => return none
  mark ")"
  return items.flatten

/-- A custom type: a name, which may have modifiers. -/
def customType : Parser String := do
  let n ← path
  if ← mark? "(" then return Name.path n ++ "(" ++ joined ", " (← modifiers) ++ ")"
  else return Name.path n

/-- Texts in parentheses as they are written. -/
def texts : Parser String := do
  let items ← parenthesized (list false (do
    match ← next with
    | .text .plain s => return s
    | _ => fail))
  return "(" ++ joined ", " (items.map textLiteral) ++ ")"

/-- A type of characters behind its first word. -/
def characterType (first : String) : Parser String := do
  if ← word? "VARYING" then return first ++ " VARYING" ++ (← textLength?)
  else if ← words? ["LARGE", "OBJECT"] then return first ++ " LARGE OBJECT" ++ (← precision?)
  else return first ++ (← textLength?)

/-- A data type without the brackets of an array type, given a parser of the types inside. -/
def baseType (inner : Parser String) : Parser (String × TypeKind) := do
  match ← peek with
  | some (.word n) =>
    let known (p : Parser String) : Parser (String × TypeKind) := do
      let _ ← next
      return (← p, .known)
    let k := n.folded
    if plainTypes.contains k then known (return k)
    else if sizedTypes.contains k then known (return k ++ (← precision?))
    else if decimalTypes.contains k then known (return k ++ (← scale?))
    else if wholeTypes.contains k then
      known do
        let size ← precision?
        return k ++ size ++ flag (← word? "UNSIGNED") " UNSIGNED"
    else match k with
      | "DOUBLE" => known (return k ++ flag (← word? "PRECISION") " PRECISION")
      | "VARCHAR" | "NVARCHAR" => known (return k ++ (← textLength?))
      | "CHARACTER" | "CHAR" => known (characterType k)
      | "TIMESTAMP" | "TIME" =>
        known do
          let size ← precision?
          return k ++ size ++ (← zone?)
      | "ENUM" | "SET" => known (return k ++ (← texts))
      | "INTERVAL" => do
        let _ ← next
        return (k, .interval)
      | "ARRAY" =>
        known do
          mark "<"
          let t ← inner
          mark ">"
          return "ARRAY<" ++ t ++ ">"
      | _ => return (← customType, .custom)
  | _ => fail

/-- The brackets of an array type as they are written. -/
def arrayBrackets (d : Dialect) : Parser String := do
  let brackets ← many do
    if ← mark? "[" then
      let size ← if d ∈ [.generic, .duckdb, .postgresql] then attempt natural else pure none
      mark "]"
      return some ("[" ++ optional "" (size.map toString) ++ "]")
    else return none
  return String.join brackets

/-- A data type in which types nest at most so deep. -/
def dataTypeUpTo (d : Dialect) : Nat → Parser (String × TypeKind)
  | 0 => fail
  | n + 1 => do
    let (t, kind) ← baseType (Prod.fst <$> dataTypeUpTo d n)
    let brackets ← arrayBrackets d
    return (t ++ brackets, if brackets.isEmpty then kind else .known)

/-- A data type. -/
def dataType (d : Dialect) : Parser (String × TypeKind) := fun ts =>
  dataTypeUpTo d (ts.length + 1) ts

/-! ## Units of time -/

/-- The words that are units of time. -/
def timeUnits : List String :=
  ["YEAR", "YEARS", "MONTH", "MONTHS", "WEEK", "WEEKS", "DAY", "DAYS", "HOUR", "HOURS", "MINUTE",
   "MINUTES", "SECOND", "SECONDS", "CENTURY", "DECADE", "DOW", "DOY", "EPOCH", "ISODOW",
   "ISOYEAR", "JULIAN", "MICROSECOND", "MICROSECONDS", "MILLENIUM", "MILLENNIUM", "MILLISECOND",
   "MILLISECONDS", "NANOSECOND", "NANOSECONDS", "QUARTER", "TIMEZONE", "TIMEZONE_HOUR",
   "TIMEZONE_MINUTE"]

/-- The words that name a part of a moment, besides the units of time. -/
def timeParts : List String :=
  ["DAYOFWEEK", "DAYOFYEAR", "DATE", "DATETIME", "ISOWEEK", "TIME", "TIMEZONE_ABBR",
   "TIMEZONE_REGION"]

/-- The name of a part of a moment. -/
def timePart (d : Dialect) : Parser String := do
  match ← next with
  | .word n =>
    if timeUnits.contains n.folded || timeParts.contains n.folded then return n.folded
    else if d = .generic || d = .postgresql then return n.text
    else fail
  | .text .plain s => if d = .generic || d = .postgresql then return textLiteral s else fail
  | _ => fail

end Parser

end QueryCanvas.Sql
