import QueryCanvas.Sql.Grammar.Queries

/-!
# Statements

The grammar of statements.  Of a statement that is no query it is only kept that it is there.
-/

set_option autoImplicit false

namespace QueryCanvas.Sql

/-- A statement. -/
inductive Statement where
  | query (q : Query)
  | other

namespace Inside

open Sql.Parser

variable (g : Inside)

/-! ## Definitions -/

/-- Takes what a parser reads and forgets it. -/
def skip {α : Type} (p : Parser α) : Parser Unit := do
  let _ ← p

/-- The condition that something is there, or is not. -/
def ifExists (negated : Bool) : Parser Unit :=
  skip (words? (if negated then ["IF", "NOT", "EXISTS"] else ["IF", "EXISTS"]))

/-- What is done with rows that refer to a changed row. -/
def referenceAction? : Parser (Option Unit) := do
  if (← words? ["ON", "DELETE"]) || (← words? ["ON", "UPDATE"]) then
    if ← words? ["SET", "NULL"] then return some ()
    else if ← words? ["SET", "DEFAULT"] then return some ()
    else if ← words? ["NO", "ACTION"] then return some ()
    else
      skip (oneOf ["RESTRICT", "CASCADE"])
      return some ()
  else return none

/-- What follows `REFERENCES`. -/
def reference : Parser Unit := do
  skip path
  skip (names? g.trailing)
  skip (many referenceAction?)

/-- An option of a column. -/
def columnOption? : Parser (Option Unit) := do
  let found {α : Type} (p : Parser α) : Parser (Option Unit) := do
    let _ ← p
    return some ()
  if ← word? "CONSTRAINT" then skip name
  if ← words? ["NOT", "NULL"] then return some ()
  else if ← word? "NULL" then return some ()
  else if ← words? ["CHARACTER", "SET"] then found path
  else if ← word? "COLLATE" then found path
  else if ← word? "COMMENT" then found (textValue g.dialect)
  else if ← word? "DEFAULT" then found g.expr
  else if ← words? ["PRIMARY", "KEY"] then return some ()
  else if ← word? "UNIQUE" then return some ()
  else if ← word? "REFERENCES" then found g.reference
  else if ← word? "CHECK" then found (parenthesized g.expr)
  else if g.dialect ∈ [.mysql, .generic] && (← word? "AUTO_INCREMENT") then return some ()
  else if g.dialect ∈ [.sqlite, .generic] && (← word? "AUTOINCREMENT") then return some ()
  else return none

/-- A column of a new table. -/
def columnDefinition : Parser Unit := do
  skip name
  if g.dialect = .sqlite then skip (attempt (dataType g.dialect))
  else skip (dataType g.dialect)
  skip (many g.columnOption?)

/-- A constraint or a column of a new table. -/
def tableElement : Parser Unit := do
  if ← word? "CONSTRAINT" then
    skip name
    if ← word? "CHECK" then skip (parenthesized g.expr)
    else if ← words? ["PRIMARY", "KEY"] then skip (names g.trailing)
    else if ← word? "UNIQUE" then skip (names g.trailing)
    else
      words ["FOREIGN", "KEY"]
      skip (names g.trailing)
      word "REFERENCES"
      g.reference
  else if ← words? ["PRIMARY", "KEY"] then skip (names g.trailing)
  else if ← words? ["FOREIGN", "KEY"] then
    skip (names g.trailing)
    word "REFERENCES"
    g.reference
  else if ← word? "CHECK" then skip (parenthesized g.expr)
  else if ← word? "UNIQUE" then skip (names g.trailing)
  else g.columnDefinition

/-- What follows `CREATE`. -/
def creation : Parser Unit := do
  skip (words? ["OR", "REPLACE"])
  skip (oneOf? ["LOCAL", "GLOBAL"])
  skip (oneOf? ["TEMP", "TEMPORARY"])
  if ← word? "TABLE" then
    ifExists true
    skip path
    if ← seesMark "(" then skip (parenthesized (listBefore g.trailing ")" g.tableElement))
    if ← word? "AS" then skip g.query
  else if (← word? "VIEW") || (← words? ["MATERIALIZED", "VIEW"]) then
    ifExists true
    skip path
    skip (names? g.trailing)
    word "AS"
    skip g.query
  else if (← word? "INDEX") || (← words? ["UNIQUE", "INDEX"]) then
    ifExists true
    if !(← seesWord "ON") then skip path
    word "ON"
    skip path
    skip (parenthesized g.orderTerms)
  else
    skip (oneOf ["SCHEMA", "DATABASE"])
    ifExists true
    skip path

/-- What follows `DROP`. -/
def removal : Parser Unit := do
  skip (oneOf? ["TEMP", "TEMPORARY"])
  skip (oneOf ["TABLE", "VIEW", "INDEX", "ROLE", "SCHEMA", "DATABASE", "SEQUENCE", "STAGE", "TYPE"])
  ifExists false
  skip (list g.trailing path)
  skip (oneOf? ["CASCADE", "RESTRICT"])
  skip (word? "PURGE")

/-- A change of a table. -/
def tableChange : Parser Unit := do
  if ← word? "ADD" then
    skip (word? "COLUMN")
    ifExists true
    g.tableElement
  else if ← word? "DROP" then
    skip (oneOf? ["COLUMN", "CONSTRAINT"])
    ifExists false
    skip name
    skip (oneOf? ["CASCADE", "RESTRICT"])
  else if ← words? ["RENAME", "TO"] then skip path
  else
    word "RENAME"
    skip (word? "COLUMN")
    skip name
    word "TO"
    skip name

/-! ## Statements -/

/-- A variable that is set, behind `SET`. -/
def setting : Parser Unit := do
  skip (oneOf? ["SESSION", "LOCAL"])
  skip path
  if !(← mark? "=") then word "TO"
  skip g.exprs

/-- A statement that is no query and that the given keyword begins. -/
def command (keyword : String) : Parser Unit := do
  match keyword with
  | "INSERT" => g.insertion
  | "REPLACE" => if g.dialect ∈ [.mysql, .generic, .sqlite] then g.insertion else fail
  | "UPDATE" => g.updating
  | "DELETE" => g.deletion
  | "CREATE" => g.creation
  | "DROP" => g.removal
  | "ALTER" =>
    word "TABLE"
    ifExists false
    skip (word? "ONLY")
    skip path
    skip (list g.trailing g.tableChange)
  | "TRUNCATE" =>
    skip (word? "TABLE")
    skip (list g.trailing path)
  | "SET" => g.setting
  | "SHOW" => skip (many do
      match ← peek with
      | some (.word _) => some <$> name
      | _ => return none)
  | "USE" => skip path
  | "BEGIN" => skip (oneOf? ["TRANSACTION", "WORK"])
  | "START" => word "TRANSACTION"
  | "COMMIT" | "ROLLBACK" =>
    skip (oneOf? ["TRANSACTION", "WORK"])
    if keyword = "ROLLBACK" && (← word? "TO") then
      skip (word? "SAVEPOINT")
      skip name
  | "SAVEPOINT" => skip name
  | "RELEASE" =>
    skip (word? "SAVEPOINT")
    skip name
  | "CALL" =>
    let function ← path
    if ← seesMark "(" then skip (g.call function)
  | "PRAGMA" =>
    skip path
    if ← mark? "(" then
      skip value
      mark ")"
    else if ← mark? "=" then skip value
  | _ => fail

/-- A statement that is not explained. -/
def plainStatement : Parser Statement := do
  match ← peek with
  | some (.mark "(") => .query <$> g.query
  | some (.word n) =>
    match n.folded with
    | "SELECT" | "WITH" | "VALUES" => .query <$> g.query
    | k => do
      skip next
      g.command k
      return .other
  | _ => fail

/-- A statement. -/
def statement : Parser Statement := do
  if (← oneOf? ["EXPLAIN", "DESCRIBE", "DESC"]).isSome then
    skip (word? "ANALYZE")
    skip (word? "VERBOSE")
    match ← attempt g.plainStatement with
    | some _ => return .other
    | none => do
      skip (word? "TABLE")
      skip path
      return .other
  else g.plainStatement

/-- Statements with semicolons between them, at most so many.  The word `END` behind a statement
ends the text. -/
def statementsUpTo : Nat → Bool → Parser (List Statement)
  | 0, _ => fail
  | n + 1, afterStatement => do
    if ← mark? ";" then statementsUpTo n false
    else
      match ← peek with
      | none => return []
      | some t =>
        if afterStatement then
          if t.isWord "END" then return [] else fail
        else
          let s ← g.statement
          return s :: (← statementsUpTo n true)

/-- The statements of a text. -/
def statements : Parser (List Statement) := fun ts => g.statementsUpTo (ts.length + 2) false ts

end Inside

end QueryCanvas.Sql
