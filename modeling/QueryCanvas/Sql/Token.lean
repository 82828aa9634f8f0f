import QueryCanvas.Sql.Dialect
import QueryCanvas.Sql.Keyword
import QueryCanvas.Text.Case
import QueryCanvas.Text.Letter

/-!
# Tokens

The pieces into which the text of a query is cut: words, numbers, texts in quotes, placeholders of
host variables, and marks.
-/

set_option autoImplicit false

namespace QueryCanvas.Sql

/-- A bare or quoted word.  The quote is the mark that opens it. -/
structure Name where
  value : String
  quote : Option Char
deriving DecidableEq, Repr, Inhabited

/-- The kinds of texts in quotes. -/
inductive TextKind where
  | plain
  | doubleQuoted
  /-- With a prefix `E`. -/
  | escaped
  /-- With a prefix `U&`. -/
  | unicode
  /-- With a prefix `N`. -/
  | national
  /-- With a prefix `X` or as a number with the prefix `0x`. -/
  | hex
  /-- With a prefix `B`, in either quotes. -/
  | bytes | doubleBytes
  /-- With a prefix `R`, in either quotes. -/
  | raw | doubleRaw
  /-- Between dollar signs, which may have a tag between them. -/
  | dollar (tag : String)
deriving DecidableEq, Repr

/-- A piece of the text of a query. -/
inductive Token where
  | word (name : Name)
  /-- A number with its written digits; it may be marked as long. -/
  | number (digits : String) (long : Bool)
  | text (kind : TextKind) (value : String)
  | placeholder (written : String)
  /-- A mark of the language. -/
  | mark (s : String)
  /-- An operator made up of further operator characters. -/
  | custom (s : String)
  /-- A character that no piece can begin with. -/
  | unknown (c : Char)
deriving DecidableEq, Repr

namespace Name

/-- A bare word. -/
def bare (s : String) : Name := ⟨s, none⟩

/-- The form in which a word is compared with keywords; empty for a quoted word. -/
def folded (n : Name) : String :=
  match n.quote with
  | none => Text.capitals n.value
  | some _ => ""

/-- Whether the word is a keyword. -/
def isKeyword (n : Name) : Bool := Keyword.all.contains n.folded

end Name

namespace Dialect

/-- The characters that a bare word can begin with. -/
def startsWord (d : Dialect) (c : Char) : Bool :=
  Text.isLetter c || c == '_' ||
    match d with
    | generic | mssql => c == '#' || c == '@'
    | mysql => c == '$' || c == '@' || (0x80 ≤ c.toNat && c.toNat ≤ 0xffff)
    | sqlite => c == '$' || (0x7f ≤ c.toNat && c.toNat ≤ 0xffff)
    | postgresql | duckdb => false

/-- The characters that a bare word can go on with. -/
def continuesWord (d : Dialect) (c : Char) : Bool :=
  d.startsWord c || c.isDigit ||
    match d with
    | generic | mssql | postgresql | duckdb => c == '$'
    | mysql | sqlite => false

/-- The marks that open a quoted word. -/
def quotesWord (d : Dialect) (c : Char) : Bool :=
  match d with
  | generic | duckdb => c == '"' || c == '`'
  | postgresql => c == '"'
  | mysql => c == '`'
  | sqlite => c == '"' || c == '`' || c == '['
  | mssql => c == '"' || c == '['

/-- Whether a backslash in a text stands for the character after it. -/
def hasBackslash (d : Dialect) : Bool := d = mysql

/-- The characters that extend an operator to an operator of one's own. -/
def extendsOperator (d : Dialect) (c : Char) : Bool :=
  d = postgresql && "+-*/<>=~!@#%^&|`?".toList.contains c

end Dialect

/-- The mark that closes what a mark opens. -/
def closingMark (c : Char) : Char := if c == '[' then ']' else c

end QueryCanvas.Sql
