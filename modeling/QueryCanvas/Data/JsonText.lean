import QueryCanvas.Data.Json

/-!
# Writing JSON

A document is written on one line, or with each member on a line of its own and two blanks for
each level.  In texts only quotes, backslashes and control characters are escaped.  Doubles are
written with their fewest digits, whole ones with a point and a zero.
-/

set_option autoImplicit false

namespace QueryCanvas.Json

/-- Doubles are written out with up to sixteen places before the point and up to four zeros behind
it; beyond that they have an exponent. -/
def doubleLayout : NumberLayout :=
  { wholePlaces := some 16, leadingZeros := some 4, pointZero := true }

/-- The digit of a hexadecimal place. -/
def hexMark (n : Nat) : Char := Nat.digitChar n

/-- A character inside a written text. -/
def escape (c : Char) : List Char :=
  match c with
  | '"' => ['\\', '"']
  | '\\' => ['\\', '\\']
  | '\x08' => ['\\', 'b']
  | '\x0c' => ['\\', 'f']
  | '\n' => ['\\', 'n']
  | '\r' => ['\\', 'r']
  | '\t' => ['\\', 't']
  | c =>
    if c.toNat < 0x20 then ['\\', 'u', '0', '0', hexMark (c.toNat / 16), hexMark (c.toNat % 16)]
    else [c]

/-- A written text. -/
def quote (s : String) : List Char := '"' :: s.toList.flatMap escape ++ ['"']

/-- The break before a member at a level, in the layout with lines of their own. -/
def lineBreak (level : Nat) : List Char := '\n' :: List.replicate (2 * level) ' '

/-- Members between two marks.  `level` is none on one line. -/
def enclose (opening closing : Char) (level : Option Nat) (members : List (List Char)) :
    List Char :=
  match members, level with
  | [], _ => [opening, closing]
  | ms, none => opening :: [','].intercalate ms ++ [closing]
  | ms, some n =>
    opening :: [','].intercalate (ms.map (lineBreak (n + 1) ++ ·)) ++ lineBreak n ++ [closing]

mutual

/-- The written form of a value at a level of nesting. -/
def write (level : Option Nat) : Data → List Char
  | .null | .unusable => "null".toList
  | .bool true => "true".toList
  | .bool false => "false".toList
  | .whole n => (toString n).toList
  | .double d => (d.shortest.write doubleLayout).toList
  | .text s => quote s
  | .list items => enclose '[' ']' level (writeList (level.map (· + 1)) items)
  | .record fields => enclose '{' '}' level (writeFields (level.map (· + 1)) fields)

/-- The written members of a list. -/
def writeList (level : Option Nat) : List Data → List (List Char)
  | [] => []
  | d :: rest => write level d :: writeList level rest

/-- The written fields of a record. -/
def writeFields (level : Option Nat) : List (String × Data) → List (List Char)
  | [] => []
  | (name, d) :: rest =>
    (quote name ++ ':' :: (if level.isSome then [' '] else []) ++ write level d)
      :: writeFields level rest

end

/-- The document with every member on a line of its own. -/
def pretty (d : Data) : String := String.ofList (write (some 0) d)

/-- The document on one line. -/
def compact (d : Data) : String := String.ofList (write none d)

end QueryCanvas.Json
