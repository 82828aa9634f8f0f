import QueryCanvas.Number.Decimal
import QueryCanvas.Parameter

/-!
# Names and values as they are written in a query

A plain word is written as it is; every other name stands between double quotes, with the quotes
in it doubled.  A value that is a number or a template parameter is written as it is; every other
value stands between single quotes, again with the quotes in it doubled.
-/

set_option autoImplicit false

namespace QueryCanvas.Sql

/-- A text between two marks, with the marks in it doubled. -/
def quoted (mark : Char) (s : String) : String :=
  let inner := s.toList.flatMap fun c => if c = mark then [mark, mark] else [c]
  String.ofList (mark :: inner ++ [mark])

/-- Whether a name can be written without quotes. -/
def isPlainName (s : String) : Bool :=
  s.toList.head?.any Parameter.isNameStart && s.toList.all Parameter.isNamePart

/-- A name as it is written in a query. -/
def quoteName (s : String) : String := if isPlainName s then s else quoted '"' s

/-- A name with points in it, each part written as a name of its own. -/
def quotePath (s : String) : String :=
  ".".intercalate ((Text.splitAt '.' s).map quoteName)

/-- A column of a table as it is written throughout a canvas. -/
def columnRef (table column : String) : String := quotePath table ++ "." ++ quoteName column

/-- Whether a value is the numeral of a finite double. -/
def isNumber (s : String) : Bool := ((Decimal.read? s.toList).bind Decimal.toDouble?).isSome

/-- A value as it is written in a query. -/
def formatValue (s : String) : String :=
  if Parameter.isParameter s || isNumber s then s else quoted '\'' s

end QueryCanvas.Sql
