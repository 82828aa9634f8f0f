import QueryCanvas.Sql.Grammar.Statement
import QueryCanvas.Sql.Lexer
import QueryCanvas.Parameter

/-!
# Parsing the text of a query

The grammar is tied together here: what stands inside a construct is read one level deeper, down to
a fixed depth.
-/

set_option autoImplicit false

namespace QueryCanvas.Sql

/-- The grammar at a depth from which so many levels are left. -/
def inside (d : Dialect) : Nat → Bool → Inside
  | 0, hierarchy =>
    { dialect := d, hierarchy, operand := fun _ _ => .error .tooDeep,
      hierarchyExpr := fun _ => .error .tooDeep, query := fun _ => .error .tooDeep }
  | n + 1, hierarchy =>
    { dialect := d, hierarchy,
      operand := fun strength ts => (inside d n hierarchy).expression strength ts,
      hierarchyExpr := fun ts => (inside d n true).expression 0 ts,
      query := fun ts => (inside d n hierarchy).wholeQuery ts }

/-- The number of levels to which statements, queries and expressions can nest. -/
def maxDepth : Nat := 50

/-- Why a text is not a query that a canvas can hold. -/
inductive ReadFault where
  /-- The text is not in the language. -/
  | malformed
  /-- The query holds something that a canvas cannot draw. -/
  | unsupported (construct : String)
  | manyStatements (count : Nat)
  | notQuery
deriving DecidableEq, Repr

namespace ReadFault

/-- The fault in words; a malformed text has none of its own. -/
def message? : ReadFault → Option String
  | .malformed => none
  | .unsupported construct => some ("Unsupported construct: " ++ construct)
  | .manyStatements count =>
    some ("Expected a single statement, found " ++ toString count)
  | .notQuery => some "Only SELECT queries can be edited on the canvas"

end ReadFault

/-- The statements of a text; none if the text is malformed. -/
def statements? (d : Dialect) (text : String) : Option (List Statement) := do
  let tokens ← tokenize? d text
  match (inside d (maxDepth - 1) false).statements tokens with
  | .ok (statements, _) => some statements
  | .error _ => none

/-- The query that a text consists of.  Parameters are read as texts in quotes. -/
def Query.parse (d : Dialect) (text : String) : Except ReadFault Query :=
  match statements? d (Parameter.mask text) with
  | none | some [] => .error .malformed
  | some [.query q] => .ok q
  | some [.other] => .error .notQuery
  | some statements => .error (.manyStatements statements.length)

end QueryCanvas.Sql
