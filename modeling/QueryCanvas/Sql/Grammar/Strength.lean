import QueryCanvas.Sql.Parser

/-!
# How tightly operators bind

An expression is read by the strength of the operators in it: what stands between two operators
belongs to the stronger one, and to the left one if both are equally strong.
-/

set_option autoImplicit false

namespace QueryCanvas.Sql

/-- The classes of operators that differ in strength. -/
inductive OperatorClass where
  | or | and | not
  /-- The tests with `IS`. -/
  | is
  | like | compare
  /-- The tests `BETWEEN` and `IN`. -/
  | between
  /-- Operators on documents, and operators of one's own. -/
  | arrow
  | pipe
  /-- The operators `^` and `#` and the shifts. -/
  | caret
  | ampersand
  | xor | plus | times
  /-- The words `AT TIME ZONE`. -/
  | zone
  | collate
  /-- A subscript. -/
  | subscript
  /-- A cast with `::`. -/
  | cast
  /-- The operators `!`, `&&` and `^@`. -/
  | bang
deriving DecidableEq, Repr

/-- The strength of an operator class; the weakest has the least number above 0. -/
def Dialect.strength (d : Dialect) (c : OperatorClass) : Nat :=
  if d = postgresql then
    match c with
    | .or => 10 | .and => 20 | .not => 30 | .is => 40 | .compare => 50
    | .like | .between => 60
    | .arrow | .pipe | .caret | .ampersand | .bang => 70
    | .xor => 75 | .plus => 80 | .times => 90 | .zone => 110 | .collate => 120
    | .subscript => 130 | .cast => 140
  else
    match c with
    | .or => 5 | .and => 10 | .not => 15 | .arrow => 16 | .is => 17 | .like => 19
    | .compare | .between => 20
    | .pipe => 21 | .caret => 22 | .ampersand => 23 | .xor => 24 | .plus => 30 | .times => 40
    | .zone => 41
    | .collate => 0
    | .subscript | .cast | .bang => 50

/-- The class of the operator that a mark stands for. -/
def OperatorClass.ofMark? (s : String) : Option OperatorClass :=
  if s ∈ ["=", "<", "<=", "!=", ">", ">=", "==", "~", "~*", "!~", "!~*", "~~", "~~*", "!~~", "!~~*",
      "<=>"] then some .compare
  else if s ∈ ["+", "-"] then some .plus
  else if s ∈ ["*", "/", "//", "%", "||"] then some .times
  else if s ∈ ["^", "#", ">>", "<<"] then some .caret
  else if s ∈ ["!", "&&", "^@"] then some .bang
  else if s ∈ ["->", "->>", "#>", "#>>", "@>", "<@", "#-", "@?", "@@", "?", "?&", "?|"] then
    some .arrow
  else match s with
    | "|" => some .pipe
    | "&" => some .ampersand
    | "::" => some .cast
    | "[" => some .subscript
    | _ => none

/-- The class of the operator that a keyword stands for. -/
def OperatorClass.ofWord? (keyword : String) : Option OperatorClass :=
  match keyword with
  | "OR" => some .or
  | "AND" => some .and
  | "XOR" => some .xor
  | "IS" => some .is
  | "IN" | "BETWEEN" => some .between
  | "LIKE" | "ILIKE" | "RLIKE" | "REGEXP" | "SIMILAR" => some .like
  | "OPERATOR" => some .between
  | "DIV" => some .times
  | "COLLATE" => some .collate
  | _ => none

/-- The strength of the operator that the tokens begin with; 0 if they begin with none. -/
def Dialect.nextStrength (d : Dialect) : List Token → Nat
  | .word n :: rest =>
    match n.folded with
    | "AT" => if Parser.areWords ["TIME", "ZONE"] rest then d.strength .zone else 0
    | "NOT" =>
      match rest.head? with
      | some (.word m) =>
        if m.folded ∈ ["IN", "BETWEEN", "LIKE", "ILIKE", "RLIKE", "REGEXP", "SIMILAR"] then
          ((OperatorClass.ofWord? m.folded).map d.strength).getD 0
        else 0
      | _ => 0
    | k => ((OperatorClass.ofWord? k).map d.strength).getD 0
  | .mark "^" :: _ => if d = postgresql then 100 else d.strength .caret
  | .mark s :: _ => ((OperatorClass.ofMark? s).map d.strength).getD 0
  | .custom _ :: _ => d.strength .arrow
  | _ => 0

/-- The operator that a mark stands for, as it is written; none if the dialect has no such
operator. -/
def Dialect.markOperator? (d : Dialect) (s : String) : Option Operator :=
  match s with
  | "=" | "==" => some (.compare .eq)
  | "!=" => some (.compare .ne)
  | "<" => some (.compare .lt)
  | "<=" => some (.compare .le)
  | ">" => some (.compare .gt)
  | ">=" => some (.compare .ge)
  | "//" => if d ∈ [generic, duckdb] then some (.other s) else none
  | "<<" | ">>" => if d ∈ [generic, duckdb, postgresql] then some (.other s) else none
  | "#" => if d = postgresql then some (.other s) else none
  | "&&" | "^@" => if d ∈ [generic, postgresql] then some (.other s) else none
  | "!" | "::" | "[" => none
  | s => if (OperatorClass.ofMark? s).isSome then some (.other s) else none

end QueryCanvas.Sql
