import QueryCanvas.Text.Blank
import QueryCanvas.Text.Case

/-!
# The fixed words of a query

Join kinds, comparison operators, connectors, aggregate functions, sort directions and the roles
of nested queries.  Each kind lists its members and gives every one its word.
-/

set_option autoImplicit false

namespace QueryCanvas

/-- Which rows of the two sides a join keeps. -/
inductive JoinKind where
  | inner | left | right | full
deriving DecidableEq, Repr, Inhabited

namespace JoinKind

def all : List JoinKind := [inner, left, right, full]

/-- The lower-case word in which the kind is stored. -/
def word : JoinKind → String
  | inner => "inner"
  | left => "left"
  | right => "right"
  | full => "full"

/-- The words in front of the joined table. -/
def keyword : JoinKind → String
  | inner => "INNER JOIN"
  | left => "LEFT JOIN"
  | right => "RIGHT JOIN"
  | full => "FULL JOIN"

end JoinKind

/-- The operator of a filter. -/
inductive FilterOperator where
  | eq | ne | lt | le | gt | ge
  | like | notLike | ilike | notIlike
  | isIn | notIn | between | notBetween
  | isNull | isNotNull | isTrue | isFalse
deriving DecidableEq, Repr, Inhabited

namespace FilterOperator

def all : List FilterOperator :=
  [eq, ne, lt, le, gt, ge, like, notLike, ilike, notIlike, isIn, notIn, between, notBetween,
   isNull, isNotNull, isTrue, isFalse]

/-- The operator as it is written in a query. -/
def sql : FilterOperator → String
  | eq => "="
  | ne => "!="
  | lt => "<"
  | le => "<="
  | gt => ">"
  | ge => ">="
  | like => "LIKE"
  | notLike => "NOT LIKE"
  | ilike => "ILIKE"
  | notIlike => "NOT ILIKE"
  | isIn => "IN"
  | notIn => "NOT IN"
  | between => "BETWEEN"
  | notBetween => "NOT BETWEEN"
  | isNull => "IS NULL"
  | isNotNull => "IS NOT NULL"
  | isTrue => "IS TRUE"
  | isFalse => "IS FALSE"

/-- The operator of a spelling; case and the amount of blanks do not matter, and the second
spelling of inequality is known. -/
def ofSpelling? (s : String) : Option FilterOperator :=
  let spelled := (Text.collapse s).toUpper
  let spelled := if spelled = "<>" then "!=" else spelled
  all.find? fun op => op.sql = spelled

/-- The operators without an operand. -/
def isUnary : FilterOperator → Bool
  | isNull | isNotNull | isTrue | isFalse => true
  | _ => false

/-- The operators whose operand is a list in parentheses. -/
def isList : FilterOperator → Bool
  | isIn | notIn => true
  | _ => false

/-- The operators whose operand is a lower and an upper bound. -/
def isRange : FilterOperator → Bool
  | between | notBetween => true
  | _ => false

end FilterOperator

/-- The operator of a condition on an aggregate. -/
inductive Comparison where
  | eq | ne | lt | le | gt | ge
deriving DecidableEq, Repr

namespace Comparison

instance : Inhabited Comparison := ⟨gt⟩

def all : List Comparison := [eq, ne, lt, le, gt, ge]

/-- The comparison as a filter operator. -/
def toFilterOperator : Comparison → FilterOperator
  | eq => .eq
  | ne => .ne
  | lt => .lt
  | le => .le
  | gt => .gt
  | ge => .ge

/-- The comparison as it is written in a query. -/
def sql (c : Comparison) : String := c.toFilterOperator.sql

end Comparison

/-- How a condition is tied to the one after it. -/
inductive Connector where
  | and | or
deriving DecidableEq, Repr, Inhabited

namespace Connector

def all : List Connector := [and, or]

def sql : Connector → String
  | and => "AND"
  | or => "OR"

end Connector

/-- An aggregate function. -/
inductive AggregateFunction where
  | count | sum | avg | min | max
deriving DecidableEq, Repr, Inhabited

namespace AggregateFunction

def all : List AggregateFunction := [count, sum, avg, min, max]

def sql : AggregateFunction → String
  | count => "COUNT"
  | sum => "SUM"
  | avg => "AVG"
  | min => "MIN"
  | max => "MAX"

/-- The aggregate function of a name in any case. -/
def ofName? (name : String) : Option AggregateFunction :=
  all.find? fun f => f.sql = name.toUpper

end AggregateFunction

/-- The direction of a sort term. -/
inductive SortDirection where
  | asc | desc
deriving DecidableEq, Repr, Inhabited

namespace SortDirection

def all : List SortDirection := [asc, desc]

def sql : SortDirection → String
  | asc => "ASC"
  | desc => "DESC"

end SortDirection

/-- Where a nested query stands in the query around it. -/
inductive SubqueryRole where
  /-- The right-hand side of a filter. -/
  | whereClause
  /-- A derived table of the `FROM` clause. -/
  | fromClause
  /-- A single value in the list of results. -/
  | selectList
deriving DecidableEq, Repr

namespace SubqueryRole

instance : Inhabited SubqueryRole := ⟨whereClause⟩

def all : List SubqueryRole := [whereClause, fromClause, selectList]

/-- The lower-case word in which the role is stored. -/
def word : SubqueryRole → String
  | whereClause => "where"
  | fromClause => "from"
  | selectList => "select"

end SubqueryRole

end QueryCanvas
