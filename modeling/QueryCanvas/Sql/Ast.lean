import QueryCanvas.Canvas.Vocabulary
import QueryCanvas.Sql.Token

/-!
# Parsed queries

The tree of a parsed query.  What a canvas may be able to draw is kept in its parts; everything
else is kept as its text, in the fixed form in which parsed queries are written.
-/

set_option autoImplicit false

namespace QueryCanvas.Sql

/-- An alias of a table or of a named query, with the names that it gives to the columns. -/
structure Alias where
  name : Name
  columns : List Name
deriving DecidableEq, Repr

/-- An operator between two expressions. -/
inductive Operator where
  | and | or
  | compare (c : Comparison)
  /-- Any other operator, as it is written. -/
  | other (text : String)
deriving DecidableEq, Repr

/-- How the rows of two bodies are combined. -/
inductive Combination where
  | union | except | intersect
deriving DecidableEq, Repr

/-- What the body of a query is, if it is no `SELECT`. -/
inductive BodyForm where
  /-- A query in parentheses. -/
  | enclosed
  /-- Listed rows, a whole table, or a change of rows. -/
  | rows
  | combined (how : Combination)
deriving DecidableEq, Repr

/-- What follows the arguments of a function call. -/
structure CallTail where
  withinGroup : Option String
  filter : Option String
  nullTreatment : Option String
  window : Option String
deriving DecidableEq, Repr

/-- The parts of a `SELECT` that are kept as text. -/
structure SelectExtras where
  distinct : Option String
  top : Option String
  into : Option String
  lateralViews : List String
  prewhere : Option String
  /-- Set for `GROUP BY ALL`. -/
  groupAll : Bool
  groupModifiers : List String
  /-- The clauses between grouping and `HAVING`. -/
  distribution : List String
  windows : Option String
  qualify : Option String
  /-- Set if the windows stand before `QUALIFY`. -/
  windowsFirst : Bool
  connectBy : Option String
deriving DecidableEq, Repr

/-- The parts of a query behind its body that are kept as text. -/
structure QueryExtras where
  interpolate : Option String
  offset : Option String
  limitBy : Option String
  settings : Option String
  fetch : Option String
  locks : List String
  forClause : Option String
  format : Option String
deriving DecidableEq, Repr

/-- The operator of a join. -/
inductive JoinOperator where
  | kind (k : JoinKind)
  | cross
  /-- Any other operator, as it is written. -/
  | other (text : String)
deriving DecidableEq, Repr

mutual

/-- An expression. -/
inductive Expr where
  /-- A name, or names joined by points. -/
  | column (parts : List Name)
  | number (digits : String) (long : Bool)
  | text (value : String)
  | null
  | nested (e : Expr)
  | subquery (q : Query)
  | signed (negative : Bool) (e : Expr)
  | binary (left : Expr) (op : Operator) (right : Expr)
  /-- A test with `LIKE`, or `ILIKE` if `anyCase` is set; `any` is set for a pattern with `ANY`. -/
  | like (anyCase negated any : Bool) (subject pattern : Expr) (escape : Option String)
  /-- One of the tests without an operand. -/
  | test (subject : Expr) (op : FilterOperator)
  | inList (subject : Expr) (negated : Bool) (items : List Expr)
  | inQuery (subject : Expr) (negated : Bool) (q : Query)
  | between (subject : Expr) (negated : Bool) (low high : Expr)
  /-- A call; `parameters` is a list of arguments before the proper one, as it is written. -/
  | call (name : List Name) (parameters : String) (arguments : Arguments) (tail : CallTail)
  /-- Any other expression, as it is written. -/
  | other (text : String)

/-- What follows the name of a function. -/
inductive Arguments where
  | none
  | query (q : Query)
  /-- A list; `distinct` is set for `DISTINCT` and clear for `ALL`.  The clauses follow the last
  argument. -/
  | list (distinct : Option Bool) (items : List Argument) (clauses : List String)

/-- An argument of a function. -/
inductive Argument where
  | expr (e : Expr)
  | wildcard
  /-- A named argument and the like, as it is written. -/
  | other (text : String)

/-- An item of the list of results. -/
inductive SelectItem where
  | expr (e : Expr) (named : Option Name)
  /-- All columns, with what is added to the star. -/
  | wildcard (options : String)
  /-- All columns of a table, with what is added to the star. -/
  | tableWildcard (table : List Name) (options : String)

/-- A source of rows. -/
inductive Source where
  /-- A table by its name; `arguments` is there for a table function, and `marks` are the texts
  after name and arguments and after the alias. -/
  | table (name : List Name) (arguments : Option String) (named : Option Alias)
      (marks : String × String)
  | derived (lateral : Bool) (q : Query) (named : Option Alias)
  | joined (text : String)
  /-- Any other source, as it is written. -/
  | other (text : String)

/-- What ties a joined source to the sources before it. -/
inductive Constraint where
  | on (e : Expr)
  | using (columns : List Name)
  | natural
  | none

/-- A join with a further source. -/
inductive JoinClause where
  | mk (global : Bool) (op : JoinOperator) (source : Source) (constraint : Constraint)

/-- An item of the `FROM` clause. -/
inductive FromPart where
  | mk (source : Source) (joins : List JoinClause)

/-- A term of the `ORDER BY` clause; `marks` is what follows the term. -/
inductive OrderTerm where
  | mk (e : Expr) (descending : Option Bool) (nullsFirst : Option Bool) (marks : String)

/-- A named query of the `WITH` clause. -/
inductive CtePart where
  | mk (named : Alias) (materialized : Option String) (q : Query) (source : Option Name)

/-- The body of a query. -/
inductive Body where
  | select (items : List SelectItem) (sources : List FromPart) (condition : Option Expr)
      (groupBy : List Expr) (having : Option Expr) (extras : SelectExtras)
  /-- Any other body: what it is, and how it is written. -/
  | other (form : BodyForm) (text : String)

/-- A query.  The named queries are none if there is no `WITH` clause. -/
inductive Query where
  | mk (recursive : Bool) (ctes : List CtePart) (body : Body) (orderBy : Option (List OrderTerm))
      (limit : Option Expr) (extras : QueryExtras)

end

instance : Inhabited Expr := ⟨.null⟩

/-- A call followed by nothing. -/
def CallTail.none : CallTail :=
  { withinGroup := .none, filter := .none, nullTreatment := .none, window := .none }

/-- A query of which nothing is kept as text behind the body. -/
def QueryExtras.none : QueryExtras :=
  { interpolate := .none, offset := .none, limitBy := .none, settings := .none, fetch := .none,
    locks := [], forClause := .none, format := .none }

/-- A query that consists of its body. -/
def Query.plain (body : Body) : Query := .mk false [] body .none .none .none

/-- The join operator as it is written. -/
def JoinOperator.text : JoinOperator → String
  | .kind .inner => "JOIN"
  | .kind .left => "LEFT JOIN"
  | .kind .right => "RIGHT JOIN"
  | .kind .full => "FULL JOIN"
  | .cross => "CROSS JOIN"
  | .other text => text

/-- The combination as it is written. -/
def Combination.text : Combination → String
  | .union => "UNION"
  | .except => "EXCEPT"
  | .intersect => "INTERSECT"

/-- What a body that is no `SELECT` is called. -/
def BodyForm.construct : BodyForm → String
  | .enclosed => "parenthesized query"
  | .rows => "query body"
  | .combined how => how.text

/-- The operator as it is written. -/
def Operator.text : Operator → String
  | .and => "AND"
  | .or => "OR"
  | .compare .ne => "<>"
  | .compare c => c.sql
  | .other text => text

end QueryCanvas.Sql
