import QueryCanvas.Sql.Ast

/-!
# Parsed queries as text

The text of a parsed query: keywords in upper case, one blank around operators, and lists with a
comma and a blank.
-/

set_option autoImplicit false

namespace QueryCanvas.Sql

/-- A text with each quote in it doubled, as far as it is not doubled yet or marked by a backslash.
`afterBackslash` tells whether a backslash stands before. -/
def doubleQuotes (mark : Char) (afterBackslash : Bool) : List Char → List Char
  | [] => []
  | c :: rest =>
    if c ≠ mark then c :: doubleQuotes mark (c == '\\') rest
    else if afterBackslash then c :: doubleQuotes mark true rest
    else match rest with
      | c' :: rest' =>
        c :: c :: (if c' = mark then doubleQuotes mark false rest'
          else doubleQuotes mark false (c' :: rest'))
      | [] => [c, c]

/-- A text between two marks. -/
def enclosed (mark : Char) (s : String) : String :=
  String.ofList (mark :: doubleQuotes mark false s.toList ++ [mark])

/-- A text in single quotes. -/
def textLiteral (s : String) : String := enclosed '\'' s

/-- A text with `separator` between its pieces. -/
def joined (separator : String) (pieces : List String) : String := separator.intercalate pieces

/-- A text with something in front, or nothing. -/
def optional (before : String) : Option String → String
  | some s => before ++ s
  | none => ""

/-- A text if a flag is set, or nothing. -/
def flag (b : Bool) (s : String) : String := if b then s else ""

namespace Name

/-- The word as it is written. -/
def text (n : Name) : String :=
  match n.quote with
  | none => n.value
  | some '[' => "[" ++ n.value ++ "]"
  | some mark => enclosed mark n.value

/-- A name with points as it is written. -/
def path (parts : List Name) : String := joined "." (parts.map text)

end Name

/-- The alias as it is written. -/
def Alias.text (a : Alias) : String :=
  a.name.text ++
    (if a.columns.isEmpty then "" else " (" ++ joined ", " (a.columns.map Name.text) ++ ")")

/-- What follows the arguments of a call, as it is written. -/
def CallTail.text (t : CallTail) : String :=
  optional " WITHIN GROUP " t.withinGroup ++ optional " FILTER " t.filter
    ++ optional " " t.nullTreatment ++ optional " OVER " t.window

/-- What a constraint adds before the word `JOIN`. -/
def Constraint.mark : Constraint → String
  | .natural => "NATURAL "
  | _ => ""

/-- A direction of sorting as it is written. -/
def directionText : Option Bool → String
  | some false => " ASC"
  | some true => " DESC"
  | none => ""

/-- The place of missing values as it is written. -/
def nullsText : Option Bool → String
  | some true => " NULLS FIRST"
  | some false => " NULLS LAST"
  | none => ""

mutual

/-- The expression as it is written. -/
def Expr.print : Expr → String
  | .column parts => Name.path parts
  | .number digits long => digits ++ flag long "L"
  | .text value => textLiteral value
  | .null => "NULL"
  | .nested e => "(" ++ e.print ++ ")"
  | .subquery q => "(" ++ q.print ++ ")"
  | .signed negative e => (if negative then "-" else "+") ++ e.print
  | .binary left op right => left.print ++ " " ++ op.text ++ " " ++ right.print
  | .like anyCase negated any subject pattern escape =>
    subject.print ++ " " ++ flag negated "NOT " ++ (if anyCase then "ILIKE " else "LIKE ")
      ++ flag any "ANY " ++ pattern.print
      ++ (match escape with
        | some e => " ESCAPE '" ++ e ++ "'"
        | none => "")
  | .test subject op => subject.print ++ " " ++ op.sql
  | .inList subject negated items =>
    subject.print ++ " " ++ flag negated "NOT " ++ "IN (" ++ joined ", " (printExprs items) ++ ")"
  | .inQuery subject negated q =>
    subject.print ++ " " ++ flag negated "NOT " ++ "IN (" ++ q.print ++ ")"
  | .between subject negated low high =>
    subject.print ++ " " ++ flag negated "NOT " ++ "BETWEEN " ++ low.print ++ " AND " ++ high.print
  | .call name parameters arguments tail =>
    Name.path name ++ parameters ++ arguments.print ++ tail.text
  | .other text => text

/-- The expressions as they are written. -/
def printExprs : List Expr → List String
  | [] => []
  | e :: rest => e.print :: printExprs rest

/-- The arguments as they are written. -/
def Arguments.print : Arguments → String
  | .none => ""
  | .query q => "(" ++ q.print ++ ")"
  | .list distinct items clauses =>
    "(" ++ (match distinct with
        | some true => "DISTINCT "
        | some false => "ALL "
        | none => "")
      ++ joined ", " (printArguments items)
      ++ (if clauses.isEmpty then "" else " " ++ joined " " clauses) ++ ")"

/-- The arguments of a list as they are written. -/
def printArguments : List Argument → List String
  | [] => []
  | .expr e :: rest => e.print :: printArguments rest
  | .wildcard :: rest => "*" :: printArguments rest
  | .other text :: rest => text :: printArguments rest

/-- The items of a list of results as they are written. -/
def printItems : List SelectItem → List String
  | [] => []
  | .expr e named :: rest => (e.print ++ optional " AS " (named.map Name.text)) :: printItems rest
  | .wildcard options :: rest => ("*" ++ options) :: printItems rest
  | .tableWildcard table options :: rest =>
    (Name.path table ++ ".*" ++ options) :: printItems rest

/-- The source as it is written. -/
def Source.print : Source → String
  | .table name arguments named marks =>
    Name.path name ++ optional "" arguments ++ marks.1
      ++ optional " AS " (named.map Alias.text) ++ marks.2
  | .derived lateral q named =>
    flag lateral "LATERAL " ++ "(" ++ q.print ++ ")" ++ optional " AS " (named.map Alias.text)
  | .joined text => text
  | .other text => text

/-- The constraint as it is written behind the joined source. -/
def Constraint.print : Constraint → String
  | .on e => " ON " ++ e.print
  | .using columns => " USING(" ++ joined ", " (columns.map Name.text) ++ ")"
  | .natural => ""
  | .none => ""

/-- The joins as they are written. -/
def printJoins : List JoinClause → String
  | [] => ""
  | .mk global op source constraint :: rest =>
    flag global " GLOBAL" ++ " " ++ constraint.mark ++ op.text ++ " " ++ source.print
      ++ constraint.print ++ printJoins rest

/-- The items of a `FROM` clause as they are written. -/
def printSources : List FromPart → List String
  | [] => []
  | .mk source joins :: rest => (source.print ++ printJoins joins) :: printSources rest

/-- The terms of an `ORDER BY` clause as they are written. -/
def printTerms : List OrderTerm → List String
  | [] => []
  | .mk e descending nullsFirst marks :: rest =>
    (e.print ++ directionText descending ++ nullsText nullsFirst ++ marks) :: printTerms rest

/-- The named queries as they are written. -/
def printCtes : List CtePart → List String
  | [] => []
  | .mk named materialized q source :: rest =>
    (named.text ++ " AS " ++ (match materialized with
        | some m => m ++ " "
        | none => "")
      ++ "(" ++ q.print ++ ")" ++ optional " FROM " (source.map Name.text)) :: printCtes rest

/-- The body as it is written. -/
def Body.print : Body → String
  | .select items sources condition groupBy having x =>
    "SELECT"
      ++ optional " " x.distinct ++ optional " " x.top
      ++ " " ++ joined ", " (printItems items)
      ++ optional " " x.into
      ++ (if sources.isEmpty then "" else " FROM " ++ joined ", " (printSources sources))
      ++ String.join x.lateralViews
      ++ optional " PREWHERE " x.prewhere
      ++ (match condition with
        | some e => " WHERE " ++ e.print
        | none => "")
      ++ (if x.groupAll then joined " " (" GROUP BY ALL" :: x.groupModifiers)
        else if groupBy.isEmpty then ""
        else joined " " ((" GROUP BY " ++ joined ", " (printExprs groupBy)) :: x.groupModifiers))
      ++ String.join x.distribution
      ++ (match having with
        | some e => " HAVING " ++ e.print
        | none => "")
      ++ (if x.windowsFirst then optional " WINDOW " x.windows ++ optional " QUALIFY " x.qualify
        else optional " QUALIFY " x.qualify ++ optional " WINDOW " x.windows)
      ++ optional " " x.connectBy
  | .other _ text => text

/-- The query as it is written. -/
def Query.print : Query → String
  | .mk recursive ctes body orderBy limit x =>
    (if ctes.isEmpty then ""
      else "WITH " ++ flag recursive "RECURSIVE " ++ joined ", " (printCtes ctes) ++ " ")
      ++ body.print
      ++ (match orderBy with
        | some terms => " ORDER BY " ++ joined ", " (printTerms terms) ++ optional " " x.interpolate
        | none => "")
      ++ (match limit with
        | some e => " LIMIT " ++ e.print
        | none => "")
      ++ optional " " x.offset ++ optional " BY " x.limitBy ++ optional " SETTINGS " x.settings
      ++ optional " " x.fetch
      ++ String.join (x.locks.map (" " ++ ·)) ++ optional " " x.forClause ++ optional " " x.format

end

end QueryCanvas.Sql
