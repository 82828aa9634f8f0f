import QueryCanvas.Proofs.Reading.Depicted
import QueryCanvas.Proofs.Written.Queries
import QueryCanvas.Proofs.Written.Values
import QueryCanvas.Sql.Render

/-!
# Selects as a canvas writes them

What a canvas writes of a block, over nested queries of any type: results, sources, conditions and
the further clauses.  Each has its text, and its tokens with what is read and with the levels of the
grammar that reading needs.
-/

set_option autoImplicit false

namespace QueryCanvas

/-- The limit is one that can be read: a number that is not too large, or a parameter. -/
def Limit.Readable : Limit → Prop
  | .count n => n < UInt64.size
  | .parameter text => Parameter.isParameter text

namespace Sql

open Lexer

/-! ## Columns and values -/

/-- A column with the name of its table. -/
structure TableColumn where
  table : String
  column : String
deriving DecidableEq

namespace TableColumn

/-- The column as it is written throughout a canvas. -/
def text (c : TableColumn) : String := columnRef c.table c.column

def part (c : TableColumn) : Part Expr := columnPart c.table c.column

/-- Both names can stand for themselves. -/
structure Plain (c : TableColumn) : Prop where
  table : Identifier c.table
  column : Identifier c.column

end TableColumn

/-- A value that a condition compares with: it is read back as it is. -/
structure Compared where
  value : String
  part : Part Expr
  written : Constant (formatValue value) part
  literal : part.value.literal = .ok value

/-- A value that a condition takes over as it is written. -/
structure Listed where
  text : String
  part : Part Expr
  written : Constant text part
  word : ∀ s, part.value = .text s → PlainWord s

/-! ## Conditions -/

/-- What the column of a condition is tested for. -/
inductive WrittenTest (ν : Type) where
  | compare (op : Comparison) (v : Compared)
  | like (anyCase negated : Bool) (v : Compared)
  | among (negated : Bool) (items : List Listed) (hne : items ≠ [])
  | range (negated : Bool) (low high : Listed)
  | plain (op : FilterOperator) (hop : op.isUnary)
  | compareQuery (op : Comparison) (q : ν)
  | amongResults (negated : Bool) (q : ν)

namespace WrittenTest

variable {ν : Type} (g : ν → String) (p : ν → Part Query)

def operator : WrittenTest ν → FilterOperator
  | compare op _ | compareQuery op _ => op.toFilterOperator
  | like anyCase negated _ => likeOperator anyCase negated
  | among negated _ _ | amongResults negated _ => if negated then .notIn else .isIn
  | range negated _ _ => if negated then .notBetween else .between
  | plain op _ => op

/-- The value of a filter that makes this test. -/
def value : WrittenTest ν → String
  | compare _ v | like _ _ v => v.value
  | among _ items _ => commaList (items.map (·.text))
  | range _ low high => low.text ++ " AND " ++ high.text
  | plain _ _ | compareQuery _ _ | amongResults _ _ => ""

/-- What stands behind the operator. -/
def operand : WrittenTest ν → String
  | compare _ v | like _ _ v => " " ++ formatValue v.value
  | among _ items _ => " (" ++ commaList (items.map (·.text)) ++ ")"
  | range _ low high => " " ++ (low.text ++ " AND " ++ high.text)
  | plain _ _ => ""
  | compareQuery _ q | amongResults _ q => " " ++ g q

/-- The test of a subject. -/
def part (subject : Part Expr) : WrittenTest ν → Part Expr
  | compare op v => comparePart subject op v.part
  | like anyCase negated v => likePart subject anyCase negated v.part
  | among negated items _ => inListPart subject negated (items.map (·.part))
  | range negated low high => betweenPart subject negated low.part high.part
  | plain op _ => testPart subject op
  | compareQuery op q => comparePart subject op (subqueryPart (p q))
  | amongResults negated q => inQueryPart subject negated (p q)

/-- The nested query with which the test compares. -/
def nested : WrittenTest ν → List ν
  | compareQuery _ q | amongResults _ q => [q]
  | _ => []

end WrittenTest

/-- A condition on the rows. -/
structure WrittenCondition (ν : Type) where
  column : TableColumn
  test : WrittenTest ν

namespace WrittenCondition

variable {ν : Type} (g : ν → String) (p : ν → Part Query) (c : WrittenCondition ν)

def text : String := c.column.text ++ " " ++ c.test.operator.sql ++ c.test.operand g

def part : Part Expr := c.test.part p c.column.part

end WrittenCondition

/-- What an aggregate function is applied to: a column, or the whole row. -/
abbrev Aggregated := Option TableColumn

namespace Aggregated

def text : Aggregated → String
  | none => "*"
  | some c => c.text

def part : Aggregated → Part Argument
  | none => starArgument
  | some c => columnArgument c.table c.column

end Aggregated

/-- A condition on the groups. -/
structure WrittenHaving where
  function : AggregateFunction
  argument : Aggregated
  operator : Comparison
  value : Listed

namespace WrittenHaving

variable (h : WrittenHaving)

def text : String :=
  call h.function h.argument.text ++ " " ++ h.operator.sql ++ " " ++ h.value.text

def part : Part Expr :=
  comparePart (callPart h.function h.argument.part) h.operator h.value.part

end WrittenHaving

/-! ## Results -/

/-- An aggregate among the results. -/
structure WrittenCall where
  function : AggregateFunction
  argument : Aggregated
  aliasName : Option String

/-- A result. -/
inductive WrittenResult (ν : Type) where
  | column (c : TableColumn)
  | call (a : WrittenCall)
  | scalar (q : ν) (aliasName : Option String)

namespace WrittenResult

variable {ν : Type} (g : ν → String) (p : ν → Part Query)

def text : WrittenResult ν → String
  | column c => c.text
  | call a => aliased (Sql.call a.function a.argument.text) a.aliasName
  | scalar q aliasName => aliased (g q) aliasName

def part : WrittenResult ν → Part SelectItem
  | column c => itemPart c.part none
  | call a => itemPart (callPart a.function a.argument.part) a.aliasName
  | scalar q aliasName => itemPart (subqueryPart (p q)) aliasName

/-- The name under which a query around the select can use the result. -/
def name? : WrittenResult ν → Option String
  | column c => some c.column
  | call a => a.aliasName
  | scalar _ aliasName => aliasName

def column? : WrittenResult ν → Option TableColumn
  | column c => some c
  | call _ | scalar _ _ => none

def call? : WrittenResult ν → Option WrittenCall
  | call a => some a
  | column _ | scalar _ _ => none

def scalar? : WrittenResult ν → Option (ν × Option String)
  | scalar q aliasName => some (q, aliasName)
  | column _ | call _ => none

/-- The names of the result can stand for themselves. -/
def Plain : WrittenResult ν → Prop
  | column c => c.Plain
  | call a => (∀ c ∈ a.argument, c.Plain) ∧ ∀ name ∈ a.aliasName, Identifier name
  | scalar _ aliasName => ∀ name ∈ aliasName, Identifier name

end WrittenResult

/-! ## Sources -/

/-- A table that is joined to the tables before it. -/
structure WrittenStep where
  kind : JoinKind
  joined : String
  conditions : List (TableColumn × TableColumn)

namespace WrittenStep

variable (s : WrittenStep)

/-- The equality of two columns. -/
def equality (c : TableColumn × TableColumn) : Part Expr := comparePart c.1.part .eq c.2.part

def text : String :=
  s.kind.keyword ++ " " ++ quotePath s.joined ++ " ON "
    ++ " AND ".intercalate (s.conditions.map fun c => c.1.text ++ " = " ++ c.2.text)

def part : Part JoinClause :=
  joinPart s.kind s.joined (s.conditions.map fun c => (equality c, .and))

structure Plain : Prop where
  joined : Identifier s.joined
  some_condition : s.conditions ≠ []
  conditions : ∀ c ∈ s.conditions, c.1.Plain ∧ c.2.Plain

end WrittenStep

/-- A table with the tables that are joined to it. -/
structure WrittenItem where
  base : String
  steps : List WrittenStep

namespace WrittenItem

variable (i : WrittenItem)

def text : String := quotePath i.base ++ String.join (i.steps.map fun s => " " ++ s.text)

def part : Part FromPart := tableItem i.base (i.steps.map (·.part))

/-- The names of the tables in their order. -/
def names : List String := i.base :: i.steps.map (·.joined)

structure Plain : Prop where
  base : Identifier i.base
  steps : ∀ s ∈ i.steps, s.Plain

end WrittenItem

/-! ## The further clauses -/

/-- A column that rows are sorted by. -/
structure WrittenTerm where
  column : TableColumn
  direction : SortDirection

namespace WrittenTerm

def text (t : WrittenTerm) : String := t.column.text ++ " " ++ t.direction.sql

def part (t : WrittenTerm) : Part OrderTerm := termPart t.column.table t.column.column t.direction

end WrittenTerm

/-- The limit as it is read. -/
def limitExpr : Limit → Part Expr
  | .count n => ⟨[.number (toString n) false], 1, .number (toString n) false⟩
  | .parameter text => ⟨[.text .plain text], 1, .text text⟩

/-! ## Selects -/

/-- A select as a canvas writes it. -/
structure WrittenSelect (ν : Type) where
  /-- The results; the star stands where there are none. -/
  results : List (WrittenResult ν)
  items : List WrittenItem
  derived : List (ν × Option String)
  conditions : List (WrittenCondition ν × Connector)
  groups : List TableColumn
  havings : List (WrittenHaving × Connector)
  terms : List WrittenTerm
  limit : Option Limit

namespace WrittenSelect

variable {ν : Type} (g : ν → String) (p : ν → Part Query) (x : WrittenSelect ν)

/-- The nested queries. -/
def nested : List ν :=
  x.derived.map (·.1) ++ (x.results.filterMap (·.scalar?)).map (·.1)
    ++ x.conditions.flatMap (·.1.test.nested)

/-- The list of results. -/
def resultText : String :=
  if x.results.isEmpty then noColumns else commaList (x.results.map (·.text g))

/-- What follows `FROM`. -/
def fromText : String :=
  commaList (x.items.map (·.text) ++ x.derived.map fun d => aliased (g d.1) d.2)

/-- The text of the select on one line, given the texts of the nested queries in parentheses. -/
def text : String :=
  " ".intercalate <|
    ["SELECT " ++ x.resultText g, "FROM " ++ x.fromText g]
      ++ clause "WHERE" x.conditions
          (fun cs => chain .compact (cs.map fun c => (c.1.text g, c.2)))
      ++ clause "GROUP BY" x.groups (fun cs => commaList (cs.map (·.text)))
      ++ clause "HAVING" x.havings
          (fun hs => chain .compact (hs.map fun h => (h.1.text, h.2)))
      ++ clause "ORDER BY" x.terms (fun ts => commaList (ts.map (·.text)))
      ++ clause "LIMIT" x.limit.toList (fun ls => String.join (ls.map (·.sql)))

/-- The parts of the select. -/
def parts : SelectParts where
  items := if x.results.isEmpty then [starPart] else x.results.map (·.part p)
  sources := x.items.map (·.part) ++ x.derived.map fun d => derivedItem (p d.1) d.2
  conditions := x.conditions.map fun c => (c.1.part p, c.2)
  groups := x.groups.map fun c => ⟨c.part.tokens, 1, c.part.value⟩
  havings := x.havings.map fun h => (h.1.part, h.2)
  terms := x.terms.map (·.part)
  limit := x.limit.map limitExpr

/-- All names can stand for themselves, the limit can be read, and there is something to read
from. -/
structure Plain : Prop where
  results : ∀ r ∈ x.results, r.Plain
  items : ∀ i ∈ x.items, i.Plain
  derived : ∀ d ∈ x.derived, ∀ name ∈ d.2, Identifier name
  conditions : ∀ c ∈ x.conditions, c.1.column.Plain
  groups : ∀ c ∈ x.groups, c.Plain
  havings : ∀ h ∈ x.havings, ∀ c ∈ h.1.argument, c.Plain
  terms : ∀ t ∈ x.terms, t.column.Plain
  limit : ∀ l ∈ x.limit, l.Readable
  source : x.items ≠ [] ∨ x.derived ≠ []

end WrittenSelect

/-! ## Arranged selects -/

/-- Every step ties the table that it brings in to tables before it. -/
def WrittenItem.Tied (i : WrittenItem) : Prop :=
  ∀ front s after, i.steps = front ++ s :: after → ∀ c ∈ s.conditions,
    ∃ u ∈ (WrittenItem.mk i.base front).names,
      (c.1.table = u ∧ c.2.table = s.joined) ∨ (c.1.table = s.joined ∧ c.2.table = u)

namespace WrittenSelect

variable {ν : Type} (x : WrittenSelect ν)

/-- The names of all tables in their order. -/
def tables : List String := x.items.flatMap (·.names)

/-- The tables have different names, joins begin all items behind the first one before single tables
do, and the columns among the results are of these tables. -/
structure Arranged : Prop where
  names : x.tables.Nodup
  tied : ∀ i ∈ x.items, i.Tied
  grouped : x.items = [] ∨ ∃ (first : WrittenItem) (rest : List WrittenItem) (alone : List String),
    x.items = first :: rest ++ alone.map (⟨·, []⟩) ∧ ∀ i ∈ rest, i.steps ≠ []
  columns : ∀ r ∈ x.results, ∀ c ∈ r.column?, c.table ∈ x.tables

end WrittenSelect

/-! ## The parts can be read -/

variable {ν : Type} {p : ν → Part Query} {x : WrittenSelect ν}

theorem Listed.isOperand (v : Listed) : v.part.IsOperand := v.written.isOperand

theorem Compared.isOperand (v : Compared) : v.part.IsOperand := v.written.isOperand

theorem TableColumn.Plain.isSubject {c : TableColumn} (h : c.Plain) : c.part.IsSubject :=
  isSubject_column h.table

theorem WrittenTest.isCondition {t : WrittenTest ν} {subject : Part Expr} (hs : subject.IsSubject)
    (hp : ∀ q ∈ t.nested, (p q).IsQuery) : (t.part p subject).IsCondition := by
  cases t with
  | compare op v => exact isCondition_compare hs op v.isOperand
  | like anyCase negated v => exact isCondition_like hs anyCase v.isOperand
  | among negated items hne =>
    refine isCondition_inList hs (by simpa using hne) fun v hv => ?_
    obtain ⟨w, -, rfl⟩ := List.mem_map.1 hv
    exact w.isOperand
  | range negated low high => exact isCondition_between hs low.isOperand high.isOperand
  | plain op hop => exact isCondition_test hs hop
  | compareQuery op q => exact isCondition_compare hs op (hp q (by simp [nested])).isOperand
  | amongResults negated q => exact isCondition_inQuery hs (hp q (by simp [nested]))

theorem isArgument_aggregated {a : Aggregated} (h : ∀ c ∈ a, c.Plain) : a.part.IsArgument := by
  cases a with
  | none => exact isArgument_star
  | some c => exact isArgument_column (h c rfl).table

theorem WrittenHaving.isCondition {h : WrittenHaving} (hh : ∀ c ∈ h.argument, c.Plain) :
    h.part.IsCondition :=
  isCondition_compare (isSubject_call (isArgument_aggregated hh)) _ h.value.isOperand

theorem WrittenResult.isItem {r : WrittenResult ν} (hr : r.Plain)
    (hp : ∀ d ∈ r.scalar?, (p d.1).IsQuery) : (r.part p).IsItem := by
  cases r with
  | column c => exact isItem_column hr.table
  | call a => exact isItem_call (isArgument_aggregated hr.1) _
  | scalar q aliasName => exact isItem_scalar (hp _ rfl) _

theorem WrittenItem.Plain.isFrom {i : WrittenItem} (h : i.Plain) : i.part.IsFrom := by
  refine isFrom_table h.base fun j hj => ?_
  obtain ⟨s, hs, rfl⟩ := List.mem_map.1 hj
  have hplain := h.steps s hs
  refine isJoin_joinPart hplain.joined (by simpa using hplain.some_condition) fun m hm => ?_
  obtain ⟨c, hc, rfl⟩ := List.mem_map.1 hm
  obtain ⟨hleft, hright⟩ := hplain.conditions c hc
  exact isCondition_compare hleft.isSubject _ hright.isSubject.isOperand

theorem numeral_toString (n : Nat) : Numeral (toString n).toList := by
  have hdigits : ∀ c ∈ (toString n).toList, c.isDigit := by
    intro c hc
    rw [Nat.toString_eq_repr, Nat.toList_repr] at hc
    exact Nat.isDigit_of_mem_toDigits (by decide) (by decide) hc
  have hne : (toString n).toList ≠ [] := by
    rw [Nat.toString_eq_repr, Nat.toList_repr]
    exact Nat.toDigits_ne_nil
  simpa using Numeral.whole _ [] hne hdigits .none

theorem isLimit_limitExpr {l : Limit} (h : l.Readable) : (limitExpr l).IsLimit := by
  cases l with
  | count n => exact (Constant.number (toString n) (numeral_toString n)).isLimit
  | parameter text => exact (Constant.parameter text h).isLimit

namespace WrittenSelect

theorem mem_nested {q : ν} : q ∈ x.nested ↔ (∃ d ∈ x.derived, d.1 = q) ∨
    (∃ r ∈ x.results, ∃ d ∈ r.scalar?, d.1 = q) ∨ ∃ c ∈ x.conditions, q ∈ c.1.test.nested := by
  simp only [nested, List.append_assoc, List.mem_append, List.mem_map, List.mem_filterMap,
    List.mem_flatMap, Option.mem_def]
  grind

theorem Plain.readable (h : x.Plain) (hp : ∀ q ∈ x.nested, (p q).IsQuery) :
    (x.parts p).Readable := by
  refine ⟨?_, fun r hr => ?_, fun s hs => ?_, fun m hm => ?_, fun c hc => ?_, fun m hm => ?_,
    fun t ht => ?_, fun l hl => ?_⟩
  · simp only [parts]
    split <;> simp_all
  · simp only [parts] at hr
    split at hr
    · rw [List.mem_singleton.1 hr]
      exact isItem_star
    · obtain ⟨r, hmem, rfl⟩ := List.mem_map.1 hr
      exact WrittenResult.isItem (h.results r hmem) fun d hd =>
        hp _ (mem_nested.2 (.inr (.inl ⟨r, hmem, d, hd, rfl⟩)))
  · rcases List.mem_append.1 hs with hs | hs
    · obtain ⟨i, hi, rfl⟩ := List.mem_map.1 hs
      exact (h.items i hi).isFrom
    · obtain ⟨d, hd, rfl⟩ := List.mem_map.1 hs
      exact isFrom_derived (hp _ (mem_nested.2 (.inl ⟨d, hd, rfl⟩))) d.2
  · obtain ⟨c, hc, rfl⟩ := List.mem_map.1 hm
    exact WrittenTest.isCondition (h.conditions c hc).isSubject fun q hq =>
      hp q (mem_nested.2 (.inr (.inr ⟨c, hc, hq⟩)))
  · obtain ⟨c, hmem, rfl⟩ := List.mem_map.1 hc
    exact isGroup_column (h.groups c hmem).table
  · obtain ⟨k, hk, rfl⟩ := List.mem_map.1 hm
    exact WrittenHaving.isCondition (h.havings k hk)
  · obtain ⟨t, hmem, rfl⟩ := List.mem_map.1 ht
    exact isTerm_column (h.terms t hmem).table t.direction
  · obtain ⟨l, hmem, rfl⟩ := Option.map_eq_some_iff.1 hl
    exact isLimit_limitExpr (h.limit l hmem)

theorem Plain.sources_ne_nil (h : x.Plain) : (x.parts p).sources ≠ [] := by
  rcases h.source with hne | hne <;> simp [parts, hne]

end WrittenSelect

end Sql

end QueryCanvas
