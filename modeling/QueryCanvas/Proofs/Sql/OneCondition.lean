import QueryCanvas.Proofs.Reading.Literals
import QueryCanvas.Proofs.Sql.Climbing

/-!
# A select with one condition

What the grammar makes of `SELECT t.a FROM t WHERE t.a = 1`, with any comparison and any literal:
exactly the select that is written, in every dialect.  The grammar tries much else on the way, and
all of it is told apart by the word or the mark that comes next.
-/

set_option autoImplicit false

namespace QueryCanvas.Sql

open Sql.Parser

/-! ## The text -/

namespace Name

@[simp] theorem folded_select : (bare "SELECT").folded = "SELECT" := by decide +kernel

@[simp] theorem folded_from : (bare "FROM").folded = "FROM" := by decide +kernel

@[simp] theorem folded_where : (bare "WHERE").folded = "WHERE" := by decide +kernel

@[simp] theorem folded_t : (bare "t").folded = "T" := by decide +kernel

end Name

/-- A bare word among the tokens. -/
abbrev Token.bare (s : String) : Token := .word (.bare s)

/-- The column `t.a`. -/
abbrev columnA : List Name := [.bare "t", .bare "a"]

/-- The table `t`. -/
abbrev tableT : Source := .table [.bare "t"] none none ("", "")

/-- The column in front of other tokens. -/
abbrev columnTokens (rest : List Token) : List Token :=
  .bare "t" :: .mark "." :: .bare "a" :: rest

/-- The source and the word in front of the conditions. -/
abbrev sourceTokens (rest : List Token) : List Token := .bare "t" :: .bare "WHERE" :: rest

namespace Literal

/-- The tokens of a literal.  A parameter has been put between quotes. -/
def tokens : Literal → List Token
  | quoted content => [.text .plain content]
  | number none digits long => [.number digits long]
  | number (some negative) digits long =>
    [.mark (if negative then "-" else "+"), .number digits long]
  | parameter written => [.text .plain written]

end Literal

/-- The condition. -/
abbrev conditionTokens (c : Comparison) (l : Literal) : List Token :=
  columnTokens (.mark c.sql :: l.tokens)

/-- The text before the condition. -/
abbrev selectTokens (rest : List Token) : List Token :=
  .bare "SELECT" :: columnTokens (.bare "FROM" :: sourceTokens rest)

/-- The condition as an expression. -/
def conditionExpr (c : Comparison) (l : Literal) : Expr :=
  .binary (.column columnA) (.compare c) l.expr

/-- The select of the text. -/
def oneConditionBody (e : Expr) : Body :=
  .select [.expr (.column columnA) none] [.mk tableT []] (some e) [] none
    { distinct := none, top := none, into := none, lateralViews := [], prewhere := none
      groupAll := false, groupModifiers := [], distribution := [], windows := none, qualify := none
      windowsFirst := false, connectBy := none }

/-- The query of the text. -/
def oneConditionQuery (e : Expr) : Query :=
  .mk false [] (oneConditionBody e) none none
    { interpolate := none, offset := none, limitBy := none, settings := none, fetch := none,
      locks := [], forClause := none, format := none }

namespace Inside

variable {g : Inside} {rest ts : List Token} {strength : Nat}

/-! ## The column -/

/-- Behind the column stands neither what makes it longer or a call, nor a collation. -/
def EndsColumn (rest : List Token) : Prop :=
  (∀ s ∈ [".", "(", "["], rest.head? ≠ some (.mark s)) ∧ word? "COLLATE" rest = .ok (false, rest)

theorem endsColumn_from : EndsColumn (.bare "FROM" :: rest) := ⟨by simp, by simp⟩

theorem endsColumn_comparison (c : Comparison) : EndsColumn (.mark c.sql :: rest) :=
  ⟨by cases c <;> simp [Comparison.sql, Comparison.toFilterOperator, FilterOperator.sql], rfl⟩

/-- The column is no text with the name of its type before it. -/
theorem typedText_column (h : EndsColumn rest) :
    attempt g.typedText (columnTokens rest) = .ok (none, columnTokens rest) := by
  have hpath : path (columnTokens rest) = .ok (columnA, rest) := path_two (h.1 "." (by simp))
  -- the column could be the name of a type, but no text stands behind it
  have hcustom : customType (columnTokens rest) = .ok (Name.path columnA, rest) := by
    simp [customType, hpath, mark?_absent (h.1 "(" (by simp))]
  have hbase (inner : Parser String) :
      baseType inner (columnTokens rest) = .ok ((Name.path columnA, .custom), rest) := by
    simp [baseType, plainTypes, sizedTypes, decimalTypes, wholeTypes, hcustom]
  have hbrackets : arrayBrackets g.dialect rest = .ok ("", rest) := by
    simp [arrayBrackets, many_none, mark?_absent (h.1 "[" (by simp))]
  have htype : dataType g.dialect (columnTokens rest)
      = .ok ((Name.path columnA, .custom), rest) := by
    rw [dataType, dataTypeUpTo]
    simp [hbase, hbrackets]
  simp [attempt, typedText, htype]

/-- An operand is read as a plain one unless it is a text with the name of its type before it, or a
collation stands behind it. -/
theorem operandFirst_plain {e : Expr} (htyped : attempt g.typedText ts = .ok (none, ts))
    (hplain : g.plainOperand ts = .ok (e, rest))
    (hcollation : word? "COLLATE" rest = .ok (false, rest)) :
    g.operandFirst ts = .ok (e, rest) := by
  simp only [operandFirst, plainOperandWithCollation, after?, bind_run, pure_run, ite_run, htyped,
    hplain, hcollation, Bool.false_eq_true, if_false]

theorem operandFirst_column (h : EndsColumn rest) :
    g.operandFirst (columnTokens rest) = .ok (.column columnA, rest) := by
  have hmembers (n : Nat) : g.members (n + 2) (.mark "." :: .bare "a" :: rest)
      = .ok (([.bare "a"], false), rest) := by
    simp [members, memberOrStar, mark?_absent (h.1 "." (by simp))]
  have hplain : g.plainOperand (columnTokens rest) = .ok (.column columnA, rest) := by
    simp [plainOperand, worded, named, columnOrCall, hmembers, mark?_absent (h.1 "(" (by simp))]
  exact operandFirst_plain (typedText_column h) hplain h.2

/-- An expression ends with its first operand before a token that is no operator. -/
theorem expression_end {e : Expr} (h : g.operandFirst ts = .ok (e, rest))
    (hend : g.dialect.nextStrength rest ≤ strength) : g.expression strength ts = .ok (e, rest) := by
  simp [expression, h, climb, hend]

/-! ## The literal -/

theorem nextStrength_nil (d : Dialect) : d.nextStrength [] = 0 := rfl

/-- Behind an operand stands neither a collation nor an operator of more than the given strength. -/
structure EndsOperand (d : Dialect) (strength : Nat) (rest : List Token) : Prop where
  uncollated : word? "COLLATE" rest = .ok (false, rest)
  weak : d.nextStrength rest ≤ strength

theorem EndsOperand.nil {d : Dialect} : EndsOperand d strength [] :=
  ⟨rfl, by rw [nextStrength_nil]; exact Nat.zero_le _⟩

theorem EndsOperand.of_le {d : Dialect} {weaker : Nat} (hle : weaker ≤ strength)
    (h : EndsOperand d weaker rest) : EndsOperand d strength rest :=
  ⟨h.uncollated, Nat.le_trans h.weak hle⟩

/-- What begins with no word is no text with the name of its type before it. -/
theorem typedText_no_word {t : Token} (h : ∀ n, t ≠ .word n) :
    attempt g.typedText (t :: ts) = .ok (none, t :: ts) := by
  cases t with
  | word n => exact absurd rfl (h n)
  | _ => simp [attempt, typedText, dataType, dataTypeUpTo, baseType]

theorem expression_text (h : EndsOperand g.dialect strength rest) (s : String) :
    g.expression strength (.text .plain s :: rest) = .ok (.text s, rest) := by
  refine expression_end (operandFirst_plain (typedText_no_word (by simp)) ?_ h.uncollated) h.weak
  simp [plainOperand, value]

theorem expression_number (h : EndsOperand g.dialect strength rest) (digits : String)
    (long : Bool) :
    g.expression strength (.number digits long :: rest) = .ok (.number digits long, rest) := by
  refine expression_end (operandFirst_plain (typedText_no_word (by simp)) ?_ h.uncollated) h.weak
  simp [plainOperand, value]

theorem expression_signed {e : Expr} (h : EndsOperand g.dialect strength rest) (negative : Bool)
    (hoperand : g.operandOf .times ts = .ok (e, rest)) :
    g.expression strength (.mark (if negative then "-" else "+") :: ts)
      = .ok (.signed negative e, rest) := by
  refine expression_end (operandFirst_plain (typedText_no_word (by simp)) ?_ h.uncollated) h.weak
  cases negative <;> simp [plainOperand, hoperand]

end Inside

open Inside

@[simp] theorem dialect_inside (d : Dialect) (n : Nat) (hierarchy : Bool) :
    (inside d n hierarchy).dialect = d := by
  cases n <;> rfl

/-- In place of an operand a literal is read as the literal that it is. -/
theorem operand_literal {d : Dialect} {strength : Nat} {rest : List Token} (n : Nat)
    (hierarchy : Bool) (hle : strength ≤ d.strength .times) (h : EndsOperand d strength rest)
    (l : Literal) :
    (inside d (n + 2) hierarchy).operand strength (l.tokens ++ rest) = .ok (l.expr, rest) := by
  have htimes : EndsOperand (inside d n hierarchy).dialect (d.strength .times) rest := by
    rw [dialect_inside]
    exact h.of_le hle
  match l with
  | .quoted content => exact expression_text (g := inside d (n + 1) hierarchy) h content
  | .parameter written => exact expression_text (g := inside d (n + 1) hierarchy) h written
  | .number none digits long =>
    exact expression_number (g := inside d (n + 1) hierarchy) h digits long
  | .number (some negative) digits long =>
    exact expression_signed (g := inside d (n + 1) hierarchy) h negative
      (expression_number (g := inside d n hierarchy) htimes digits long)

/-- No literal begins with a word. -/
theorem oneOf?_literal (l : Literal) (ks : List String) (rest : List Token) :
    oneOf? ks (l.tokens ++ rest) = .ok (none, l.tokens ++ rest) := by
  match l with
  | .quoted _ | .parameter _ | .number none _ _ | .number (some _) _ _ =>
    exact oneOf?_of_not_word fun _ => rfl

/-! ## The comparison -/

theorem nextStrength_comparison (d : Dialect) (c : Comparison) (ts : List Token) :
    d.nextStrength (.mark c.sql :: ts) = d.strength .compare := by
  cases c <;>
    simp [Dialect.nextStrength, Comparison.sql, Comparison.toFilterOperator, FilterOperator.sql,
      OperatorClass.ofMark?]

theorem markOperator?_comparison (d : Dialect) (c : Comparison) :
    d.markOperator? c.sql = some (.compare c) := by
  cases c <;> rfl

theorem strength_compare_pos (d : Dialect) : 0 < d.strength .compare := by cases d <;> decide

namespace Inside

variable {g : Inside} {rest ts : List Token}

/-- Behind a comparison stands its right side, unless a keyword for the members of a group does. -/
theorem continued_comparison {left right : Expr} {strength : Nat} (c : Comparison)
    (hgroup : oneOf? ["ANY", "ALL", "SOME"] ts = .ok (none, ts))
    (h : g.operand strength ts = .ok (right, rest)) :
    g.continued left strength (.mark c.sql :: ts)
      = .ok (.binary left (.compare c) right, rest) := by
  simp [continued, seesOneOf, markedOperator, markOperator?_comparison, rightSide, hgroup, h]

end Inside

/-- The condition is read as it is written, up to a weaker operator. -/
theorem readsTo_condition {d : Dialect} {strength : Nat} {rest : List Token} (n : Nat)
    (hierarchy : Bool) (c : Comparison) (l : Literal) (hstrong : strength < d.strength .compare)
    (h : EndsOperand d (d.strength .compare) rest) :
    (inside d (n + 2) hierarchy).ReadsTo strength (conditionTokens c l ++ rest)
      (conditionExpr c l) rest := by
  have hfirst : (inside d (n + 2) hierarchy).ReadsTo strength (conditionTokens c l ++ rest)
      (.column columnA) (.mark c.sql :: (l.tokens ++ rest)) :=
    .of_operandFirst (operandFirst_column (endsColumn_comparison c))
  have hright : (inside d (n + 2) hierarchy).operand (d.strength .compare) (l.tokens ++ rest)
      = .ok (l.expr, rest) := operand_literal n hierarchy (by cases d <;> decide) h l
  have hnext : (inside d (n + 2) hierarchy).dialect.nextStrength
      (.mark c.sql :: (l.tokens ++ rest)) = d.strength .compare := by
    rw [dialect_inside, nextStrength_comparison]
  -- the comparison takes the literal as its right side
  refine hfirst.continued (hnext ▸ hstrong) (hnext ▸ ?_) ?_
  · exact continued_comparison c (oneOf?_literal l _ rest) hright
  · simp only [List.length_append, List.length_cons]
    omega

/-- The condition is read as it is written. -/
theorem expr_condition (d : Dialect) (n : Nat) (hierarchy : Bool) (c : Comparison) (l : Literal) :
    (inside d (n + 3) hierarchy).expr (conditionTokens c l) = .ok (conditionExpr c l, []) := by
  have h := readsTo_condition n hierarchy c l (strength_compare_pos d) EndsOperand.nil
  rw [List.append_nil] at h
  exact h.expression (Nat.le_refl 0)

/-- Before the source the column is an expression of its own. -/
theorem expr_column (d : Dialect) (n : Nat) (hierarchy : Bool) (rest : List Token) :
    (inside d (n + 1) hierarchy).expr (columnTokens (.bare "FROM" :: rest))
      = .ok (.column columnA, .bare "FROM" :: rest) := by
  refine expression_end (operandFirst_column endsColumn_from) ?_
  simp [Dialect.nextStrength, OperatorClass.ofWord?]

/-! ## The select -/

namespace Inside

variable {g : Inside} {rest : List Token} {e : Expr}

/-- The column is the only result. -/
theorem selectItem_column (h : g.expr (columnTokens (.bare "FROM" :: rest))
      = .ok (.column columnA, .bare "FROM" :: rest)) :
    g.selectItem (columnTokens (.bare "FROM" :: rest))
      = .ok (.expr (.column columnA) none, .bare "FROM" :: rest) := by
  have hstarred : g.starred (columnTokens (.bare "FROM" :: rest))
      = .ok (.expr (.column columnA), .bare "FROM" :: rest) := by
    simp [starred, starPathUpTo, memberOrStar, h]
  have halias : alias? Keyword.noColumnAlias (.bare "FROM" :: rest)
      = .ok (none, .bare "FROM" :: rest) :=
    alias?_reserved (by simp) (by rw [Name.folded_from]; decide)
  simp [selectItem, hstarred, halias]

/-- A table before the conditions, without an alias. -/
theorem namedTable_where : g.namedTable (sourceTokens (.bare "t" :: rest))
    = .ok (tableT, .bare "WHERE" :: .bare "t" :: rest) := by
  have hpath : path (sourceTokens (.bare "t" :: rest))
      = .ok ([.bare "t"], .bare "WHERE" :: .bare "t" :: rest) := path_one (by simp)
  have halias : alias? Keyword.noTableAlias (.bare "WHERE" :: .bare "t" :: rest)
      = .ok (none, .bare "WHERE" :: .bare "t" :: rest) :=
    alias?_reserved (by simp) (by rw [Name.folded_where]; decide)
  have hpivots : many g.pivot? (.bare "WHERE" :: .bare "t" :: rest)
      = .ok ([], .bare "WHERE" :: .bare "t" :: rest) := many_none (by simp [pivot?])
  simp [namedTable, hpath, tableAlias?, halias, hints?, pivoted, hpivots, flag, optional]

/-- The table is the only source. -/
theorem sources_where : g.sources (sourceTokens (.bare "t" :: rest))
    = .ok ([.mk tableT []], .bare "WHERE" :: .bare "t" :: rest) := by
  have hsource : g.source (sourceTokens (.bare "t" :: rest))
      = .ok (tableT, .bare "WHERE" :: .bare "t" :: rest) := by
    simp [source, sourceUpTo, namedTable_where]
  have hjoins : many (g.join? g.source) (.bare "WHERE" :: .bare "t" :: rest)
      = .ok ([], .bare "WHERE" :: .bare "t" :: rest) :=
    many_none (by simp [join?, joinOperator?, seesOneOf, seesWord, areWords])
  exact list_one (by simp [fromPart, hsource, hjoins]) (by simp)

/-- The select is read as it is written if its condition is. -/
theorem select_condition
    (hcolumn : ∀ rest, g.expr (columnTokens (.bare "FROM" :: rest))
      = .ok (.column columnA, .bare "FROM" :: rest))
    (hcondition : g.expr (.bare "t" :: rest) = .ok (e, [])) :
    g.select (selectTokens (.bare "t" :: rest)) = .ok (oneConditionBody e, []) := by
  have hitems : list g.trailing g.selectItem
      (columnTokens (.bare "FROM" :: sourceTokens (.bare "t" :: rest)))
      = .ok ([.expr (.column columnA) none], .bare "FROM" :: sourceTokens (.bare "t" :: rest)) :=
    list_one (selectItem_column (hcolumn _)) (by simp)
  have hviews : many g.lateralView? (.bare "WHERE" :: .bare "t" :: rest)
      = .ok ([], .bare "WHERE" :: .bare "t" :: rest) := many_none (by simp [lateralView?])
  have hwhere : after? "WHERE" g.expr (.bare "WHERE" :: .bare "t" :: rest) = .ok (some e, []) :=
    after?_here Name.folded_where hcondition
  -- behind the condition all other clauses are absent
  have hword (ts : List Token) : word "SELECT" (.bare "SELECT" :: ts) = .ok ((), ts) := by
    simp [word, words, words?, areWords]
  have hgrouping : g.grouping [] = .ok ((false, [], []), []) := by simp [grouping]
  have hdistribution (k : String) : g.distribution k [] = .ok ([], []) := by simp [distribution]
  have hhierarchy : g.hierarchyText? [] = .ok (none, []) := by simp [hierarchyText?]
  simp [select, hword, distinctText?, hitems, sources_where, hviews, hwhere, hgrouping,
    hdistribution, hhierarchy, oneConditionBody]

/-! ## The query -/

/-- The query is read as it is written if its select is. -/
theorem wholeQuery_select (h : g.select (.bare "SELECT" :: rest) = .ok (oneConditionBody e, [])) :
    g.wholeQuery (.bare "SELECT" :: rest) = .ok (oneConditionQuery e, []) := by
  have hbody : g.body (.bare "SELECT" :: rest) = .ok (oneConditionBody e, []) := by
    simp [body, bodyUpTo, singleBody, seesWord, areWords, h, extendBody, combinationStrength]
  have horder : g.orderBy? [] = .ok ((none, none), []) := by simp [orderBy?]
  have hbounds : g.addBounds { limit := none, offset := none } []
      = .ok ({ limit := none, offset := none }, []) := by simp [addBounds]
  have hlocks : locks [] = .ok (([], none), []) := by simp [locks, many_none]
  simp [wholeQuery, ctes, queryBehind, hbody, horder, hbounds, limitBy?, settings?, hlocks, format?,
    oneConditionQuery]

end Inside

/-- The statements of the text are exactly the one query, in every dialect. -/
theorem statements_condition (d : Dialect) (n : Nat) (c : Comparison) (l : Literal) :
    (inside d (n + 5) false).statements (selectTokens (conditionTokens c l))
      = .ok ([.query (oneConditionQuery (conditionExpr c l))], []) := by
  have hselect :=
    select_condition (expr_column d (n + 3) false) (expr_condition d (n + 1) false c l)
  have hquery : (inside d (n + 5) false).query (selectTokens (conditionTokens c l))
      = .ok (oneConditionQuery (conditionExpr c l), []) := wholeQuery_select hselect
  simp [statements, statementsUpTo, statement, oneOf?_absent, plainStatement, hquery]

end QueryCanvas.Sql
