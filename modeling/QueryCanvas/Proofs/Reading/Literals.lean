import QueryCanvas.Proofs.Reading.Levels
import QueryCanvas.Proofs.Reading.Pieces
import QueryCanvas.Proofs.Sql.Parameters
import QueryCanvas.Proofs.Sql.Quoted
import QueryCanvas.Sql.Render

/-!
# Literals in conditions

A filter holds the value of a literal but not its kind, and the text decides what is written: what
looks like a number or a parameter is written as it is, anything else between quotes.  So a literal
is written back as the literal it was only in some cases, and here is told exactly in which.
-/

set_option autoImplicit false

namespace QueryCanvas

open Sql

namespace Sql

/-! ## Literals -/

/-- A literal on the right-hand side of a condition, as it stands in a text. -/
inductive Literal where
  /-- A text between quotes, with its content. -/
  | quoted (content : String)
  /-- A number, with a sign if it has one; the sign is set for a minus. -/
  | number (sign : Option Bool) (digits : String) (long : Bool)
  /-- A parameter without quotes, as it is written. -/
  | parameter (written : String)
deriving DecidableEq, Repr

namespace Literal

/-- The sign as it is written. -/
def signText : Option Bool → String
  | some true => "-"
  | some false => "+"
  | none => ""

/-- What a parser gives for the literal.  Parameters are put between quotes before a text is
parsed, so they are not told from quoted texts here. -/
def expr : Literal → Expr
  | quoted content => .text content
  | number none digits long => .number digits long
  | number (some negative) digits long => .signed negative (.number digits long)
  | parameter written => .text written

/-- The value that a filter holds for the literal. -/
def value : Literal → String
  | quoted content => content
  | number sign digits _ => signText sign ++ digits
  | parameter written => written

/-- The digits of a number begin with a digit or a point, and a parameter is one. -/
def WellFormed : Literal → Prop
  | quoted _ => True
  | number _ digits _ => ∃ c ∈ digits.toList.head?, c.isDigit = true ∨ c = '.'
  | parameter written => Parameter.isParameter written = true

/-- The text is that of the literal: between quotes stands what is read as the content, a number has
its sign and its digits, and a parameter stands for itself. -/
def WrittenAs (d : Dialect) (w : String) : Literal → Prop
  | quoted content => ∃ inner, w.toList = '\'' :: inner ∧
      Lexer.body? d '\'' d.hasBackslash inner = some (content.toList, [])
  | number sign digits long => w = signText sign ++ digits ++ flag long "L"
  | parameter written => w = written

/-- The literals that are written back as they were: quoted texts that look neither like a number
nor like a parameter, numbers that look like one and are not marked as long, and all parameters. -/
def Kept (d : Dialect) : Literal → Prop
  | quoted content =>
    Parameter.isParameter content = false ∧ isNumber content = false ∧
      (d.hasBackslash = true → Lexer.keepsBackslashes content.toList = true)
  | number sign digits long => long = false ∧ isNumber (signText sign ++ digits) = true
  | parameter _ => True

/-- What a parser gives for a literal is read as its value. -/
theorem literal_expr (l : Literal) : l.expr.literal = .ok l.value := by
  match l with
  | quoted _ | parameter _ => rfl
  | number none digits _ => simp [expr, Expr.literal, value, signText]
  | number (some true) _ _ | number (some false) _ _ => rfl

end Literal

/-! ## What is written for a value -/

/-- Between quotes a text is read back unless the dialect gives its backslashes a meaning. -/
theorem body?_quoted_iff (d : Dialect) (cs : List Char) :
    Lexer.body? d '\'' d.hasBackslash (doubled '\'' cs ++ ['\'']) = some (cs, []) ↔
      (d.hasBackslash = true → Lexer.keepsBackslashes cs = true) := by
  cases hd : d.hasBackslash with
  | false => simpa using Lexer.body?_doubled (d := d) cs (r := []) (by simp)
  | true =>
    have hmysql : d = .mysql := by simpa [Dialect.hasBackslash] using hd
    subst hmysql
    simpa using Lexer.body?_doubled_escaped cs

namespace Literal

/-- A number begins neither like a parameter nor like a quoted text. -/
theorem head_number {sign : Option Bool} {digits : String} {long : Bool}
    (h : WellFormed (number sign digits long)) : ∃ c cs,
      (signText sign ++ digits).toList = c :: cs ∧ c ≠ '\x7b' ∧ c ≠ '\'' := by
  obtain ⟨c, hc, hdigit⟩ := h
  cases hds : digits.toList with
  | nil => rw [hds] at hc; cases hc
  | cons d ds =>
    rw [hds] at hc
    have hfirst : d = c := Option.some.inj hc
    have hne : d ≠ '\x7b' ∧ d ≠ '\'' := by
      rw [hfirst]
      constructor <;> (rintro rfl; revert hdigit; decide)
    rw [String.toList_append, hds]
    match sign with
    | none => exact ⟨d, ds, rfl, hne⟩
    | some true => exact ⟨'-', d :: ds, rfl, by decide⟩
    | some false => exact ⟨'+', d :: ds, rfl, by decide⟩

/-- A literal is written back as the same literal exactly if it is one of those that are kept. -/
theorem writtenAs_formatValue_iff (d : Dialect) {l : Literal} (h : l.WellFormed) :
    l.WrittenAs d (formatValue l.value) ↔ l.Kept d := by
  cases l with
  | parameter written =>
    exact iff_of_true (formatValue_of_bare (.inl h)) trivial
  | quoted content =>
    by_cases hbare : Parameter.isParameter content = true ∨ isNumber content = true
    · refine iff_of_false ?_ ?_
      · rintro ⟨inner, hinner, -⟩
        rw [value, formatValue_of_bare hbare] at hinner
        exact head_ne_quote hbare (by rw [hinner]; rfl)
      · rintro ⟨hp, hn, -⟩
        rcases hbare with h | h
        · rw [hp] at h; cases h
        · rw [hn] at h; cases h
    · rw [not_or, Bool.not_eq_true, Bool.not_eq_true] at hbare
      have hwritten : (formatValue content).toList
          = '\'' :: (doubled '\'' content.toList ++ ['\'']) := by
        rw [formatValue_of_quoted hbare.1 hbare.2, toList_quoted, List.cons_append]
      simp only [WrittenAs, value, Kept, hbare, hwritten, true_and]
      rw [← body?_quoted_iff]
      constructor
      · rintro ⟨inner, hinner, hread⟩
        rwa [← (List.cons.inj hinner).2] at hread
      · exact fun hread => ⟨_, rfl, hread⟩
  | number sign digits long =>
    obtain ⟨c, cs, hhead, hbrace, hquote⟩ := head_number h
    have hparameter : Parameter.isParameter (signText sign ++ digits) = false := by
      rw [Bool.eq_false_iff]
      intro hp
      have := head_of_isParameter hp
      rw [hhead] at this
      exact hbrace (Option.some.inj this)
    cases hn : isNumber (signText sign ++ digits) with
    | true =>
      simp only [WrittenAs, value, Kept, hn, and_true, formatValue_of_bare (.inr hn)]
      cases long with
      | false => simp [flag]
      | true =>
        refine iff_of_false (fun heq => ?_) (by simp)
        have := congrArg (List.length ∘ String.toList) heq
        simp [flag] at this
    | false =>
      refine iff_of_false (fun heq => ?_) (by simp [Kept, hn])
      have htail : (signText sign ++ digits ++ flag long "L").toList
          = (signText sign ++ digits).toList ++ (flag long "L").toList := String.toList_append
      have hchars := congrArg String.toList heq
      rw [value, formatValue_of_quoted hparameter hn, toList_quoted, htail, hhead] at hchars
      exact hquote (List.cons.inj hchars).1.symm

end Literal

/-! ## Conditions of a text -/

/-- The right-hand side of a comparison or of a test with a pattern. -/
def Expr.comparand? : Expr → Option Expr
  | .binary _ _ right => some right
  | .like _ _ _ _ pattern _ => some pattern
  | _ => none

/-- A condition with a literal depicts as a filter with the value of the literal. -/
theorem depicts_comparand {d : Draft} {f : Filter} {e right : Expr} {value : String}
    (h : f.Depicts d e) (hright : e.comparand? = some right) (hvalue : right.literal = .ok value) :
    f.operator.TakesValue ∧ f.operand = .value value := by
  cases e with
  | binary left op right' =>
    cases hright
    cases right with
    | subquery _ => cases hvalue
    | _ =>
      obtain ⟨-, hop, v, hv, hoperand⟩ := h
      cases hv.symm.trans hvalue
      exact ⟨takesValue_of_filterOperator? hop, hoperand⟩
  | like anyCase negated any subject pattern escape =>
    cases hright
    obtain ⟨-, hop, v, hv, hoperand⟩ := h
    cases hv.symm.trans hvalue
    exact ⟨hop ▸ takesValue_likeOperator anyCase negated, hoperand⟩
  | _ => cases hright

/-- What is written for a filter with a single value. -/
theorem filterText_value {f : Filter} {value : String} (hop : f.operator.TakesValue)
    (hoperand : f.operand = .value value) (nested : List (SubqueryOf String)) :
    filterText nested f = f.column ++ " " ++ f.operator.sql ++ " " ++ formatValue value := by
  obtain ⟨hunary, hlist, hrange⟩ := hop
  simp [filterText, hunary, hlist, hrange, hoperand, Operand.subquery?, Operand.value?]

/-- The filter writes a literal on the right-hand side back as the same literal exactly if it is one
of those that are kept. -/
def WritesBack (d : Dialect) (f : Filter) (right : Expr) : Prop :=
  ∀ l : Literal, l.WellFormed → l.expr = right → ∀ nested, ∃ w,
    filterText nested f = f.column ++ " " ++ f.operator.sql ++ " " ++ w ∧
      (l.WrittenAs d w ↔ l.Kept d)

/-- In whatever text a canvas is read off: a literal on the right-hand side of a comparison or of a
test with a pattern is written back as the same literal exactly if it is one of those that are
kept. -/
theorem literal_kept_iff {dialect : Dialect} {catalog : Catalog} {text : String} {c : Canvas}
    {n n' : Nat} (h : Gives (readText dialect catalog text) n c n') :
    ∃ q, Query.parse dialect text = .ok q ∧
      q.allLevels.Forall₂ (fun k b => k.conditions.Forall₂ (fun e f =>
        ∀ right, e.1.comparand? = some right → WritesBack dialect f right) b.filters) c.blocks := by
  obtain ⟨q, hq, hread⟩ := gives_readText.1 h
  refine ⟨q, hq, ?_⟩
  refine (readCanvas_levels hread).imp fun k b hb => ?_
  rcases hb with ⟨rfl, rfl⟩ | ⟨s, d, -, hdepicted⟩
  · exact .nil
  · refine hdepicted.filters.imp fun e f hf right hright l hl hexpr nested => ?_
    obtain ⟨hop, hoperand⟩ := depicts_comparand hf.1 hright (hexpr ▸ l.literal_expr)
    exact ⟨formatValue l.value, filterText_value hop hoperand nested,
      Literal.writtenAs_formatValue_iff dialect hl⟩

/-- What is written for the conditions of the root block that is read off a text. -/
def writtenConditions (text : String) : Option (List String) :=
  (Query.parse .generic text).toOption.bind fun q =>
    ((readCanvas .empty q).run 0).1.toOption.map (·.root.filters.map (filterText []))

theorem gives_of_writtenConditions {text : String} {conditions : List String}
    (h : writtenConditions text = some conditions) :
    ∃ c n', Gives (readText .generic .empty text) 0 c n' ∧
      c.root.filters.map (filterText []) = conditions := by
  obtain ⟨q, hq, h⟩ := Option.bind_eq_some_iff.1 h
  obtain ⟨c, hc, rfl⟩ := Option.map_eq_some_iff.1 h
  have hparse : Query.parse .generic text = .ok q := by
    cases hr : Query.parse .generic text with
    | error e => rw [hr] at hq; cases hq
    | ok q' => rw [hr] at hq; rw [Option.some.inj hq]
  rcases hrun : (readCanvas .empty q).run 0 with ⟨_ | c', n'⟩
  · rw [hrun] at hc
    cases hc
  · rw [hrun] at hc
    cases hc
    exact ⟨c, n', gives_readText.2 ⟨q, hparse, hrun⟩, rfl⟩

/-- A text with a quoted text, a signed number and a parameter. -/
def keptLiterals : String :=
  "SELECT t.a FROM t WHERE t.a = 'it''s' AND t.b < -5 OR t.c LIKE \x7b\x7bp\x7d\x7d"

/-- All three are written back as they were. -/
theorem literal_kept_sample : ∃ c n', Gives (readText .generic .empty keptLiterals) 0 c n' ∧
    c.root.filters.map (filterText [])
      = ["t.a = 'it''s'", "t.b < -5", "t.c LIKE \x7b\x7bp\x7d\x7d"] ∧
    ∃ q, Query.parse .generic keptLiterals = .ok q ∧
      q.allLevels.Forall₂ (fun k b => k.conditions.Forall₂ (fun e f => ∀ right,
        e.1.comparand? = some right → WritesBack .generic f right) b.filters) c.blocks := by
  have hwritten : writtenConditions keptLiterals
      = some ["t.a = 'it''s'", "t.b < -5", "t.c LIKE \x7b\x7bp\x7d\x7d"] := by decide +kernel
  obtain ⟨c, n', hread, hconditions⟩ := gives_of_writtenConditions hwritten
  exact ⟨c, n', hread, hconditions, literal_kept_iff hread⟩

/-- A quoted text that looks like a number is written back as a number. -/
theorem quoted_number_unquoted : ∃ c n',
    Gives (readText .generic .empty "SELECT t.a FROM t WHERE t.a = '01234'") 0 c n' ∧
    c.root.filters.map (filterText []) = ["t.a = 01234"] ∧
    ¬(Literal.quoted "01234").WrittenAs .generic "01234" := by
  have hwritten : writtenConditions "SELECT t.a FROM t WHERE t.a = '01234'"
      = some ["t.a = 01234"] := by decide +kernel
  obtain ⟨c, n', hread, hconditions⟩ := gives_of_writtenConditions hwritten
  refine ⟨c, n', hread, hconditions, ?_⟩
  rintro ⟨inner, hinner, -⟩
  exact absurd (congrArg List.head? hinner) (by simp)

end Sql

end QueryCanvas
