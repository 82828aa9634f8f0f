import QueryCanvas.Proofs.Written.Results

/-!
# Reading selects

The clauses of a select one after the other, each with the tokens of its written form.  Clauses that
are not written are passed over.
-/

set_option autoImplicit false

namespace QueryCanvas.Sql

open Sql.Parser

variable {n : Nat} {ts rest : List Token} {name t c : String} {q : Part Query}

/-! ## The `FROM` clause -/

/-- What can follow an item of the `FROM` clause. -/
def fromEnds : List Lead :=
  [.none, .mark ")", .mark ",", .word "WHERE", .word "GROUP", .word "HAVING", .word "ORDER",
   .word "LIMIT"]

/-- An item of the `FROM` clause. -/
def Part.IsFrom (p : Part FromPart) : Prop :=
  ∀ n rest, lead rest ∈ fromEnds →
    Takes n ((grammar n).fromPart (grammar n).source) (p.tokens ++ rest) p.levels p.value rest

theorem join?_skip (h : lead rest ∈ fromEnds) :
    (grammar n).join? (grammar n).source rest = .ok (none, rest) := by
  have hsees : ∀ k ∈ ["INNER", "JOIN"], lead rest ≠ .word k := by
    intro k hk
    refine ne_of_lead h ?_
    revert k
    decide
  have hoperator : Inside.joinOperator? false rest = .ok (none, rest) := by
    unfold Inside.joinOperator?
    refine (bind_ok (seesOneOf_skip hsees) _).trans ?_
    refine (bind_ok (seesWord_skip (ne_of_lead h (by decide))) _).trans ?_
    refine (bind_ok (seesWord_skip (ne_of_lead h (by decide))) _).trans ?_
    refine (bind_ok (word?_skip (ne_of_lead h (by decide))) _).trans ?_
    exact (bind_ok (seesWord_skip (ne_of_lead h (by decide))) _).trans rfl
  unfold Inside.join?
  refine (bind_ok (word?_skip (ne_of_lead h (by decide))) _).trans ?_
  refine (bind_ok (word?_skip (ne_of_lead h (by decide))) _).trans ?_
  refine (bind_ok (words?_skip (ne_of_lead h (by decide))) _).trans ?_
  refine (bind_ok (word?_skip (ne_of_lead h (by decide))) _).trans ?_
  refine (bind_ok (word?_skip (ne_of_lead h (by decide))) _).trans ?_
  exact (bind_ok hoperator _).trans rfl

/-- A join as one of those that follow each other. -/
structure Part.IsJoin (p : Part JoinClause) : Prop where
  lead : ∀ rest, lead (p.tokens ++ rest) ∈ joinEnds
  takes : ∀ n rest, Sql.lead rest ∈ joinEnds →
    Takes n ((grammar n).join? (grammar n).source) (p.tokens ++ rest) p.levels (some p.value) rest

theorem isJoin_joinPart {kind : JoinKind} {l : List Member} (hname : Identifier name) (hne : l ≠ [])
    (hl : ∀ x ∈ l, x.1.IsCondition) : (joinPart kind name l).IsJoin := by
  refine ⟨fun rest => ?_, fun n rest => join?_take hname hne hl⟩
  show lead (bare (kindWord kind) :: _) ∈ joinEnds
  rw [lead_keyword (by cases kind <;> decide)]
  cases kind <;> decide

/-- A table with what is joined to it. -/
def tableItem (name : String) (joins : List (Part JoinClause)) : Part FromPart :=
  ⟨bare name :: (joins.map (·.tokens)).flatten, deepest (joins.map (·.levels)),
    .mk (tablePart name).value (joins.map (·.value))⟩

/-- A nested query with its alias. -/
def derivedItem (q : Part Query) (aliasName : Option String) : Part FromPart :=
  ⟨(derivedPart q aliasName).tokens, (derivedPart q aliasName).levels,
    .mk (derivedPart q aliasName).value []⟩

theorem isFrom_table {joins : List (Part JoinClause)} (hname : Identifier name)
    (hjoins : ∀ p ∈ joins, p.IsJoin) : (tableItem name joins).IsFrom := by
  have hsub : ∀ x ∈ fromEnds, x ∈ joinEnds := by decide
  have hends : ∀ x ∈ joinEnds, x ∈ sourceEnds := by decide
  intro n rest hrest
  have hlead : lead ((joins.map (·.tokens)).flatten ++ rest) ∈ joinEnds := by
    cases joins with
    | nil => exact hsub _ hrest
    | cons p joins =>
      rw [List.map_cons, List.flatten_cons, List.append_assoc]
      exact (hjoins p List.mem_cons_self).lead _
  have hmany := Takes.many (n := n) (join?_skip hrest)
    (hsub _ hrest) fun p hp => by
      refine ⟨?_, (hjoins p hp).lead, (hjoins p hp).takes n⟩
      intro hnil
      have hnone := (hjoins p hp).lead []
      have htext := (hjoins p hp).lead [.text .plain ""]
      rw [hnil] at htext
      revert htext
      decide
  unfold Inside.fromPart
  have hfirst := isSource_table hname n _ (hends _ hlead)
  have hwhole := Takes.bind (f := fun first => do
    return FromPart.mk first (← many ((grammar n).join? (grammar n).source))) hfirst
      (Takes.last hmany rfl)
  simp only [tablePart, Nat.zero_max] at hwhole
  exact hwhole

theorem isFrom_derived (hq : q.IsQuery) (aliasName : Option String) :
    (derivedItem q aliasName).IsFrom := by
  have hends : ∀ x ∈ fromEnds, x ∈ sourceEnds := by decide
  intro n rest hrest
  unfold Inside.fromPart
  refine Takes.last (isSource_derived hq aliasName n rest (hends _ hrest)) ?_
  exact (bind_ok (many_none (join?_skip hrest)) _).trans rfl

/-- The `FROM` clause, left out if nothing is read from. -/
def fromClausePart : List (Part FromPart) → Part (List FromPart)
  | [] => ⟨[], 0, []⟩
  | p :: l =>
    ⟨bare "FROM" :: commaTokens ((p :: l).map (·.tokens)), deepest ((p :: l).map (·.levels)),
      (p :: l).map (·.value)⟩

/-! ## Clauses that begin with a keyword -/

/-- What can follow the `FROM` clause. -/
def selectEnds : List Lead :=
  [.none, .mark ")", .word "WHERE", .word "GROUP", .word "HAVING", .word "ORDER", .word "LIMIT"]

/-- A clause of conditions, left out if there are none. -/
def conditionsPart (k : String) : List Member → Part (Option Expr)
  | [] => ⟨[], 0, none⟩
  | m :: l =>
    ⟨bare k :: tiedTokens (m :: l), chainLevels (memberLevels (m :: l)) + 1,
      some (wholeTree (memberValues (m :: l)))⟩

/-- The `GROUP BY` clause, left out if there are no terms. -/
def groupPart : List (Part Expr) → Part (List Expr)
  | [] => ⟨[], 0, []⟩
  | p :: l =>
    ⟨bare "GROUP" :: bare "BY" :: commaTokens ((p :: l).map (·.tokens)),
      deepest ((p :: l).map (·.levels)), (p :: l).map (·.value)⟩

/-- The `ORDER BY` clause, left out if there are no terms. -/
def orderPart : List (Part OrderTerm) → Part (Option (List OrderTerm))
  | [] => ⟨[], 0, none⟩
  | p :: l =>
    ⟨bare "ORDER" :: bare "BY" :: commaTokens ((p :: l).map (·.tokens)),
      deepest ((p :: l).map (·.levels)), some ((p :: l).map (·.value))⟩

/-- The `LIMIT` clause, left out if there is no limit. -/
def limitPart : Option (Part Expr) → Part (Option Expr)
  | none => ⟨[], 0, none⟩
  | some p => ⟨bare "LIMIT" :: p.tokens, p.levels, some p.value⟩

/-- A term of a grouping. -/
structure Part.IsGroup (p : Part Expr) : Prop where
  takes : ∀ n rest, lead rest ∈ expressionEnds →
    Takes n (grammar n).groupTerm (p.tokens ++ rest) p.levels p.value rest
  lead : ∀ rest, lead (p.tokens ++ rest) ≠ .word "ALL"

/-- A term that rows are sorted by. -/
def Part.IsTerm (p : Part OrderTerm) : Prop :=
  ∀ n rest, lead rest = .mark "," ∨ lead rest ∈ selectEnds →
    Takes n (grammar n).orderTerm (p.tokens ++ rest) p.levels p.value rest

/-- A limit. -/
structure Part.IsLimit (p : Part Expr) : Prop where
  takes : ∀ n rest, lead rest ∈ queryEnds →
    Takes n (grammar n).expr (p.tokens ++ rest) p.levels p.value rest
  lead : ∀ rest, lead (p.tokens ++ rest) ≠ .word "ALL"

/-! ## One clause -/

theorem lead_clause {k : String} {leads leads' : List Lead} (hk : k ∈ writtenKeywords)
    (hmem : Lead.word k ∈ leads) (hsub : ∀ x ∈ leads', x ∈ leads) {tokens : List Token}
    (htokens : tokens = [] ∨ ∃ behind, tokens = bare k :: behind) (hrest : lead rest ∈ leads') :
    lead (tokens ++ rest) ∈ leads := by
  rcases htokens with rfl | ⟨behind, rfl⟩
  · exact hsub _ hrest
  · rw [List.cons_append, lead_keyword hk]
    exact hmem

theorem takes_conditions {k : String} {l : List Member} (hk : k ∈ writtenKeywords)
    (hl : ∀ x ∈ l, x.1.IsCondition) (hrest : lead rest ∈ selectEnds) (hne : lead rest ≠ .word k) :
    Takes n (after? k (grammar n).expr) ((conditionsPart k l).tokens ++ rest)
      (conditionsPart k l).levels (conditionsPart k l).value rest := by
  have hsub : ∀ x ∈ selectEnds, x ∈ conditionEnds ∧ x ∈ expressionEnds := by decide
  cases l with
  | nil => exact Takes.of_eq (after?_skip hne)
  | cons m l =>
    exact Takes.after? hk (takes_chain (by simp) hl (hsub _ hrest).1 (hsub _ hrest).2)

/-- What can follow the conditions of a `WHERE` clause. -/
def groupEnds : List Lead := [.none, .mark ")", .word "HAVING", .word "ORDER", .word "LIMIT"]

theorem groupModifiers_skip (h : lead rest ∈ groupEnds) :
    (grammar n).groupModifiers rest = .ok ([], rest) := by
  unfold Inside.groupModifiers
  rw [grammar_dialect, if_pos rfl]
  exact many_none ((bind_ok (word?_skip (ne_of_lead h (by decide))) _).trans rfl)

theorem takes_grouping {l : List (Part Expr)} (hl : ∀ p ∈ l, p.IsGroup)
    (hrest : lead rest ∈ groupEnds) :
    Takes n (grammar n).grouping ((groupPart l).tokens ++ rest) (groupPart l).levels
      (false, l.map (·.value), []) rest := by
  unfold Inside.grouping
  cases l with
  | nil => exact Takes.of_eq ((bind_ok (words?_skip (ne_of_lead hrest (by decide))) _).trans rfl)
  | cons p l =>
    have hlead : lead (commaTokens ((p :: l).map (·.tokens)) ++ rest) ≠ .word "ALL" := by
      cases l with
      | nil => exact (hl p (by simp)).lead rest
      | cons p' l =>
        have hp := (hl p (by simp)).lead (.mark "," ::
          (commaTokens ((p' :: l).map (·.tokens)) ++ rest))
        simpa [commaTokens] using hp
    have hterms : Takes n (list (grammar n).trailing (grammar n).groupTerm)
        (commaTokens ((p :: l).map (·.tokens)) ++ rest) (groupPart (p :: l)).levels
        ((p :: l).map (·.value)) rest := by
      rw [grammar_trailing]
      refine Takes.list (by simp) (ne_of_lead hrest (by decide)) fun p hp next hnext => ?_
      have hsub : ∀ x ∈ groupEnds, x ∈ expressionEnds := by decide
      refine (hl p hp).takes n next ?_
      rcases hnext with hnext | rfl
      · rw [hnext]
        decide
      · exact hsub _ hrest
    refine Takes.step (words?_take (by decide) (by decide)) ?_
    rw [if_pos rfl]
    refine Takes.step (word?_skip hlead) ?_
    rw [if_neg (by decide)]
    exact Takes.last hterms ((bind_ok (groupModifiers_skip hrest) _).trans rfl)

/-- What can follow the conditions on groups. -/
def orderEnds : List Lead := [.none, .mark ")", .word "LIMIT"]

theorem takes_orderBy {l : List (Part OrderTerm)} (hl : ∀ p ∈ l, p.IsTerm)
    (hrest : lead rest ∈ orderEnds) :
    Takes n (grammar n).orderBy? ((orderPart l).tokens ++ rest) (orderPart l).levels
      ((orderPart l).value, none) rest := by
  unfold Inside.orderBy?
  cases l with
  | nil => exact Takes.of_eq ((bind_ok (words?_skip (ne_of_lead hrest (by decide))) _).trans rfl)
  | cons p l =>
    have hterms : Takes n (grammar n).orderTerms (commaTokens ((p :: l).map (·.tokens)) ++ rest)
        (orderPart (p :: l)).levels ((p :: l).map (·.value)) rest := by
      rw [Inside.orderTerms, grammar_trailing]
      refine Takes.list (by simp) (ne_of_lead hrest (by decide)) fun p hp next hnext => ?_
      have hsub : ∀ x ∈ orderEnds, x ∈ selectEnds := by decide
      refine hl p hp n next (hnext.imp_right ?_)
      rintro rfl
      exact hsub _ hrest
    refine Takes.step (words?_take (by decide) (by decide)) ?_
    rw [if_pos rfl]
    refine Takes.last hterms ?_
    rw [grammar_dialect, if_pos rfl]
    exact (bind_ok (after?_skip (ne_of_lead hrest (by decide))) _).trans rfl

/-- Bounds are added where a limit is written, and nothing else is. -/
theorem takes_bounds {o : Option (Part Expr)} (ho : ∀ p ∈ o, p.IsLimit)
    (hrest : lead rest ∈ queryEnds) :
    Takes n ((grammar n).addBounds { limit := none, offset := none })
      ((limitPart o).tokens ++ rest) (limitPart o).levels
      { limit := (limitPart o).value, offset := none } rest := by
  have hlimit := word?_skip (ne_of_lead hrest (x := .word "LIMIT") (by decide))
  have hoffset := word?_skip (ne_of_lead hrest (x := .word "OFFSET") (by decide))
  unfold Inside.addBounds
  cases o with
  | none =>
    refine Takes.of_eq ((bind_ok hlimit _).trans ?_)
    exact (bind_ok (p := pure _) rfl _).trans ((bind_ok hoffset _).trans rfl)
  | some p =>
    refine Takes.step (word?_take (by decide)) ?_
    refine Takes.step (word?_skip ((ho p rfl).lead rest)) ?_
    refine Takes.last ((ho p rfl).takes n rest hrest) ?_
    refine (bind_ok (p := pure _) rfl _).trans ((bind_ok hoffset _).trans ?_)
    refine (bind_ok (p := pure _) rfl _).trans ?_
    simp only [grammar_dialect]
    rw [if_pos (by decide)]
    exact (bind_ok (mark?_skip (ne_of_lead hrest (by decide))) _).trans rfl

/-- Nothing is added where neither a limit nor an offset is written. -/
theorem addBounds_skip (limit : Option Expr) (hrest : lead rest ∈ queryEnds) :
    (grammar n).addBounds { limit, offset := none } rest =
      .ok ({ limit, offset := none }, rest) := by
  have hlimit := word?_skip (ne_of_lead hrest (x := .word "LIMIT") (by decide))
  have hoffset := word?_skip (ne_of_lead hrest (x := .word "OFFSET") (by decide))
  unfold Inside.addBounds
  refine (bind_ok hlimit _).trans ?_
  cases limit with
  | none => exact (bind_ok (p := pure _) rfl _).trans ((bind_ok hoffset _).trans rfl)
  | some e =>
    refine (bind_ok (p := pure _) rfl _).trans ((bind_ok hoffset _).trans ?_)
    refine (bind_ok (p := pure _) rfl _).trans ?_
    simp only [grammar_dialect]
    rw [if_pos (by decide)]
    exact (bind_ok (mark?_skip (ne_of_lead hrest (by decide))) _).trans rfl

/-! ## Terms -/

theorem isGroup_column (ht : Identifier t) : Part.IsGroup ⟨(columnPart t c).tokens, 1,
    (columnPart t c).value⟩ := by
  refine ⟨fun n rest hrest => ?_, fun rest => ht.lead_ne (by decide)⟩
  unfold Inside.groupTerm
  rw [grammar_dialect, if_pos (by decide)]
  refine Takes.step (words?_skip (ht.lead_ne (by decide))) ?_
  refine Takes.step (word?_skip (ht.lead_ne (by decide))) ?_
  refine Takes.step (word?_skip (ht.lead_ne (by decide))) ?_
  exact Takes.step (p := ahead) rfl (takes_column ht hrest)

/-- A term that rows are sorted by, with its direction. -/
def termPart (t c : String) (direction : SortDirection) : Part OrderTerm :=
  ⟨(columnPart t c).tokens ++ [bare direction.sql], 1,
    .mk (columnPart t c).value (some (direction = .desc)) none ""⟩

theorem fillText_skip (h : lead rest ≠ .word "WITH") :
    (grammar n).fillText rest = .ok ("", rest) := by
  unfold Inside.fillText
  rw [grammar_dialect, if_pos rfl]
  exact (bind_ok (words?_skip h) _).trans rfl

theorem isTerm_column (ht : Identifier t) (direction : SortDirection) :
    (termPart t c direction).IsTerm := by
  intro n rest hrest
  have hends : lead (bare direction.sql :: rest) ∈ expressionEnds := by
    rw [lead_keyword (by cases direction <;> decide)]
    cases direction <;> decide
  have hnext : lead rest ∈ .mark "," :: selectEnds := List.mem_cons.2 hrest
  have hnulls : lead rest ≠ .word "NULLS" := ne_of_lead hnext (by decide)
  have hfirst : words? ["NULLS", "FIRST"] rest = .ok (false, rest) := words?_skip hnulls
  have hlast : words? ["NULLS", "LAST"] rest = .ok (false, rest) := words?_skip hnulls
  have hfill := fillText_skip (n := n) (ne_of_lead hnext (by decide))
  have htokens : (termPart t c direction).tokens ++ rest =
      (columnPart t c).tokens ++ bare direction.sql :: rest := by simp [termPart]
  rw [htokens]
  unfold Inside.orderTerm
  refine Takes.last (takes_column ht hends) ?_
  cases direction with
  | asc =>
    refine (bind_ok (word?_take (k := "ASC") (by decide)) _).trans ?_
    refine (bind_ok (p := pure _) rfl _).trans ?_
    refine (bind_ok hfirst _).trans ((bind_ok hlast _).trans ?_)
    exact (bind_ok (p := pure _) rfl _).trans ((bind_ok hfill _).trans rfl)
  | desc =>
    refine (bind_ok (word?_other (k := "DESC") (by decide) (by decide)) _).trans ?_
    refine (bind_ok (word?_take (k := "DESC") (by decide)) _).trans ?_
    refine (bind_ok (p := pure _) rfl _).trans ?_
    refine (bind_ok hfirst _).trans ((bind_ok hlast _).trans ?_)
    exact (bind_ok (p := pure _) rfl _).trans ((bind_ok hfill _).trans rfl)

/-- A part one level deeper, as a whole expression. -/
theorem Constant.isLimit {s : String} {p : Part Expr} (h : Constant s p) : p.deeper.IsLimit := by
  have hsub : ∀ x ∈ queryEnds, x ∈ conditionEnds ∧ x ∈ expressionEnds := by decide
  refine ⟨fun n rest hrest => ?_, fun rest => ?_⟩
  · exact Takes.operand fun n => (Opens.operand (h.takes (hsub _ hrest).1)).expression
      (strength_expressionEnds (hsub _ hrest).2)
  · cases h <;> simp [Part.deeper, Sql.lead]

end QueryCanvas.Sql
