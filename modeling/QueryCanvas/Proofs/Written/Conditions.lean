import QueryCanvas.Proofs.Written.Values
import QueryCanvas.Shape

/-!
# Reading conditions

The conditions of a `WHERE` clause, each with the tokens of its written form, and the tree as which
conditions tied by `AND` and `OR` are read.
-/

set_option autoImplicit false

namespace QueryCanvas.Sql

section Conditions

open Sql.Parser

variable {n strength : Nat} {ts rest : List Token} {t c : String} {negated : Bool}
  {s v low high : Part Expr} {items : List (Part Expr)} {q : Part Query}

/-! ## Columns and operands -/

/-- A table's column. -/
def columnPart (t c : String) : Part Expr :=
  ⟨[bare t, .mark ".", bare c], 0, .column [.bare t, .bare c]⟩

/-- The keywords that mean something in front of an operand. -/
def operandKeywords : List String := ["ANY", "ALL", "SOME", "SELECT", "WITH"]

/-- The operand of a comparison. -/
structure Part.IsOperand (v : Part Expr) : Prop where
  takes : ∀ n rest, lead rest ∈ conditionEnds →
    Takes n (grammar n).operandFirst (v.tokens ++ rest) v.levels v.value rest
  lead : ∀ rest, ∀ k ∈ operandKeywords, lead (v.tokens ++ rest) ≠ .word k

/-- What a condition is on, before an operator. -/
structure Part.IsSubject (s : Part Expr) : Prop where
  takes : ∀ n rest, lead rest ∈ operandEnds →
    Takes n (grammar n).operandFirst (s.tokens ++ rest) s.levels s.value rest
  lead : ∀ rest, ∀ k ∈ operandKeywords, lead (s.tokens ++ rest) ≠ .word k

theorem isSubject_column (ht : Identifier t) : (columnPart t c).IsSubject := by
  have hsub : ∀ k ∈ operandKeywords, k ∈ namedKeywords := by decide
  exact ⟨fun n rest hrest => operandFirst_reference ht hrest,
    fun rest k hk => ht.lead_ne (hsub k hk)⟩

theorem Part.IsSubject.isOperand (h : s.IsSubject) : s.IsOperand :=
  ⟨fun n rest hrest => h.takes n rest (operandEnds_of_condition hrest), h.lead⟩

theorem Constant.isOperand {s : String} (h : Constant s v) : v.IsOperand := by
  refine ⟨fun n rest hrest => h.takes hrest, fun rest k _ => ?_⟩
  cases h <;> simp [Sql.lead]

namespace Part.IsOperand

/-- An operand on the right side of an operator. -/
theorem takes_operand (h : v.IsOperand) (hrest : Sql.lead rest ∈ conditionEnds)
    (hstrength : 10 ≤ strength) :
    Takes n ((grammar n).operand strength) (v.tokens ++ rest) (v.levels + 1) v.value rest :=
  Takes.operand fun n => (Opens.operand (h.takes n rest hrest)).expression
    (Nat.le_trans (strength_conditionEnds hrest) hstrength)

end Part.IsOperand

/-- A part one level deeper in the grammar. -/
def Part.deeper {α : Type} (p : Part α) : Part α := { p with levels := p.levels + 1 }

/-- Operands with commas between them. -/
theorem takes_exprs (hne : items ≠ []) (hitems : ∀ v ∈ items, v.IsOperand)
    (hrest : lead rest = .mark ")") :
    Takes n (grammar n).exprs (commaTokens (items.map (·.tokens)) ++ rest)
      (deepest (items.map (·.levels + 1))) (items.map (·.value)) rest := by
  have hparts : ∀ p ∈ items.map Part.deeper, ∀ next, lead next = .mark "," ∨ next = rest →
      Takes n (grammar n).expr (p.tokens ++ next) p.levels p.value next := by
    intro p hp next hnext
    obtain ⟨v, hv, rfl⟩ := List.mem_map.1 hp
    have hends : lead next ∈ conditionEnds ∧ lead next ∈ expressionEnds := by
      rcases hnext with hnext | rfl
      · rw [hnext]
        decide
      · rw [hrest]
        decide
    exact Takes.operand fun n => (Opens.operand ((hitems v hv).takes n next hends.1)).expression
      (strength_expressionEnds hends.2)
  have hlist := Takes.list (by simpa using hne) (by simp [hrest]) hparts
  rw [Inside.exprs, grammar_trailing]
  simpa [Part.deeper, Function.comp_def] using hlist

/-- What can follow a query. -/
def queryEnds : List Lead := [.none, .mark ")"]

/-- A written query. -/
structure Part.IsQuery (q : Part Query) : Prop where
  head : ∃ ts, q.tokens = bare "SELECT" :: ts
  takes : ∀ n rest, lead rest ∈ queryEnds →
    Takes n (grammar n).wholeQuery (q.tokens ++ rest) q.levels q.value rest

/-- A query in parentheses as an operand. -/
def subqueryPart (q : Part Query) : Part Expr :=
  ⟨.mark "(" :: (q.tokens ++ [.mark ")"]), q.levels + 1, .subquery q.value⟩

theorem Part.IsQuery.takes_operandFirst (h : q.IsQuery) (hrest : lead rest ∈ operandEnds) :
    Takes n (grammar n).operandFirst ((subqueryPart q).tokens ++ rest) (q.levels + 1)
      (.subquery q.value) rest := by
  obtain ⟨ts, hts⟩ := h.head
  have hquery : ∀ n, Takes n (grammar n).wholeQuery (q.tokens ++ .mark ")" :: rest) q.levels q.value
      (.mark ")" :: rest) := fun n => h.takes n _ (show Lead.mark ")" ∈ queryEnds by decide)
  have htokens : (subqueryPart q).tokens ++ rest =
      .mark "(" :: (q.tokens ++ .mark ")" :: rest) := by simp [subqueryPart]
  rw [htokens]
  rw [hts, List.cons_append] at hquery ⊢
  exact operandFirst_subquery (by decide) hquery hrest

theorem Part.IsQuery.isOperand (h : q.IsQuery) : (subqueryPart q).IsOperand :=
  ⟨fun _ _ hrest => h.takes_operandFirst (operandEnds_of_condition hrest),
    fun rest k _ => by simp [subqueryPart, Sql.lead]⟩

/-! ## Conditions -/

/-- A condition among conditions tied by `AND` and `OR`. -/
structure Part.IsCondition (p : Part Expr) : Prop where
  opens : ∀ n strength rest, strength ≤ 10 → lead rest ∈ conditionEnds →
    Opens n strength (p.tokens ++ rest) p.levels p.value rest
  lead : ∀ rest, ∀ k ∈ operandKeywords, lead (p.tokens ++ rest) ≠ .word k

/-- A condition on a subject: what stands behind the subject is taken in. -/
theorem isCondition_of_continued {p : Part Expr} {behind : List Token} {levels : Nat} {x : Lead}
    (hs : s.IsSubject) (htokens : p.tokens = s.tokens ++ behind)
    (hlevels : p.levels = max s.levels levels)
    (hlead : ∀ rest, lead (behind ++ rest) = x) (hx : x ∈ operandEnds)
    (hstronger : ∀ rest, 10 < Dialect.generic.nextStrength (behind ++ rest)) (hne : behind ≠ [])
    (hstep : ∀ n strength rest, lead rest ∈ conditionEnds → 10 ≤ strength →
      Takes n ((grammar n).continued s.value strength) (behind ++ rest) levels p.value rest) :
    p.IsCondition := by
  refine ⟨fun n strength rest hstrength hrest => ?_, fun rest k hk => ?_⟩
  · have hsubject : Opens n strength (p.tokens ++ rest) s.levels s.value (behind ++ rest) := by
      rw [htokens, List.append_assoc]
      exact Opens.operand (hs.takes n _ ((hlead rest).symm ▸ hx))
    have hlength : 0 < behind.length := List.length_pos_iff.2 hne
    rw [hlevels]
    exact hsubject.continued (Nat.lt_of_le_of_lt hstrength (hstronger rest))
      (hstep n _ rest hrest (Nat.le_of_lt (hstronger rest))) (by rw [List.length_append]; omega)
  · rw [htokens, List.append_assoc]
    exact hs.lead _ k hk

/-- The keywords of tests. -/
def testKeywords : List String :=
  ["NOT", "IN", "BETWEEN", "LIKE", "ILIKE", "SIMILAR", "REGEXP", "RLIKE"]

/-! ### Comparisons -/

/-- A comparison with a value or with a query. -/
def comparePart (s : Part Expr) (op : Comparison) (v : Part Expr) : Part Expr :=
  ⟨s.tokens ++ .mark op.sql :: v.tokens, max s.levels (v.levels + 1),
    .binary s.value (.compare op) v.value⟩

theorem markOperator?_compare (op : Comparison) :
    Dialect.generic.markOperator? op.sql = some (.compare op) := by
  cases op <;> rfl

theorem isCondition_compare (hs : s.IsSubject) (op : Comparison) (hv : v.IsOperand) :
    (comparePart s op v).IsCondition := by
  have hmark : Lead.mark op.sql ∈ operandEnds ∧ 10 < (Lead.mark op.sql).binding ∧
      Lead.mark op.sql ∉ [.word "AT", .word "NOT", .mark "^", .other] := by cases op <;> decide
  refine isCondition_of_continued hs rfl rfl (fun rest => rfl) hmark.1 (fun rest => ?_) (by simp)
    fun n strength rest hrest hstrength => ?_
  · rw [nextStrength_of_lead]
    · exact hmark.2.1
    · exact hmark.2.2
  · unfold Inside.continued
    refine Takes.step (seesOneOf_skip fun k _ => by simp [lead]) ?_
    refine Takes.step (p := next) rfl ?_
    show Takes n ((grammar n).markedOperator _ op.sql strength) (v.tokens ++ rest) _ _ _
    unfold Inside.markedOperator
    rw [grammar_dialect, markOperator?_compare]
    have hsub : ∀ k ∈ ["ANY", "ALL", "SOME"], k ∈ operandKeywords := by decide
    refine Takes.step (oneOf?_skip fun k hk => hv.lead rest k (hsub k hk)) ?_
    exact Takes.last (hv.takes_operand hrest hstrength) rfl

/-! ### Tests -/

/-- The word that negates a test. -/
def notTokens (negated : Bool) : List Token := if negated then [bare "NOT"] else []

/-- The keywords of tests that can be negated. -/
def negatableKeywords : List String := ["IN", "BETWEEN", "LIKE", "ILIKE"]

theorem negatable_written {k : String} (hk : k ∈ negatableKeywords) :
    k ∈ writtenKeywords ∧ k ∈ testKeywords ∧ k ≠ "NOT" := by
  revert k
  decide

theorem word?_not {k : String} (hk : k ∈ negatableKeywords) :
    word? "NOT" (notTokens negated ++ bare k :: ts) = .ok (negated, bare k :: ts) := by
  obtain ⟨hwritten, -, hne⟩ := negatable_written hk
  cases negated
  · refine word?_skip ?_
    rw [notTokens, if_neg (by decide), List.nil_append, lead_keyword hwritten]
    rintro ⟨⟩
    exact hne rfl
  · exact word?_take (by decide)

theorem seesOneOf_test {k : String} (hk : k ∈ negatableKeywords) :
    seesOneOf testKeywords (notTokens negated ++ bare k :: ts) =
      .ok (true, notTokens negated ++ bare k :: ts) := by
  obtain ⟨hwritten, htest, -⟩ := negatable_written hk
  cases negated
  · exact seesOneOf_take hwritten htest
  · exact seesOneOf_take (by decide) (by decide)

theorem continued_test {k : String} (hk : k ∈ negatableKeywords) (left : Expr) :
    (grammar n).continued left strength (notTokens negated ++ bare k :: ts) =
      (grammar n).compared left (notTokens negated ++ bare k :: ts) :=
  (bind_ok (seesOneOf_test hk) _).trans (by rw [if_pos rfl])

theorem oneOf_test {k : String} (hk : k ∈ negatableKeywords) :
    oneOf ["REGEXP", "RLIKE", "IN", "BETWEEN", "LIKE", "ILIKE", "SIMILAR"] (bare k :: ts) =
      .ok (k, ts) := by
  have hlist : k ∈ ["REGEXP", "RLIKE", "IN", "BETWEEN", "LIKE", "ILIKE", "SIMILAR"] := by
    revert k
    decide
  exact oneOf_take (negatable_written hk).1 hlist

theorem continued_in (left : Expr) :
    (grammar n).continued left strength (notTokens negated ++ bare "IN" :: ts) =
      (grammar n).member left negated ts := by
  rw [continued_test (by decide), Inside.compared]
  exact (bind_ok (word?_not (by decide)) _).trans ((bind_ok (oneOf_test (by decide)) _).trans rfl)

theorem continued_like (left : Expr) :
    (grammar n).continued left strength (notTokens negated ++ bare "LIKE" :: ts) =
      (grammar n).likened left false negated ts := by
  rw [continued_test (by decide), Inside.compared]
  exact (bind_ok (word?_not (by decide)) _).trans ((bind_ok (oneOf_test (by decide)) _).trans rfl)

theorem continued_ilike (left : Expr) :
    (grammar n).continued left strength (notTokens negated ++ bare "ILIKE" :: ts) =
      (grammar n).likened left true negated ts := by
  rw [continued_test (by decide), Inside.compared]
  exact (bind_ok (word?_not (by decide)) _).trans ((bind_ok (oneOf_test (by decide)) _).trans rfl)

theorem continued_between (left : Expr) :
    (grammar n).continued left strength (notTokens negated ++ bare "BETWEEN" :: ts) =
      (do
        let low ← (grammar n).operandOf .between
        word "AND"
        return .between left negated low (← (grammar n).operandOf .between) : Parser Expr) ts := by
  rw [continued_test (by decide), Inside.compared]
  exact (bind_ok (word?_not (by decide)) _).trans ((bind_ok (oneOf_test (by decide)) _).trans rfl)

theorem strength_test {k : String} (hk : k ∈ negatableKeywords) :
    10 < Dialect.generic.nextStrength (notTokens negated ++ bare k :: ts) := by
  have hword : ∀ k ∈ negatableKeywords, k ∈ ["IN", "BETWEEN", "LIKE", "ILIKE", "RLIKE", "REGEXP",
      "SIMILAR"] ∧ 10 < (Lead.word k).binding ∧
      Lead.word k ∉ [.word "AT", .word "NOT", .mark "^", .other] := by decide
  obtain ⟨hnegatable, hstrength, hplain⟩ := hword k hk
  have hfolded := folded_keyword (negatable_written hk).1
  have hnot : (Name.bare "NOT").folded = "NOT" := folded_keyword (by decide)
  cases negated
  · have hlead : lead (bare k :: ts) = .word k := lead_keyword (negatable_written hk).1
    rw [notTokens, if_neg (by decide), List.nil_append, nextStrength_of_lead (hlead ▸ hplain),
      hlead]
    exact hstrength
  · simp only [notTokens, if_true, List.cons_append, List.nil_append, bare, Dialect.nextStrength,
      hnot, List.head?_cons, hfolded, if_pos hnegatable]
    exact hstrength

/-- A test that can be negated, with what it takes in behind its keyword. -/
theorem isCondition_of_test {p : Part Expr} {k : String} {behind : List Token} {levels : Nat}
    (hs : s.IsSubject) (hk : k ∈ negatableKeywords)
    (htokens : p.tokens = s.tokens ++ (notTokens negated ++ bare k :: behind))
    (hlevels : p.levels = max s.levels levels)
    (hstep : ∀ n strength rest, lead rest ∈ conditionEnds →
      Takes n ((grammar n).continued s.value strength)
        (notTokens negated ++ bare k :: (behind ++ rest)) levels p.value rest) :
    p.IsCondition := by
  have hassoc : ∀ rest, notTokens negated ++ bare k :: behind ++ rest =
      notTokens negated ++ bare k :: (behind ++ rest) := by simp
  have hword : ∀ k ∈ negatableKeywords, Lead.word k ∈ operandEnds := by decide
  refine isCondition_of_continued (x := .word (if negated then "NOT" else k)) hs htokens
    hlevels (fun rest => ?_) ?_ (fun rest => ?_) (by simp) fun n strength rest hrest _ => ?_
  · cases negated
    · exact lead_keyword (negatable_written hk).1
    · exact lead_keyword (by decide)
  · cases negated
    · exact hword k hk
    · rw [if_pos rfl]
      decide
  · rw [hassoc]
    exact strength_test hk
  · rw [hassoc]
    exact hstep n strength rest hrest

/-- A test with `LIKE` or `ILIKE`. -/
def likePart (s : Part Expr) (anyCase negated : Bool) (v : Part Expr) : Part Expr :=
  ⟨s.tokens ++ (notTokens negated ++ bare (if anyCase then "ILIKE" else "LIKE") :: v.tokens),
    max s.levels (v.levels + 1), .like anyCase negated false s.value v.value none⟩

theorem likened_take {left : Expr} {anyCase : Bool} (hv : v.IsOperand)
    (hrest : lead rest ∈ conditionEnds) :
    Takes n ((grammar n).likened left anyCase negated) (v.tokens ++ rest) (v.levels + 1)
      (.like anyCase negated false left v.value none) rest := by
  have hescape : (grammar n).escape? rest = .ok (none, rest) := by
    refine after?_skip (ne_of_lead hrest ?_)
    decide
  unfold Inside.likened
  refine Takes.step (word?_skip (hv.lead rest "ANY" (by decide))) ?_
  rw [operandOf_eq]
  refine Takes.last (hv.takes_operand hrest (by decide)) ?_
  exact (bind_ok hescape _).trans rfl

theorem isCondition_like (hs : s.IsSubject) (anyCase : Bool) (hv : v.IsOperand) :
    (likePart s anyCase negated v).IsCondition := by
  cases anyCase
  · refine isCondition_of_test hs (k := "LIKE") (by decide) rfl rfl
      fun n strength rest hrest => ?_
    have htake : Takes n ((grammar n).likened s.value false negated) (v.tokens ++ rest)
        (v.levels + 1) (.like false negated false s.value v.value none) rest :=
      likened_take hv hrest
    rwa [Takes, ← continued_like] at htake
  · refine isCondition_of_test hs (k := "ILIKE") (by decide) rfl rfl
      fun n strength rest hrest => ?_
    have htake : Takes n ((grammar n).likened s.value true negated) (v.tokens ++ rest)
        (v.levels + 1) (.like true negated false s.value v.value none) rest :=
      likened_take hv hrest
    rwa [Takes, ← continued_ilike] at htake

/-- A test with `BETWEEN`. -/
def betweenPart (s : Part Expr) (negated : Bool) (low high : Part Expr) : Part Expr :=
  ⟨s.tokens ++ (notTokens negated ++ bare "BETWEEN" :: (low.tokens ++ bare "AND" :: high.tokens)),
    max s.levels (max (low.levels + 1) (high.levels + 1)),
    .between s.value negated low.value high.value⟩

theorem isCondition_between (hs : s.IsSubject) (hlow : low.IsOperand) (hhigh : high.IsOperand) :
    (betweenPart s negated low high).IsCondition := by
  refine isCondition_of_test hs (k := "BETWEEN") (by decide) rfl rfl
    fun n strength rest hrest => ?_
  rw [Takes, continued_between, ← Takes, operandOf_eq]
  have hand : lead (bare "AND" :: (high.tokens ++ rest)) ∈ conditionEnds := by
    rw [lead_keyword (by decide)]
    decide
  rw [List.append_assoc, List.cons_append]
  refine Takes.bind (hlow.takes_operand hand (by decide)) ?_
  refine Takes.step (word_take (by decide)) ?_
  exact Takes.last (hhigh.takes_operand hrest (by decide)) rfl

/-- A test for one of the results of a query. -/
def inQueryPart (s : Part Expr) (negated : Bool) (q : Part Query) : Part Expr :=
  ⟨s.tokens ++ (notTokens negated ++ bare "IN" :: .mark "(" :: (q.tokens ++ [.mark ")"])),
    max s.levels (q.levels + 1), .inQuery s.value negated q.value⟩

theorem isCondition_inQuery (hs : s.IsSubject) (hq : q.IsQuery) :
    (inQueryPart s negated q).IsCondition := by
  refine isCondition_of_test hs (k := "IN") (by decide) rfl rfl
    fun n strength rest hrest => ?_
  rw [Takes, continued_in, ← Takes]
  obtain ⟨ts, hts⟩ := hq.head
  have hquery : Takes n (grammar n).query (q.tokens ++ .mark ")" :: rest) (q.levels + 1) q.value
      (.mark ")" :: rest) :=
    Takes.query fun n => hq.takes n _ (show Lead.mark ")" ∈ queryEnds by decide)
  have hassoc : .mark "(" :: (q.tokens ++ [.mark ")"]) ++ rest =
      .mark "(" :: (q.tokens ++ .mark ")" :: rest) := by simp
  have hsees : seesOneOf ["SELECT", "WITH"] (q.tokens ++ .mark ")" :: rest) =
      .ok (true, q.tokens ++ .mark ")" :: rest) := by
    rw [hts]
    exact seesOneOf_take (by decide) (by decide)
  rw [hassoc]
  unfold Inside.member
  refine Takes.step (word?_skip (by simp [lead])) ?_
  rw [if_neg (by decide)]
  refine Takes.parenthesized ?_
  unfold Inside.bareQuery?
  refine Takes.last (a := some q.value) (Takes.step hsees ?_) rfl
  rw [if_pos rfl]
  exact Takes.map hquery

/-- A test for one of some values. -/
def inListPart (s : Part Expr) (negated : Bool) (items : List (Part Expr)) : Part Expr :=
  ⟨s.tokens ++ (notTokens negated ++
      bare "IN" :: .mark "(" :: (commaTokens (items.map (·.tokens)) ++ [.mark ")"])),
    max s.levels (deepest (items.map (·.levels + 1))),
    .inList s.value negated (items.map (·.value))⟩

theorem isCondition_inList (hs : s.IsSubject) (hne : items ≠ [])
    (hitems : ∀ v ∈ items, v.IsOperand) : (inListPart s negated items).IsCondition := by
  refine isCondition_of_test hs (k := "IN") (by decide) rfl rfl
    fun n strength rest hrest => ?_
  rw [Takes, continued_in, ← Takes]
  have hassoc : .mark "(" :: (commaTokens (items.map (·.tokens)) ++ [.mark ")"]) ++ rest =
      .mark "(" :: (commaTokens (items.map (·.tokens)) ++ .mark ")" :: rest) := by simp
  have hlead : ∀ k ∈ operandKeywords,
      lead (commaTokens (items.map (·.tokens)) ++ .mark ")" :: rest) ≠ .word k := by
    intro k hk
    cases items with
    | nil => exact (hne rfl).elim
    | cons v items =>
      cases items with
      | nil => exact (hitems v (by simp)).lead _ k hk
      | cons w items =>
        have hv := (hitems v (by simp)).lead (.mark "," ::
          (commaTokens ((w :: items).map (·.tokens)) ++ .mark ")" :: rest)) k hk
        simpa [commaTokens] using hv
  have hbare : (grammar n).bareQuery? (commaTokens (items.map (·.tokens)) ++ .mark ")" :: rest) =
      .ok (none, commaTokens (items.map (·.tokens)) ++ .mark ")" :: rest) :=
    have hsub : ∀ k ∈ ["SELECT", "WITH"], k ∈ operandKeywords := by decide
    (bind_ok (seesOneOf_skip fun k hk => hlead k (hsub k hk)) _).trans rfl
  rw [hassoc]
  unfold Inside.member
  refine Takes.step (word?_skip (by simp [lead])) ?_
  rw [if_neg (by decide)]
  refine Takes.parenthesized (Takes.step hbare ?_)
  rw [if_neg (by rw [grammar_dialect]; decide)]
  exact Takes.last (takes_exprs hne hitems rfl) rfl

/-- The words of a test without an operand. -/
def testTokens : FilterOperator → List Token
  | .isNull => [bare "IS", bare "NULL"]
  | .isNotNull => [bare "IS", bare "NOT", bare "NULL"]
  | .isTrue => [bare "IS", bare "TRUE"]
  | .isFalse => [bare "IS", bare "FALSE"]
  | _ => []

/-- A test without an operand. -/
def testPart (s : Part Expr) (op : FilterOperator) : Part Expr :=
  ⟨s.tokens ++ testTokens op, s.levels, .test s.value op⟩

theorem word?_other {k k' : String} (hk : k ∈ writtenKeywords) (hne : k ≠ k') :
    word? k' (bare k :: ts) = .ok (false, bare k :: ts) := by
  refine word?_skip ?_
  rw [lead_keyword hk]
  rintro ⟨⟩
  exact hne rfl

/-- What is read behind the word `IS`. -/
theorem tested_take {op : FilterOperator} (hop : op.isUnary) (left : Expr) :
    (grammar n).tested left ((testTokens op).tail ++ rest) = .ok (.test left op, rest) := by
  have hnot : word? "NOT" (bare "NOT" :: bare "NULL" :: rest) = _ := word?_take (by decide)
  have hnull : word? "NULL" (bare "NULL" :: rest) = _ := word?_take (by decide)
  have htrue : word? "TRUE" (bare "TRUE" :: rest) = _ := word?_take (by decide)
  have hfalse : word? "FALSE" (bare "FALSE" :: rest) = _ := word?_take (by decide)
  unfold Inside.tested
  cases op <;> first | (cases hop; done) | skip
  · exact (bind_ok (word?_other (by decide) (by decide)) _).trans
      ((bind_ok hnull _).trans rfl)
  · exact (bind_ok hnot _).trans ((bind_ok hnull _).trans rfl)
  · exact (bind_ok (word?_other (by decide) (by decide)) _).trans
      ((bind_ok (word?_other (by decide) (by decide)) _).trans ((bind_ok htrue _).trans rfl))
  · exact (bind_ok (word?_other (by decide) (by decide)) _).trans
      ((bind_ok (word?_other (by decide) (by decide)) _).trans
        ((bind_ok (word?_other (by decide) (by decide)) _).trans ((bind_ok hfalse _).trans rfl)))

theorem isCondition_test (hs : s.IsSubject) {op : FilterOperator} (hop : op.isUnary) :
    (testPart s op).IsCondition := by
  have htokens : ∃ behind, testTokens op = bare "IS" :: behind := by
    cases op <;> first | exact ⟨_, rfl⟩ | cases hop
  obtain ⟨behind, hbehind⟩ := htokens
  have hlead : ∀ rest, lead (testTokens op ++ rest) = .word "IS" := by
    intro rest
    rw [hbehind]
    exact lead_keyword (by decide)
  refine isCondition_of_continued hs rfl (Nat.max_zero _).symm hlead (by decide)
    (fun rest => ?_) (by simp [hbehind])
    fun n strength rest hrest _ => Takes.of_eq ?_
  · rw [nextStrength_of_lead (by rw [hlead]; decide), hlead]
    decide
  · have htested : (grammar n).tested s.value ((testTokens op).tail ++ rest) =
        .ok (.test s.value op, rest) := tested_take hop s.value
    rw [hbehind] at htested ⊢
    have hfolded : (Name.bare "IS").folded = "IS" := folded_keyword (by decide)
    refine (bind_ok (seesOneOf_skip fun k hk => ?_) _).trans ?_
    · rw [List.cons_append, lead_keyword (by decide)]
      rintro ⟨⟩
      revert hk
      decide
    · rw [if_neg (by decide)]
      refine (bind_ok (p := next) rfl _).trans ?_
      show (grammar n).wordedOperator _ (Name.bare "IS").folded strength _ = _
      rw [hfolded]
      exact htested

end Conditions

/-!
## Chains of conditions

Every further condition of a chain is read one level deeper, and those behind an `OR` that are tied
by `AND` two levels deeper, for `AND` ties more closely.
-/

section Chains

open Sql.Parser

/-- A member of a chain: a condition, and what ties it to the next one. -/
abbrev Member := Part Expr × Connector

/-- The tokens behind the first condition of a chain, which the given connector ties to them. -/
def tailTokens : Connector → List Member → List Token
  | _, [] => []
  | k, (p, k') :: rest => bare k.sql :: (p.tokens ++ tailTokens k' rest)

/-- The tokens of a chain of conditions. -/
def tiedTokens : List Member → List Token
  | [] => []
  | (p, k) :: rest => p.tokens ++ tailTokens k rest

/-- The levels that the conditions behind the first one need; `base` is one behind an `OR`. -/
def tailLevels : Nat → Connector → List (Nat × Connector) → Nat
  | _, _, [] => 0
  | base, .and, (levels, k) :: rest => max (levels + 1 + base) (tailLevels base k rest)
  | _, .or, (levels, k) :: rest => max (levels + 1) (tailLevels 1 k rest)

/-- The levels that a chain of conditions needs. -/
def chainLevels : List (Nat × Connector) → Nat
  | [] => 0
  | (levels, k) :: rest => max levels (tailLevels 0 k rest)

/-- The operator that a connector stands for. -/
def tieOperator : Connector → Operator
  | .and => .and
  | .or => .or

/-- Conditions tied by `AND`, behind what stands before the last `OR`. -/
def closeRun : Option Expr → Expr → Expr
  | none, run => run
  | some before, run => .binary before .or run

/-- The tree of a chain of conditions: `before` is the tree up to the last `OR`, and `run` the one
of the conditions behind it so far. -/
def chainTree : Option Expr → Expr → Connector → List (Expr × Connector) → Expr
  | before, run, _, [] => closeRun before run
  | before, run, .and, (e, k) :: rest => chainTree before (.binary run .and e) k rest
  | before, run, .or, (e, k) :: rest => chainTree (some (closeRun before run)) e k rest

/-- The levels of the members. -/
def memberLevels (l : List Member) : List (Nat × Connector) := l.map fun p => (p.1.levels, p.2)

/-- The conditions of the members. -/
def memberValues (l : List Member) : List (Expr × Connector) := l.map fun p => (p.1.value, p.2)

variable {n levels levels' strength : Nat} {ts ts' rest : List Token} {run before e : Expr}
  {k : Connector} {l : List Member} {p : Part Expr}

/-! ## What is read -/

theorem lead_tailTokens (h : lead rest ∈ conditionEnds) :
    lead (tailTokens k l ++ rest) ∈ conditionEnds := by
  cases l with
  | nil => exact h
  | cons p l =>
    rw [tailTokens, List.cons_append, lead_keyword (by cases k <;> decide)]
    cases k <;> decide

theorem nextStrength_connector (k : Connector) (ts : List Token) :
    Dialect.generic.nextStrength (bare k.sql :: ts) = (Lead.word k.sql).binding := by
  have hlead : lead (bare k.sql :: ts) = .word k.sql := lead_keyword (by cases k <;> decide)
  rw [nextStrength_of_lead (by rw [hlead]; cases k <;> decide), hlead]

/-- What a connector ties to the conditions before it. -/
theorem Opens.tie (h : Opens n strength ts levels run (bare k.sql :: ts'))
    (hstronger : strength < (Lead.word k.sql).binding)
    (hright : ∀ n, Takes n ((grammar n).expression (Lead.word k.sql).binding) ts' levels' e rest)
    (hlead : ∀ q ∈ operandKeywords, lead ts' ≠ .word q) (hshorter : rest.length ≤ ts'.length) :
    Opens n strength ts (max levels (levels' + 1)) (.binary run (tieOperator k) e) rest := by
  have hsub : ∀ q ∈ ["ANY", "ALL", "SOME"], q ∈ operandKeywords := by decide
  have hside : Takes n ((grammar n).rightSide run (tieOperator k) (Lead.word k.sql).binding) ts'
      (levels' + 1) (.binary run (tieOperator k) e) rest := by
    refine Takes.step (oneOf?_skip fun q hq => hlead q (hsub q hq)) ?_
    exact Takes.last (Takes.operand hright) rfl
  have hword : k.sql ∈ writtenKeywords ∧ k.sql ∉ testKeywords := by cases k <;> decide
  have hnext := nextStrength_connector k ts'
  refine h.continued (by rwa [hnext]) ?_ (by rw [List.length_cons]; omega)
  rw [hnext]
  refine Takes.step (seesOneOf_skip fun q hq => ?_) ?_
  · rw [lead_keyword hword.1]
    rintro ⟨⟩
    exact hword.2 hq
  · rw [if_neg (by decide)]
    refine Takes.step (p := next) rfl ?_
    show Takes n ((grammar n).wordedOperator run (Name.bare k.sql).folded _) ts' _ _ _
    rw [folded_keyword hword.1]
    cases k <;> exact hside

/-- A condition as the right side of a connector, before the conditions behind it. -/
theorem Part.IsCondition.takes (h : p.IsCondition) (hrest : Sql.lead rest ∈ conditionEnds) :
    Takes n ((grammar n).expression 10) (p.tokens ++ rest) p.levels p.value rest :=
  (h.opens n 10 rest (Nat.le_refl 10) hrest).expression (strength_conditionEnds hrest)

/-- A chain of which no `OR` was read is read as its tree. -/
def OpensRun (rest : List Token) (l : List Member) : Prop :=
  ∀ {k : Connector} {n levels : Nat} {ts : List Token} {run : Expr},
    Opens n 0 ts levels run (tailTokens k l ++ rest) →
      Opens n 0 ts (max levels (tailLevels 0 k (memberLevels l)))
        (chainTree none run k (memberValues l)) rest

/-- A chain of which an `OR` was read is read as its tree.  What stands behind the `OR` is read one
level deeper. -/
def OpensBehind (rest : List Token) (l : List Member) : Prop :=
  ∀ {k : Connector} {n levels levels' : Nat} {ts ts' : List Token} {before run : Expr},
    Opens n 0 ts levels before (bare Connector.or.sql :: ts') →
    (∀ n, Opens n 5 ts' levels' run (tailTokens k l ++ rest)) →
    (∀ q ∈ operandKeywords, lead ts' ≠ .word q) → (tailTokens k l ++ rest).length ≤ ts'.length →
      Opens n 0 ts (max (max levels (levels' + 1)) (tailLevels 1 k (memberLevels l)))
        (chainTree (some before) run k (memberValues l)) rest

theorem opens_tail (hl : ∀ x ∈ l, x.1.IsCondition) (hrest : lead rest ∈ conditionEnds)
    (hend : lead rest ∈ expressionEnds) : OpensRun rest l ∧ OpensBehind rest l := by
  induction l with
  | nil =>
    refine ⟨fun h => ?_, fun h hrun hlead hlength => ?_⟩
    · simpa [tailTokens, tailLevels, memberLevels, memberValues, chainTree, closeRun] using h
    · have hright := fun n => (hrun n).expression
        (Nat.le_trans (strength_expressionEnds hend) (Nat.zero_le _))
      simpa [tailTokens, tailLevels, memberLevels, memberValues, chainTree, closeRun,
        tieOperator] using h.tie (by decide) hright hlead hlength
  | cons x l ih =>
    obtain ⟨p, k'⟩ := x
    obtain ⟨hrun', hbehind⟩ := ih fun y hy => hl y (List.mem_cons_of_mem _ hy)
    have hp := hl (p, k') List.mem_cons_self
    have hnext : lead (tailTokens k' l ++ rest) ∈ conditionEnds := lead_tailTokens hrest
    have hlead : ∀ q ∈ operandKeywords,
        lead (p.tokens ++ (tailTokens k' l ++ rest)) ≠ .word q := hp.lead _
    have hshorter : (tailTokens k' l ++ rest).length ≤
        (p.tokens ++ (tailTokens k' l ++ rest)).length := by simp
    have htokens : ∀ k, tailTokens k ((p, k') :: l) ++ rest =
        bare k.sql :: (p.tokens ++ (tailTokens k' l ++ rest)) := by simp [tailTokens]
    refine ⟨fun {k n levels ts run} h => ?_,
      fun {k n levels levels' ts ts' before run} h hrun hlead' hlength => ?_⟩
    · rw [htokens] at h
      cases k with
      | and =>
        have htied := hrun' (h.tie (by decide) (fun n => hp.takes hnext) hlead hshorter)
        simpa [tailLevels, memberLevels, memberValues, chainTree, tieOperator, Nat.max_assoc] using
          htied
      | or =>
        have htied := hbehind h (fun n => hp.opens n 5 _ (by decide) hnext) hlead hshorter
        simpa [tailLevels, memberLevels, memberValues, chainTree, closeRun, Nat.max_assoc] using
          htied
    · simp only [htokens] at hrun hlength
      cases k with
      | and =>
        have htied := hbehind h (fun n => (hrun n).tie (by decide) (fun n => hp.takes hnext) hlead
          hshorter) hlead' (Nat.le_of_succ_le (Nat.le_trans (Nat.succ_le_succ hshorter) hlength))
        have hlevels : max (max levels (max levels' (p.levels + 1) + 1))
            (tailLevels 1 k' (memberLevels l)) = max (max levels (levels' + 1))
              (max (p.levels + 1 + 1) (tailLevels 1 k' (memberLevels l))) := by omega
        rw [hlevels] at htied
        exact htied
      | or =>
        have hclosed := h.tie (by decide) (fun n => (hrun n).expression (by
          rw [nextStrength_connector]; decide)) hlead' (by simpa using hlength)
        have htied := hbehind hclosed (fun n => hp.opens n 5 _ (by decide) hnext) hlead hshorter
        rw [Nat.max_assoc] at htied
        exact htied

/-- The tree of a whole chain. -/
def wholeTree : List (Expr × Connector) → Expr
  | [] => .null
  | (e, k) :: rest => chainTree none e k rest

theorem takes_chain (hne : l ≠ []) (hl : ∀ x ∈ l, x.1.IsCondition)
    (hrest : lead rest ∈ conditionEnds) (hend : lead rest ∈ expressionEnds) :
    Takes n (grammar n).expr (tiedTokens l ++ rest) (chainLevels (memberLevels l) + 1)
      (wholeTree (memberValues l)) rest := by
  cases l with
  | nil => exact (hne rfl).elim
  | cons x l =>
    obtain ⟨p, k⟩ := x
    refine Takes.operand fun n => ?_
    have hfirst := (hl (p, k) List.mem_cons_self).opens n 0 (tailTokens k l ++ rest) (by decide)
      (lead_tailTokens hrest)
    have htail := (opens_tail (fun x hx => hl x (List.mem_cons_of_mem _ hx)) hrest hend).1 hfirst
    rw [tiedTokens, List.append_assoc]
    exact htail.expression (strength_expressionEnds hend)

/-! ## The conditions of the tree -/

/-- What ties a condition to the next one, or what the last one gets. -/
def tieOr {α : Type} (k last : Connector) (rest : List α) : Connector :=
  if rest.isEmpty then last else k

theorem updateLast_cons {α : Type} (e : α) (k last : Connector) (l : List (α × Connector)) :
    updateLast (fun x => (x.1, last)) ((e, k) :: l) =
      (e, tieOr k last l) :: updateLast (fun x => (x.1, last)) l := by
  cases l <;> rfl

theorem conditions_chainTree (last : Connector) {l : List (Expr × Connector)}
    (hl : ∀ x ∈ l, ∀ k, x.1.conditions k = [(x.1, k)]) (before : Option Expr) (run : Expr)
    (k : Connector) :
    (chainTree before run k l).conditions last =
      ((before.map (·.conditions .or)).getD [] ++ run.conditions (tieOr k last l)) ++
        updateLast (fun x => (x.1, last)) l := by
  have hclose : ∀ before run last, (closeRun before run).conditions last =
      (before.map (·.conditions .or)).getD [] ++ run.conditions last := by
    intro before run last
    cases before <;> rfl
  induction l generalizing before run k with
  | nil =>
    rw [chainTree, hclose]
    exact (List.append_nil _).symm
  | cons x l ih =>
    obtain ⟨e, k'⟩ := x
    have hx := hl (e, k') List.mem_cons_self
    have hmore := ih fun y hy => hl y (List.mem_cons_of_mem _ hy)
    rw [updateLast_cons]
    cases k with
    | and =>
      rw [chainTree, hmore]
      simp [Expr.conditions, tieOr, hx]
    | or =>
      rw [chainTree, hmore]
      simp [hclose, tieOr, hx]

/-- The conditions of the tree are those of the chain; what ties the last one is of no meaning. -/
theorem conditions_wholeTree {l : List (Expr × Connector)} (hne : l ≠ [])
    (hl : ∀ x ∈ l, ∀ k, x.1.conditions k = [(x.1, k)]) :
    (wholeTree l).conditions .and = updateLast (fun x => (x.1, .and)) l := by
  cases l with
  | nil => exact (hne rfl).elim
  | cons x l =>
    obtain ⟨e, k⟩ := x
    rw [wholeTree, conditions_chainTree .and fun y hy => hl y (List.mem_cons_of_mem _ hy),
      updateLast_cons, hl (e, k) List.mem_cons_self]
    rfl

end Chains

end QueryCanvas.Sql
