import QueryCanvas.Proofs.Written.Conditions

/-!
# Reading the `FROM` clause

Tables, nested queries with their aliases, and joins, each with the tokens of its written form.
-/

set_option autoImplicit false

namespace QueryCanvas.Sql

open Sql.Parser

variable {n : Nat} {ts rest : List Token} {name : String} {q : Part Query} {p : Part Source}
  {l : List Member}

/-! ## Sources -/

/-- What can follow a source. -/
def sourceEnds : List Lead :=
  [.none, .mark ")", .mark ",", .word "ON", .word "INNER", .word "LEFT", .word "RIGHT",
   .word "FULL", .word "WHERE", .word "GROUP", .word "HAVING", .word "ORDER", .word "LIMIT"]

/-- A source of rows. -/
def Part.IsSource (p : Part Source) : Prop :=
  ∀ n rest, lead rest ∈ sourceEnds →
    Takes n (grammar n).source (p.tokens ++ rest) p.levels p.value rest

/-- Nothing that can follow a source is an alias without `AS`. -/
theorem alias?_skip (h : lead rest ∈ sourceEnds) :
    alias? Keyword.noTableAlias rest = .ok (none, rest) := by
  have has : word? "AS" rest = .ok (false, rest) := word?_skip (ne_of_lead h (by decide))
  refine (bind_ok has _).trans ?_
  rw [if_neg (by decide)]
  refine (bind_ok (p := peek) rfl _).trans ?_
  cases rest with
  | nil => rfl
  | cons t ts =>
    cases t with
    | word w =>
      have hreserved : ∀ k, Lead.word k ∈ sourceEnds → Keyword.noTableAlias.contains k = true := by
        intro k hk
        simp only [sourceEnds, List.mem_cons, Lead.word.injEq, reduceCtorEq, List.not_mem_nil,
          false_or, or_false] at hk
        rcases hk with rfl | rfl | rfl | rfl | rfl | rfl | rfl | rfl | rfl | rfl <;> decide
      simp only [List.head?_cons]
      rw [if_pos (hreserved _ h)]
      rfl
    | text kind s => exact (ne_of_lead h (x := .text) (by decide) rfl).elim
    | _ => rfl

theorem tableAlias?_skip (h : lead rest ∈ sourceEnds) :
    tableAlias? false rest = .ok (none, rest) :=
  (bind_ok (alias?_skip h) _).trans rfl

theorem hints?_skip (h : lead rest ∈ sourceEnds) : (grammar n).hints? rest = .ok ("", rest) := by
  refine (bind_ok (p := ahead) rfl _).trans ?_
  split
  · rename_i w ts
    have hwith : w.folded ≠ "WITH" := fun hk =>
      ne_of_lead h (x := .word "WITH") (by decide) (congrArg Lead.word hk)
    rw [if_neg hwith]
    rfl
  · rfl

theorem pivoted_skip (h : lead rest ∈ sourceEnds) (s : Source) :
    (grammar n).pivoted s rest = .ok (s, rest) := by
  have hpivot : (grammar n).pivot? rest = .ok (none, rest) := by
    refine (bind_ok (word?_skip (ne_of_lead h (by decide))) _).trans ?_
    exact (bind_ok (word?_skip (ne_of_lead h (by decide))) _).trans rfl
  exact (bind_ok (many_none hpivot) _).trans rfl

/-- A table by its name. -/
def tablePart (name : String) : Part Source :=
  ⟨[bare name], 0, .table [.bare name] none none ("", "")⟩

theorem namedTable_take (h : lead rest ∈ sourceEnds) :
    (grammar n).namedTable (bare name :: rest) =
      .ok (.table [.bare name] none none ("", ""), rest) := by
  unfold Inside.namedTable
  refine (bind_ok (path_alone (ne_of_lead h (by decide))) _).trans ?_
  rw [grammar_dialect, grammar_trailing]
  refine (bind_ok (after?_skip (ne_of_lead h (by decide))) _).trans ?_
  refine (bind_ok (p := pure none) rfl _).trans ?_
  refine (bind_ok (mark?_skip (ne_of_lead h (by decide))) _).trans ?_
  refine (bind_ok (p := pure none) rfl _).trans ?_
  refine (bind_ok (words?_skip (ne_of_lead h (by decide))) _).trans ?_
  refine (bind_ok (tableAlias?_skip h) _).trans ?_
  refine (bind_ok (hints?_skip h) _).trans ?_
  exact pivoted_skip h _

/-- What begins with a name that means nothing else is a table. -/
theorem sourceUpTo_name (hname : Identifier name) (m : Nat) :
    (grammar n).sourceUpTo (m + 1) (bare name :: ts) =
      (grammar n).namedTable (bare name :: ts) := by
  have hfolded : (Name.bare name).folded ∉ ["TABLE", "VALUES", "UNNEST"] := by
    have hsub : ∀ k ∈ ["TABLE", "VALUES", "UNNEST"], k ∈ namedKeywords := by decide
    exact fun hk => hname.folded_ne (hsub _ hk) rfl
  simp only [List.mem_cons, List.not_mem_nil, or_false, not_or] at hfolded
  rw [Inside.sourceUpTo]
  refine (bind_ok (word?_skip (hname.lead_ne (by decide))) _).trans ?_
  rw [if_neg (by decide)]
  refine (bind_ok (p := ahead) rfl _).trans ?_
  refine congrFun ?_ _
  simp only [bare]
  generalize (Name.bare name).folded = k at hfolded ⊢
  split <;> simp_all

/-- Behind an opening parenthesis a nested query is looked for first. -/
theorem sourceUpTo_open (m : Nat) :
    (grammar n).sourceUpTo (m + 1) (.mark "(" :: ts) =
      (do
        match ← attempt ((grammar n).derived false) with
        | some s => (grammar n).pivoted s
        | none => (grammar n).enclosedSource ((grammar n).fromPart ((grammar n).sourceUpTo m)) :
        Parser Source) ts := by
  rw [Inside.sourceUpTo]
  refine (bind_ok (word?_skip (by simp [lead])) _).trans ?_
  rw [if_neg (by decide)]
  refine (bind_ok (p := ahead) rfl _).trans ?_
  exact bind_ok mark_take _

theorem isSource_table (hname : Identifier name) : (tablePart name).IsSource := by
  intro n rest hrest
  refine Takes.of_eq ?_
  rw [Inside.source]
  exact (sourceUpTo_name hname _).trans (namedTable_take hrest)

/-- The alias of a result or of a source as it is written. -/
def aliasTokens (aliasName : Option String) : List Token :=
  (aliasName.map fun name => [bare "AS", bare name]).getD []

/-- A nested query as a source. -/
def derivedPart (q : Part Query) (aliasName : Option String) : Part Source :=
  ⟨.mark "(" :: (q.tokens ++ .mark ")" :: aliasTokens aliasName), q.levels + 1,
    .derived false q.value (aliasName.map fun name => ⟨.bare name, []⟩)⟩

theorem tableAlias?_take (aliasName : Option String) (h : lead rest ∈ sourceEnds) :
    tableAlias? false (aliasTokens aliasName ++ rest) =
      .ok (aliasName.map fun name => ⟨.bare name, []⟩, rest) := by
  cases aliasName with
  | none => exact tableAlias?_skip h
  | some a =>
    have halias : alias? Keyword.noTableAlias (bare "AS" :: bare a :: rest) =
        .ok (some (.bare a), rest) := by
      refine (bind_ok (word?_take (by decide)) _).trans ?_
      rw [if_pos rfl]
      exact (bind_ok name_take _).trans rfl
    have hnames : names? false rest = .ok ([], rest) :=
      (bind_ok (seesMark_skip (ne_of_lead h (by decide))) _).trans rfl
    exact (bind_ok halias _).trans ((bind_ok hnames _).trans rfl)

theorem isSource_derived (hq : q.IsQuery) (aliasName : Option String) :
    (derivedPart q aliasName).IsSource := by
  intro n rest hrest
  have htokens : (derivedPart q aliasName).tokens ++ rest =
      .mark "(" :: (q.tokens ++ .mark ")" :: (aliasTokens aliasName ++ rest)) := by
    simp [derivedPart]
  have hderived : Takes n ((grammar n).derived false)
      (q.tokens ++ .mark ")" :: (aliasTokens aliasName ++ rest)) (q.levels + 1)
      (derivedPart q aliasName).value rest := by
    refine Takes.last (Takes.query fun n => hq.takes n _ (show Lead.mark ")" ∈ queryEnds by decide))
      ?_
    refine (bind_ok mark_take _).trans ?_
    rw [grammar_trailing]
    exact (bind_ok (tableAlias?_take aliasName hrest) _).trans rfl
  have hsource : Takes n (do
      match ← attempt ((grammar n).derived false) with
      | some s => (grammar n).pivoted s
      | none => (grammar n).enclosedSource ((grammar n).fromPart ((grammar n).sourceUpTo
          (.mark "(" :: (q.tokens ++ .mark ")" :: (aliasTokens aliasName ++ rest))).length)) :
      Parser Source) (q.tokens ++ .mark ")" :: (aliasTokens aliasName ++ rest)) (q.levels + 1)
      (derivedPart q aliasName).value rest :=
    Takes.last (Takes.attempt hderived) (pivoted_skip hrest _)
  rw [htokens, Takes, Inside.source, sourceUpTo_open]
  exact hsource

/-! ## Joins -/

/-- The first word of a join. -/
def kindWord : JoinKind → String
  | .inner => "INNER"
  | .left => "LEFT"
  | .right => "RIGHT"
  | .full => "FULL"

/-- The words of a join. -/
def kindTokens (kind : JoinKind) : List Token := [bare (kindWord kind), bare "JOIN"]

/-- A join with a table on some conditions. -/
def joinPart (kind : JoinKind) (name : String) (l : List Member) : Part JoinClause :=
  ⟨kindTokens kind ++ bare name :: bare "ON" :: tiedTokens l, chainLevels (memberLevels l) + 1,
    .mk false (.kind kind) (tablePart name).value (.on (wholeTree (memberValues l)))⟩

theorem joinOperator?_take (kind : JoinKind) :
    Inside.joinOperator? false (kindTokens kind ++ rest) = .ok (some (.kind kind), rest) := by
  have hjoin : word "JOIN" (bare "JOIN" :: rest) = .ok ((), rest) := word_take (by decide)
  have houter : word? "OUTER" (bare "JOIN" :: rest) = .ok (false, bare "JOIN" :: rest) :=
    word?_other (by decide) (by decide)
  have hone : oneOf ["SEMI", "ANTI", "JOIN"] (bare "JOIN" :: rest) = .ok ("JOIN", rest) :=
    oneOf_take (by decide) (by decide)
  have hskip : ∀ {k : String} {ks : List String} {ts : List Token}, k ∈ writtenKeywords → k ∉ ks →
      seesOneOf ks (bare k :: ts) = .ok (false, bare k :: ts) := by
    intro k ks ts hk hks
    refine seesOneOf_skip fun k' hk' => ?_
    rw [lead_keyword hk]
    rintro ⟨⟩
    exact hks hk'
  have hsees : ∀ {k k' : String} {ts : List Token}, k ∈ writtenKeywords → k ≠ k' →
      seesWord k' (bare k :: ts) = .ok (false, bare k :: ts) := by
    intro k k' ts hk hne
    refine seesWord_skip ?_
    rw [lead_keyword hk]
    rintro ⟨⟩
    exact hne rfl
  unfold Inside.joinOperator?
  cases kind with
  | inner =>
    refine (bind_ok (seesOneOf_take (k := "INNER") (by decide) (by decide)) _).trans ?_
    rw [if_pos rfl]
    refine (bind_ok (word?_take (by decide)) _).trans ?_
    exact (bind_ok hjoin _).trans rfl
  | left =>
    refine (bind_ok (hskip (k := "LEFT") (by decide) (by decide)) _).trans ?_
    refine (bind_ok (seesWord_take (k := "LEFT") (by decide)) _).trans ?_
    refine (bind_ok (word_take (by decide)) _).trans ?_
    exact (bind_ok houter _).trans ((bind_ok hone _).trans rfl)
  | right =>
    refine (bind_ok (hskip (k := "RIGHT") (by decide) (by decide)) _).trans ?_
    refine (bind_ok (hsees (k := "RIGHT") (by decide) (by decide)) _).trans ?_
    refine (bind_ok (seesWord_take (k := "RIGHT") (by decide)) _).trans ?_
    refine (bind_ok (word_take (by decide)) _).trans ?_
    exact (bind_ok houter _).trans ((bind_ok hone _).trans rfl)
  | full =>
    refine (bind_ok (hskip (k := "FULL") (by decide) (by decide)) _).trans ?_
    refine (bind_ok (hsees (k := "FULL") (by decide) (by decide)) _).trans ?_
    refine (bind_ok (hsees (k := "FULL") (by decide) (by decide)) _).trans ?_
    refine (bind_ok (word?_take (by decide)) _).trans ?_
    exact (bind_ok houter _).trans ((bind_ok hjoin _).trans rfl)

/-- What can follow a join. -/
def joinEnds : List Lead :=
  [.none, .mark ")", .mark ",", .word "INNER", .word "LEFT", .word "RIGHT", .word "FULL",
   .word "WHERE", .word "GROUP", .word "HAVING", .word "ORDER", .word "LIMIT"]

theorem join?_take {kind : JoinKind} (hname : Identifier name) (hne : l ≠ [])
    (hl : ∀ x ∈ l, x.1.IsCondition) (hrest : lead rest ∈ joinEnds) :
    Takes n ((grammar n).join? (grammar n).source) ((joinPart kind name l).tokens ++ rest)
      (joinPart kind name l).levels (some (joinPart kind name l).value) rest := by
  have hsub : ∀ x ∈ joinEnds, x ∈ conditionEnds ∧ x ∈ expressionEnds := by decide
  have hlead : ∀ ts, lead (kindTokens kind ++ ts) ∈ joinEnds := by
    intro ts
    rw [kindTokens, List.cons_append, lead_keyword (by cases kind <;> decide)]
    cases kind <;> decide
  have htokens : (joinPart kind name l).tokens ++ rest =
      kindTokens kind ++ (bare name :: bare "ON" :: (tiedTokens l ++ rest)) := by
    simp [joinPart]
  have hchain : Takes n ((grammar n).constraint false) (bare "ON" :: (tiedTokens l ++ rest))
      (chainLevels (memberLevels l) + 1) (.on (wholeTree (memberValues l))) rest := by
    unfold Inside.constraint
    refine Takes.step (word?_take (by decide)) ?_
    rw [if_pos rfl]
    exact Takes.last (takes_chain hne hl (hsub _ hrest).1 (hsub _ hrest).2) rfl
  have hon : lead (bare "ON" :: (tiedTokens l ++ rest)) ∈ sourceEnds := by
    rw [lead_keyword (by decide)]
    decide
  rw [htokens]
  unfold Inside.join?
  refine Takes.step (word?_skip (ne_of_lead (hlead _) (by decide))) ?_
  refine Takes.step (word?_skip (ne_of_lead (hlead _) (by decide))) ?_
  refine Takes.step (words?_skip (ne_of_lead (hlead _) (by decide))) ?_
  refine Takes.step (word?_skip (ne_of_lead (hlead _) (by decide))) ?_
  refine Takes.step (word?_skip (ne_of_lead (hlead _) (by decide))) ?_
  refine Takes.step (joinOperator?_take kind) ?_
  have hjoined := Takes.bind (f := fun s => do
    return some (JoinClause.mk false (.kind kind) s (← (grammar n).constraint false)))
    (isSource_table hname n _ hon) (Takes.last hchain rfl)
  simp only [tablePart, Nat.zero_max] at hjoined
  exact hjoined

end QueryCanvas.Sql
