import QueryCanvas.Proofs.Written.Selects

/-!
# Reading whole queries

A select with all its clauses, a query with its named queries, and the text of a single query.
-/

set_option autoImplicit false

namespace QueryCanvas.Sql

open Sql.Parser

variable {n : Nat} {ts rest : List Token} {name : String} {q : Part Query}

/-! ## Selects -/

/-- The parts of a written select. -/
structure SelectParts where
  items : List (Part SelectItem)
  sources : List (Part FromPart)
  conditions : List Member
  groups : List (Part Expr)
  havings : List Member
  terms : List (Part OrderTerm)
  limit : Option (Part Expr)

/-- All parts can be read. -/
structure SelectParts.Readable (x : SelectParts) : Prop where
  some_item : x.items ≠ []
  items : ∀ p ∈ x.items, p.IsItem
  sources : ∀ p ∈ x.sources, p.IsFrom
  conditions : ∀ m ∈ x.conditions, m.1.IsCondition
  groups : ∀ p ∈ x.groups, p.IsGroup
  havings : ∀ m ∈ x.havings, m.1.IsCondition
  terms : ∀ p ∈ x.terms, p.IsTerm
  limit : ∀ p ∈ x.limit, p.IsLimit

/-- A select of which nothing is kept as text. -/
def SelectExtras.absent : SelectExtras :=
  { distinct := none, top := none, into := none, lateralViews := [], prewhere := none,
    groupAll := false, groupModifiers := [], distribution := [], windows := none,
    qualify := none, windowsFirst := false, connectBy := none }

namespace SelectParts

variable (x : SelectParts)

/-- The body of the select. -/
def body : Part Body :=
  ⟨bare "SELECT" :: (commaTokens (x.items.map (·.tokens)) ++ ((fromClausePart x.sources).tokens ++
      ((conditionsPart "WHERE" x.conditions).tokens ++ ((groupPart x.groups).tokens ++
        (conditionsPart "HAVING" x.havings).tokens)))),
    max (deepest (x.items.map (·.levels))) (max (fromClausePart x.sources).levels
      (max (conditionsPart "WHERE" x.conditions).levels (max (groupPart x.groups).levels
        (conditionsPart "HAVING" x.havings).levels))),
    .select (x.items.map (·.value)) (fromClausePart x.sources).value
      (conditionsPart "WHERE" x.conditions).value (x.groups.map (·.value))
      (conditionsPart "HAVING" x.havings).value .absent⟩

/-- The query that the select is. -/
def query : Part Query :=
  ⟨x.body.tokens ++ ((orderPart x.terms).tokens ++ (limitPart x.limit).tokens),
    max x.body.levels (max (orderPart x.terms).levels (limitPart x.limit).levels),
    .mk false [] x.body.value (orderPart x.terms).value (limitPart x.limit).value .none⟩

variable {x}

/-! ### What stands ahead of a clause -/

theorem lead_limit {o : Option (Part Expr)} (hrest : lead rest ∈ queryEnds) :
    lead ((limitPart o).tokens ++ rest) ∈ orderEnds := by
  refine lead_clause (k := "LIMIT") (by decide) (by decide) (by decide) ?_
    hrest
  cases o with
  | none => exact .inl rfl
  | some p => exact .inr ⟨_, rfl⟩

/-- What can follow the body of a query. -/
def bodyEnds : List Lead := [.none, .mark ")", .word "ORDER", .word "LIMIT"]

theorem lead_order {l : List (Part OrderTerm)} (hrest : lead rest ∈ orderEnds) :
    lead ((orderPart l).tokens ++ rest) ∈ bodyEnds := by
  refine lead_clause (k := "ORDER") (by decide) (by decide) (by decide) ?_
    hrest
  cases l with
  | nil => exact .inl rfl
  | cons p l => exact .inr ⟨_, rfl⟩

theorem conditionsPart_tokens (k : String) (l : List Member) :
    (conditionsPart k l).tokens = [] ∨
      ∃ behind, (conditionsPart k l).tokens = bare k :: behind := by
  cases l with
  | nil => exact .inl rfl
  | cons m l => exact .inr ⟨_, rfl⟩

theorem lead_having {l : List Member} (hrest : lead rest ∈ bodyEnds) :
    lead ((conditionsPart "HAVING" l).tokens ++ rest) ∈ groupEnds :=
  lead_clause (by decide) (by decide) (by decide) (conditionsPart_tokens "HAVING" l) hrest

/-- What can follow the conditions on rows. -/
def whereEnds : List Lead :=
  [.none, .mark ")", .word "GROUP", .word "HAVING", .word "ORDER", .word "LIMIT"]

theorem lead_group {l : List (Part Expr)} (hrest : lead rest ∈ groupEnds) :
    lead ((groupPart l).tokens ++ rest) ∈ whereEnds := by
  refine lead_clause (k := "GROUP") (by decide) (by decide) (by decide) ?_
    hrest
  cases l with
  | nil => exact .inl rfl
  | cons p l => exact .inr ⟨_, rfl⟩

theorem lead_where {l : List Member} (hrest : lead rest ∈ whereEnds) :
    lead ((conditionsPart "WHERE" l).tokens ++ rest) ∈ selectEnds :=
  lead_clause (by decide) (by decide) (by decide) (conditionsPart_tokens "WHERE" l) hrest

/-- What can follow the results. -/
def resultEnds : List Lead := .word "FROM" :: selectEnds

theorem lead_from {l : List (Part FromPart)} (hrest : lead rest ∈ selectEnds) :
    lead ((fromClausePart l).tokens ++ rest) ∈ resultEnds := by
  refine lead_clause (k := "FROM") (by decide) (by decide) (by decide) ?_
    hrest
  cases l with
  | nil => exact .inl rfl
  | cons p l => exact .inr ⟨_, rfl⟩

/-! ### The clauses that are not written -/

theorem distinctText?_skip {g : Inside} (hall : lead ts ≠ .word "ALL")
    (hdistinct : lead ts ≠ .word "DISTINCT") : g.distinctText? ts = .ok (none, ts) :=
  (bind_ok (word?_skip hall) _).trans ((bind_ok (word?_skip hdistinct) _).trans rfl)

theorem lateralViews_skip (h : lead ts ∈ selectEnds) :
    many (grammar n).lateralView? ts = .ok ([], ts) :=
  many_none ((bind_ok (words?_skip (ne_of_lead h (by decide))) _).trans rfl)

theorem distribution_skip {k : String} (h : lead ts ≠ .word k) :
    (grammar n).distribution k ts = .ok ([], ts) :=
  (bind_ok (words?_skip h) _).trans rfl

theorem hierarchyText?_skip (h : lead ts ∈ bodyEnds) :
    (grammar n).hierarchyText? ts = .ok (none, ts) := by
  unfold Inside.hierarchyText?
  rw [grammar_dialect, if_pos (by decide)]
  refine (bind_ok (words?_skip (ne_of_lead h (by decide))) _).trans ?_
  exact (bind_ok (words?_skip (ne_of_lead h (by decide))) _).trans rfl

/-! ### The select -/

theorem takes_items (hx : x.Readable) (hrest : lead rest ∈ resultEnds)
    (hfrom : lead rest ∈ itemEnds) :
    Takes n (list (grammar n).trailing (grammar n).selectItem)
      (commaTokens (x.items.map (·.tokens)) ++ rest) (deepest (x.items.map (·.levels)))
      (x.items.map (·.value)) rest := by
  rw [grammar_trailing]
  refine Takes.list hx.some_item (ne_of_lead hrest (by decide)) fun p hp next hnext => ?_
  refine (hx.items p hp).takes n next ?_
  rcases hnext with hnext | rfl
  · rw [hnext]
    decide
  · exact hfrom

theorem lead_items (hx : x.Readable) {k : String} (hk : k ∈ resultKeywords) :
    lead (commaTokens (x.items.map (·.tokens)) ++ rest) ≠ .word k := by
  obtain ⟨p, l, hitems⟩ := List.exists_cons_of_ne_nil hx.some_item
  have hp := (hx.items p (by simp [hitems])).lead
  rw [hitems]
  cases l with
  | nil => exact hp rest k hk
  | cons p' l =>
    have hmore := hp (.mark "," :: (commaTokens ((p' :: l).map (·.tokens)) ++ rest)) k hk
    simpa [commaTokens] using hmore

theorem takes_from {l : List (Part FromPart)} (hl : ∀ p ∈ l, p.IsFrom)
    (hrest : lead rest ∈ selectEnds) {β : Type} {f : List FromPart → Parser β} {levels : Nat}
    {b : β} {rest' : List Token} (hf : Takes n (f (fromClausePart l).value) rest levels b rest') :
    Takes n (do
        let sources ← if ← word? "FROM" then (grammar n).sources else pure []
        f sources) ((fromClausePart l).tokens ++ rest)
      (max (fromClausePart l).levels levels) b rest' := by
  cases l with
  | nil =>
    refine Takes.step (word?_skip (ne_of_lead hrest (by decide))) ?_
    rw [fromClausePart, Nat.zero_max]
    exact Takes.step (p := pure []) rfl hf
  | cons p l =>
    have hsources : Takes n (grammar n).sources
        (commaTokens ((p :: l).map (·.tokens)) ++ rest) (fromClausePart (p :: l)).levels
        (fromClausePart (p :: l)).value rest := by
      rw [Inside.sources, grammar_trailing]
      refine Takes.list (by simp) (ne_of_lead hrest (by decide)) fun p hp next hnext => ?_
      have hsub : ∀ x ∈ selectEnds, x ∈ fromEnds := by decide
      refine hl p hp n next ?_
      rcases hnext with hnext | rfl
      · rw [hnext]
        decide
      · exact hsub _ hrest
    refine Takes.step (word?_take (by decide)) ?_
    exact Takes.bind hsources hf

theorem takes_select (hx : x.Readable) (hrest : lead rest ∈ bodyEnds)
    (hfrom : lead ((fromClausePart x.sources).tokens ++
      ((conditionsPart "WHERE" x.conditions).tokens ++ ((groupPart x.groups).tokens ++
        ((conditionsPart "HAVING" x.havings).tokens ++ rest)))) ∈ itemEnds) :
    Takes n (grammar n).select (x.body.tokens ++ rest) x.body.levels x.body.value rest := by
  have hhaving := lead_having (l := x.havings) hrest
  have hgroup := lead_group (l := x.groups) hhaving
  have hwhere := lead_where (l := x.conditions) hgroup
  have hsources := lead_from (l := x.sources) hwhere
  have hskip : ∀ {k : String} {p : Parser String},
      k ∈ ["WINDOW", "QUALIFY"] → after? k p rest = .ok (none, rest) := by
    intro k p hk
    refine after?_skip (ne_of_lead hrest ?_)
    revert k
    decide
  have htokens : x.body.tokens ++ rest = bare "SELECT" :: (commaTokens (x.items.map (·.tokens)) ++
      ((fromClausePart x.sources).tokens ++ ((conditionsPart "WHERE" x.conditions).tokens ++
        ((groupPart x.groups).tokens ++
          ((conditionsPart "HAVING" x.havings).tokens ++ rest))))) := by
    simp [body]
  rw [htokens]
  unfold Inside.select
  refine Takes.step (word_take (by decide)) ?_
  refine Takes.step (distinctText?_skip (lead_items hx (by decide)) (lead_items hx (by decide))) ?_
  refine Takes.step (after?_skip (lead_items hx (by decide))) ?_
  refine Takes.bind (takes_items hx hsources hfrom) ?_
  refine Takes.step (after?_skip (ne_of_lead hsources (by decide))) ?_
  refine takes_from hx.sources hwhere ?_
  refine Takes.step (lateralViews_skip hwhere) ?_
  rw [grammar_dialect, if_pos rfl]
  refine Takes.step (after?_skip (ne_of_lead hwhere (by decide))) ?_
  have hends : ∀ x ∈ bodyEnds, x ∈ selectEnds := by decide
  have hbehind : ∀ x ∈ whereEnds, x ∈ selectEnds := by decide
  refine Takes.bind (takes_conditions (by decide) hx.conditions (hbehind _ hgroup)
    (ne_of_lead hgroup (by decide))) ?_
  refine Takes.bind (takes_grouping hx.groups hhaving) ?_
  refine Takes.step (distribution_skip (ne_of_lead hhaving (by decide))) ?_
  refine Takes.step (distribution_skip (ne_of_lead hhaving (by decide))) ?_
  refine Takes.step (distribution_skip (ne_of_lead hhaving (by decide))) ?_
  refine Takes.last (takes_conditions (by decide) hx.havings (hends _ hrest)
    (ne_of_lead hrest (by decide))) ?_
  refine (bind_ok (hskip (by decide)) _).trans ?_
  refine (bind_ok (hskip (by decide)) _).trans ?_
  refine (bind_ok (p := pure none) rfl _).trans ?_
  refine (bind_ok (hierarchyText?_skip hrest) _).trans ?_
  rfl

/-! ### The query -/

/-- A body that no other body follows. -/
theorem takes_body {b : Part Body} {behind : List Token} (hb : b.tokens = bare "SELECT" :: behind)
    (h : Takes n (grammar n).select (b.tokens ++ rest) b.levels b.value rest)
    (hrest : lead rest ∈ bodyEnds) :
    Takes n (grammar n).body (b.tokens ++ rest) b.levels b.value rest := by
  have hcombination : Inside.combinationStrength rest.head? = 0 := by
    cases rest with
    | nil => rfl
    | cons t ts =>
      cases t with
      | word w =>
        have hne : ∀ k ∈ ["UNION", "EXCEPT", "INTERSECT"], w.folded ≠ k := by
          rintro k hk rfl
          refine ne_of_lead hrest (x := .word w.folded) ?_ rfl
          intro hmem
          revert hk
          simp only [bodyEnds, List.mem_cons, reduceCtorEq, Lead.word.injEq, List.not_mem_nil,
            or_false, false_or] at hmem
          rcases hmem with h | h <;> rw [h] <;> decide
        simp only [List.mem_cons, List.not_mem_nil, or_false, forall_eq_or_imp, forall_eq] at hne
        simp only [List.head?_cons, Inside.combinationStrength]
        split <;> simp_all
      | _ => rfl
  have hsingle : Takes n (grammar n).singleBody (b.tokens ++ rest) b.levels b.value rest := by
    have hsees : seesWord "SELECT" (b.tokens ++ rest) = .ok (true, b.tokens ++ rest) := by
      rw [hb]
      exact seesWord_take (by decide)
    unfold Inside.singleBody
    exact Takes.step hsees h
  rw [Takes, Inside.body, ← Takes]
  unfold Inside.bodyUpTo
  refine Takes.last hsingle ?_
  unfold Inside.extendBody
  refine (bind_ok (p := peek) rfl _).trans ?_
  rw [hcombination]
  rfl

theorem locks_skip (h : lead rest ∈ queryEnds) : Inside.locks rest = .ok (([], none), rest) := by
  unfold Inside.locks
  refine (bind_ok (p := many _) (many_none ((bind_ok (p := ahead) rfl _).trans ?_)) _).trans ?_
  · cases rest with
    | nil => rfl
    | cons t ts =>
      cases t with
      | word w => simp [lead, queryEnds] at h
      | _ => rfl
  exact (bind_ok (after?_skip (ne_of_lead h (by decide))) _).trans rfl

theorem takes_queryBehind (hx : x.Readable) (hrest : lead rest ∈ queryEnds)
    (hfrom : x.sources ≠ [] ∨ x.query.tokens =
      bare "SELECT" :: commaTokens (x.items.map (·.tokens))) (ctes : List CtePart) :
    Takes n ((grammar n).queryBehind false ctes) (x.query.tokens ++ rest) x.query.levels
      (.mk false ctes x.body.value (orderPart x.terms).value (limitPart x.limit).value .none)
      rest := by
  have hlimit := lead_limit (o := x.limit) hrest
  have horder := lead_order (l := x.terms) hlimit
  have hitems : lead ((fromClausePart x.sources).tokens ++
      ((conditionsPart "WHERE" x.conditions).tokens ++ ((groupPart x.groups).tokens ++
        ((conditionsPart "HAVING" x.havings).tokens ++ ((orderPart x.terms).tokens ++
          ((limitPart x.limit).tokens ++ rest)))))) ∈ itemEnds := by
    rcases hfrom with hne | htokens
    · obtain ⟨p, l, hsources⟩ := List.exists_cons_of_ne_nil hne
      rw [hsources]
      show lead (bare "FROM" :: _) ∈ itemEnds
      rw [lead_keyword (by decide)]
      decide
    · have hsub : ∀ x ∈ queryEnds, x ∈ itemEnds := by decide
      simp only [query, body, List.cons_append, List.cons.injEq, true_and, List.append_assoc,
        List.append_right_eq_self, List.append_eq_nil_iff] at htokens
      obtain ⟨h₁, h₂, h₃, h₄, h₅, h₆⟩ := htokens
      rw [h₁, h₂, h₃, h₄, h₅, h₆]
      exact hsub _ hrest
  have htokens : x.query.tokens ++ rest = x.body.tokens ++ ((orderPart x.terms).tokens ++
      ((limitPart x.limit).tokens ++ rest)) := by simp [query]
  rw [htokens]
  unfold Inside.queryBehind
  refine Takes.bind (takes_body rfl (takes_select hx horder hitems) horder) ?_
  refine Takes.bind (takes_orderBy hx.terms hlimit) ?_
  refine Takes.last (takes_bounds hx.limit hrest) ?_
  refine (bind_ok (addBounds_skip _ hrest) _).trans ?_
  have hlimitBy : (grammar n).limitBy? rest = .ok (none, rest) := by
    unfold Inside.limitBy?
    rw [grammar_dialect, if_pos rfl]
    exact after?_skip (ne_of_lead hrest (by decide))
  have hsettings : (grammar n).settings? rest = .ok (none, rest) := by
    unfold Inside.settings?
    rw [grammar_dialect, if_pos rfl]
    exact after?_skip (ne_of_lead hrest (by decide))
  have hformat : (grammar n).format? rest = .ok (none, rest) := by
    unfold Inside.format?
    rw [grammar_dialect, if_pos rfl]
    exact after?_skip (ne_of_lead hrest (by decide))
  refine (bind_ok hlimitBy _).trans ?_
  refine (bind_ok hsettings _).trans ?_
  refine (bind_ok (after?_skip (ne_of_lead hrest (by decide))) _).trans ?_
  refine (bind_ok (locks_skip hrest) _).trans ?_
  exact (bind_ok hformat _).trans rfl

theorem isQuery_select (hx : x.Readable) (hfrom : x.sources ≠ [] ∨ x.query.tokens =
    bare "SELECT" :: commaTokens (x.items.map (·.tokens))) : x.query.IsQuery := by
  refine ⟨⟨_, rfl⟩, fun n rest hrest => ?_⟩
  have hskip : ∀ k, k ≠ "SELECT" →
      word? k (x.query.tokens ++ rest) = .ok (false, x.query.tokens ++ rest) :=
    fun k hk => word?_other (by decide) hk.symm
  have hctes : (grammar n).ctes (x.query.tokens ++ rest) =
      .ok ((false, []), x.query.tokens ++ rest) := (bind_ok (hskip "WITH" (by decide)) _).trans rfl
  unfold Inside.wholeQuery
  refine Takes.step hctes (Takes.step (hskip "INSERT" (by decide)) ?_)
  exact Takes.step (hskip "UPDATE" (by decide)) (takes_queryBehind hx hrest hfrom [])

end SelectParts

/-! ## Named queries -/

/-- A named query. -/
def ctePart (name : String) (q : Part Query) : Part CtePart :=
  ⟨bare name :: bare "AS" :: .mark "(" :: (q.tokens ++ [.mark ")"]), q.levels + 1,
    .mk ⟨.bare name, []⟩ none q.value none⟩

theorem ctePart_take (hq : q.IsQuery) (hrest : lead rest ≠ .word "FROM") :
    Takes n (grammar n).ctePart ((ctePart name q).tokens ++ rest) (ctePart name q).levels
      (ctePart name q).value rest := by
  have htokens : (ctePart name q).tokens ++ rest =
      bare name :: bare "AS" :: .mark "(" :: (q.tokens ++ .mark ")" :: rest) := by simp [ctePart]
  have hquery : Takes n (parenthesized (grammar n).query)
      (.mark "(" :: (q.tokens ++ .mark ")" :: rest)) (q.levels + 1) q.value rest :=
    Takes.parenthesized
      (Takes.query fun n => hq.takes n _ (show Lead.mark ")" ∈ queryEnds by decide))
  rw [htokens]
  unfold Inside.ctePart
  refine Takes.step name_take (Takes.step (word?_take (by decide)) ?_)
  rw [grammar_dialect]
  refine Takes.step (p := pure []) rfl (Takes.step (p := pure none) rfl ?_)
  exact Takes.last hquery ((bind_ok (after?_skip hrest) _).trans rfl)

/-- A query behind its named queries, if there are any. -/
def withPart (x : SelectParts) : List (Part CtePart) → Part Query
  | [] => x.query
  | p :: l =>
    ⟨bare "WITH" :: (commaTokens ((p :: l).map (·.tokens)) ++ x.query.tokens),
      max (deepest ((p :: l).map (·.levels))) x.query.levels,
      .mk false ((p :: l).map (·.value)) x.body.value (orderPart x.terms).value
        (limitPart x.limit).value .none⟩

/-- A named query among others. -/
structure Part.IsCte (p : Part CtePart) : Prop where
  takes : ∀ n rest, lead rest ≠ .word "FROM" →
    Takes n (grammar n).ctePart (p.tokens ++ rest) p.levels p.value rest
  lead : ∀ rest, lead (p.tokens ++ rest) ≠ .word "RECURSIVE"

theorem isCte_ctePart (hname : Identifier name) (hq : q.IsQuery) : (ctePart name q).IsCte :=
  ⟨fun _ _ => ctePart_take hq, fun _ => hname.lead_ne (by decide)⟩

variable {x : SelectParts} {ctes : List (Part CtePart)}

theorem takes_with (hx : x.Readable) (hfrom : x.sources ≠ []) (hctes : ∀ p ∈ ctes, p.IsCte)
    (hrest : lead rest ∈ queryEnds) :
    Takes n (grammar n).wholeQuery ((withPart x ctes).tokens ++ rest) (withPart x ctes).levels
      (withPart x ctes).value rest := by
  cases ctes with
  | nil => exact (SelectParts.isQuery_select hx (.inl hfrom)).takes n rest hrest
  | cons p l =>
    have hskip : ∀ k, k ≠ "SELECT" →
        word? k (x.query.tokens ++ rest) = .ok (false, x.query.tokens ++ rest) :=
      fun k hk => word?_other (by decide) hk.symm
    have hselect : lead (x.query.tokens ++ rest) = .word "SELECT" := lead_keyword (by decide)
    have hlead : lead (commaTokens ((p :: l).map (·.tokens)) ++ (x.query.tokens ++ rest)) ≠
        .word "RECURSIVE" := by
      cases l with
      | nil => exact (hctes p (by simp)).lead _
      | cons p' l =>
        have hp := (hctes p (by simp)).lead (.mark "," ::
          (commaTokens ((p' :: l).map (·.tokens)) ++ (x.query.tokens ++ rest)))
        simpa [commaTokens] using hp
    have hlist : Takes n (list (grammar n).trailing (grammar n).ctePart)
        (commaTokens ((p :: l).map (·.tokens)) ++ (x.query.tokens ++ rest))
        (deepest ((p :: l).map (·.levels))) ((p :: l).map (·.value)) (x.query.tokens ++ rest) := by
      rw [grammar_trailing]
      refine Takes.list (by simp) (by rw [hselect]; decide) fun p hp next hnext => ?_
      refine (hctes p hp).takes n next ?_
      rcases hnext with hnext | rfl
      · rw [hnext]
        decide
      · rw [hselect]
        decide
    have hread : Takes n (grammar n).ctes (bare "WITH" ::
        (commaTokens ((p :: l).map (·.tokens)) ++ (x.query.tokens ++ rest)))
        (deepest ((p :: l).map (·.levels))) (false, (p :: l).map (·.value))
        (x.query.tokens ++ rest) := by
      unfold Inside.ctes
      refine Takes.step (word?_take (by decide)) ?_
      rw [if_pos rfl]
      exact Takes.step (word?_skip hlead) (Takes.last hlist rfl)
    rw [withPart, List.cons_append, List.append_assoc]
    unfold Inside.wholeQuery
    refine Takes.bind hread (Takes.step (hskip "INSERT" (by decide)) ?_)
    exact Takes.step (hskip "UPDATE" (by decide))
      (SelectParts.takes_queryBehind hx hrest (.inl hfrom) _)

/-! ## Texts of a single query -/

theorem head_withPart : ∃ k ∈ ["SELECT", "WITH"], ∃ behind,
    (withPart x ctes).tokens = bare k :: behind := by
  cases ctes with
  | nil => exact ⟨"SELECT", by decide, _, rfl⟩
  | cons p l => exact ⟨"WITH", by decide, _, rfl⟩

/-- The tokens of a query are a single statement. -/
theorem takes_statements (hx : x.Readable) (hfrom : x.sources ≠ []) (hctes : ∀ p ∈ ctes, p.IsCte) :
    Takes n (grammar n).statements (withPart x ctes).tokens ((withPart x ctes).levels + 1)
      [.query (withPart x ctes).value] [] := by
  obtain ⟨k, hk, behind, htokens⟩ := head_withPart (x := x)
  have hquery : Takes n (grammar n).query (withPart x ctes).tokens ((withPart x ctes).levels + 1)
      (withPart x ctes).value [] := by
    refine Takes.query fun n => ?_
    have hwhole : Takes n (grammar n).wholeQuery ((withPart x ctes).tokens ++ [])
        (withPart x ctes).levels (withPart x ctes).value [] :=
      takes_with hx hfrom hctes (by decide)
    rwa [List.append_nil] at hwhole
  have hwritten : ∀ k ∈ ["SELECT", "WITH"], k ∈ writtenKeywords ∧
      k ∉ ["EXPLAIN", "DESCRIBE", "DESC"] := by decide
  have hstatement : Takes n (grammar n).statement (withPart x ctes).tokens
      ((withPart x ctes).levels + 1) (.query (withPart x ctes).value) [] := by
    have hexplain : oneOf? ["EXPLAIN", "DESCRIBE", "DESC"] (withPart x ctes).tokens =
        .ok (none, (withPart x ctes).tokens) := by
      rw [htokens]
      refine oneOf?_skip fun k' hk' => ?_
      rw [lead_keyword (hwritten k hk).1]
      rintro ⟨⟩
      exact (hwritten _ hk).2 hk'
    unfold Inside.statement
    refine Takes.step hexplain ?_
    rw [if_neg (by decide)]
    unfold Inside.plainStatement
    refine Takes.step (p := peek) rfl ?_
    have hfolded := folded_keyword (hwritten k hk).1
    have hmapped : Takes n (Statement.query <$> (grammar n).query) (withPart x ctes).tokens
        ((withPart x ctes).levels + 1) (.query (withPart x ctes).value) [] := Takes.map hquery
    rw [htokens] at hmapped ⊢
    simp only [List.head?_cons, bare, hfolded] at hmapped ⊢
    simp only [List.mem_cons, List.not_mem_nil, or_false] at hk
    rcases hk with rfl | rfl <;> exact hmapped
  have hnone : ∀ m, (grammar n).statementsUpTo (m + 1) true [] = .ok ([], []) := fun m => rfl
  have hmark : mark? ";" (withPart x ctes).tokens = .ok (false, (withPart x ctes).tokens) := by
    rw [htokens]
    exact mark?_skip (by simp [lead, bare])
  have hpeek : peek (withPart x ctes).tokens = .ok (some (bare k), (withPart x ctes).tokens) := by
    rw [htokens]
    rfl
  rw [Takes, Inside.statements, ← Takes]
  unfold Inside.statementsUpTo
  refine Takes.step hmark ?_
  rw [if_neg (by decide)]
  exact Takes.step hpeek (Takes.last hstatement ((bind_ok (hnone _) _).trans rfl))

/-- A text with these tokens is read as the query if the query does not nest too deep, and is
malformed otherwise. -/
theorem parse_written {text : String} (hcut : Cut .generic text.toList (withPart x ctes).tokens)
    (hx : x.Readable) (hfrom : x.sources ≠ []) (hctes : ∀ p ∈ ctes, p.IsCte) :
    Query.parse .generic text =
      if (withPart x ctes).levels + 1 ≤ maxDepth - 1 then .ok (withPart x ctes).value
      else .error .malformed := by
  have htokens := hcut.tokenize?_mask
  have hstatements := takes_statements (n := maxDepth - 1) hx hfrom hctes
  rw [Takes, grammar] at hstatements
  unfold Query.parse statements?
  rw [htokens]
  simp only [Option.bind_eq_bind, Option.bind_some, hstatements]
  by_cases hlevels : (withPart x ctes).levels + 1 ≤ maxDepth - 1
  · simp only [if_pos hlevels]
  · simp only [if_neg hlevels]

end QueryCanvas.Sql
