import QueryCanvas.Proofs.Written.Sources

/-!
# Reading the list of results

Columns, calls of aggregate functions and nested queries among the results of a select, each with
the tokens of its written form.
-/

set_option autoImplicit false

namespace QueryCanvas.Sql

open Sql.Parser

variable {n : Nat} {ts rest : List Token} {t c : String} {f : AggregateFunction} {q : Part Query}
  {a : Part Argument} {e : Part Expr}

/-! ## Calls of aggregate functions -/

/-- The star as an argument. -/
def starArgument : Part Argument := ⟨[.mark "*"], 0, .wildcard⟩

/-- A column as an argument. -/
def columnArgument (t c : String) : Part Argument :=
  ⟨(columnPart t c).tokens, 1, .expr (columnPart t c).value⟩

/-- What can follow an argument. -/
def argumentEnds : List Lead := [.mark ")", .mark ","]

/-- What stands alone between the parentheses of a call. -/
structure Part.IsArgument (a : Part Argument) : Prop where
  takes : ∀ n rest, lead rest ∈ argumentEnds →
    Takes n (grammar n).argument (a.tokens ++ rest) a.levels a.value rest
  lead : ∀ rest, ∀ x ∈ [.mark ")", .word "ALL", .word "DISTINCT"], lead (a.tokens ++ rest) ≠ x
  /-- It is none of the modifiers of a type. -/
  modifiers : ∀ rest, modifiers (a.tokens ++ rest) = .error .mismatch

theorem mark_skip {s : String} (h : lead ts ≠ .mark s) : mark s ts = .error .mismatch :=
  (bind_ok (mark?_skip h) _).trans rfl

/-- Where no argument with a name begins, a star or an expression is read. -/
theorem argument_plain {x : Token} {behind : List Token}
    (h : ∀ s ∈ ["=>", "=", ":="], lead behind ≠ .mark s) :
    (grammar n).argument (x :: behind) =
      (Inside.Starred.toArgument <$> (grammar n).starred) (x :: behind) := by
  unfold Inside.argument
  refine (bind_ok (p := ahead) rfl _).trans ?_
  refine congrFun ?_ _
  rw [List.drop_one, List.tail_cons]
  split
  · exact (h "=>" (by decide) rfl).elim
  · exact (h "=" (by decide) rfl).elim
  · exact (h ":=" (by decide) rfl).elim
  · rfl

/-- A name with another one behind a point is no star. -/
theorem starred_column (h : lead rest ≠ .mark ".") :
    (grammar n).starred ((columnPart t c).tokens ++ rest) =
      (Inside.Starred.expr <$> (grammar n).expr) ((columnPart t c).tokens ++ rest) := by
  have hpath : Inside.starPathUpTo ((Token.mark "." :: bare c :: rest).length + 1)
      (.mark "." :: bare c :: rest) = .ok (none, rest) := by
    simp [Inside.starPathUpTo, Inside.memberOrStar, next, bare, mark?_skip h]
  show Inside.starred (grammar n) (.word (.bare t) :: .mark "." :: bare c :: rest) = _
  unfold Inside.starred
  simp only [hpath]
  rfl

theorem starred_star : (grammar n).starred (.mark "*" :: rest) = .ok (.all, rest) := rfl

/-- A column is an expression one level deeper. -/
theorem takes_column (ht : Identifier t) (hrest : lead rest ∈ expressionEnds) :
    Takes n (grammar n).expr ((columnPart t c).tokens ++ rest) 1 (columnPart t c).value rest :=
  Takes.operand fun _ =>
    (Opens.operand (operandFirst_reference ht (operandEnds_of_expression hrest))).expression
      (strength_expressionEnds hrest)

theorem isArgument_star : starArgument.IsArgument := by
  refine ⟨fun n rest hrest => Takes.of_eq ?_, fun rest x hx => ?_, fun rest => ?_⟩
  · refine (argument_plain (x := .mark "*")
      fun s hs => ne_of_lead hrest ?_).trans ?_
    · revert s
      decide
    · rw [map_run, starred_star]
      rfl
  · show Lead.mark "*" ≠ x
    rintro rfl
    revert hx
    decide
  · refine (bind_ok (p := many _) (many_none rfl) _).trans ?_
    exact bind_error (mark_skip (by simp [starArgument, lead])) _

theorem isArgument_column (ht : Identifier t) : (columnArgument t c).IsArgument := by
  refine ⟨fun n rest hrest => ?_, fun rest x hx => ?_, fun rest => ?_⟩
  · have hbehind : ∀ s ∈ ["=>", "=", ":="], lead (.mark "." :: bare c :: rest) ≠ .mark s := by
      intro s hs
      rintro ⟨⟩
      revert hs
      decide
    have hplain := argument_plain (n := n) (x := bare t) hbehind
    have hsub : ∀ x ∈ argumentEnds, x ∈ expressionEnds := by decide
    have hends := hsub _ hrest
    have hstarred : Takes n (grammar n).starred ((columnPart t c).tokens ++ rest) 1
        (.expr (columnPart t c).value) rest := by
      rw [Takes, starred_column (ne_of_lead hrest (by decide))]
      exact Takes.map (takes_column ht hends)
    rw [Takes]
    exact hplain.trans (Takes.map hstarred)
  · simp only [List.mem_cons, List.not_mem_nil, or_false] at hx
    rcases hx with rfl | rfl | rfl
    · simp [columnArgument, columnPart, bare, lead]
    · exact ht.lead_ne (by decide)
    · exact ht.lead_ne (by decide)
  · -- the modifiers end behind the name of the table, where no parenthesis closes them
    refine (bind_ok (p := many _) (show _ = Except.ok
      ([[(Name.bare t).text]], .mark "." :: bare c :: rest) from rfl) _).trans ?_
    exact bind_error (mark_skip (by simp [lead])) _

/-- A call of an aggregate function. -/
def callPart (f : AggregateFunction) (a : Part Argument) : Part Expr :=
  ⟨bare f.sql :: .mark "(" :: (a.tokens ++ [.mark ")"]), a.levels,
    .call [.bare f.sql] "" (.list none [a.value] []) .none⟩

theorem function_written (f : AggregateFunction) :
    f.sql ∈ writtenKeywords ∧ f.sql ∉ typeKeywords ∧ f.sql ∉ formKeywords := by
  cases f <;> decide +kernel

/-- What stands behind the last argument of a call. -/
theorem argumentClauses_skip (h : lead rest = .mark ")") :
    (grammar n).argumentClauses rest = .ok (([], false), rest) := by
  have hne : ∀ k, lead rest ≠ .word k := by simp [h]
  have hnulls : (if (grammar n).dialect = .generic then Inside.nullTreatment? else pure none) rest =
      .ok (none, rest) := by
    rw [grammar_dialect, if_pos rfl]
    exact (bind_ok (oneOf?_skip fun k _ => hne k) _).trans rfl
  have hoverflow : (grammar n).overflow? rest = .ok (none, rest) :=
    (bind_ok (words?_skip (hne _)) _).trans rfl
  unfold Inside.argumentClauses
  simp only [grammar_dialect, decide_true, Bool.true_or, if_true] at hnulls ⊢
  refine (bind_ok hnulls _).trans ?_
  refine (bind_ok (afterAll?_skip (hne _)) _).trans ?_
  refine (bind_ok (after?_skip (hne _)) _).trans ?_
  refine (bind_ok (after?_skip (hne _)) _).trans ?_
  refine (bind_ok (after?_skip (hne _)) _).trans ?_
  exact (bind_ok hoverflow _).trans rfl

theorem callTail_skip (h : lead rest ∈ operandEnds) :
    (grammar n).callTail false rest = .ok (.none, rest) := by
  have hfilter : (grammar n).filter? rest = .ok (none, rest) := by
    unfold Inside.filter?
    rw [grammar_dialect, if_neg (by decide)]
    rfl
  have hnulls : Inside.nullTreatment? rest = .ok (none, rest) :=
    (bind_ok (oneOf?_skip fun k hk => ne_of_lead h (by
      revert k
      decide)) _).trans rfl
  unfold Inside.callTail
  refine (bind_ok (afterAll?_skip (ne_of_lead h (by decide))) _).trans ?_
  refine (bind_ok hfilter _).trans ?_
  refine (bind_ok hnulls _).trans ?_
  exact (bind_ok (after?_skip (ne_of_lead h (by decide))) _).trans rfl

theorem takes_arguments (ha : a.IsArgument) :
    Takes n (grammar n).arguments (a.tokens ++ .mark ")" :: rest) a.levels
      (.list none [a.value] [], false) rest := by
  have hdistinct : Inside.distinct? (a.tokens ++ .mark ")" :: rest) =
      .ok (none, a.tokens ++ .mark ")" :: rest) := by
    refine (bind_ok (word?_skip (ha.lead _ _ (by decide))) _).trans ?_
    exact (bind_ok (word?_skip (ha.lead _ _ (by decide))) _).trans rfl
  have hitems : Takes n (list (grammar n).trailing (grammar n).argument)
      (a.tokens ++ .mark ")" :: rest) a.levels [a.value] (.mark ")" :: rest) := by
    have hparts : ∀ p ∈ [a], ∀ next, lead next = .mark "," ∨ next = .mark ")" :: rest →
        Takes n (grammar n).argument (p.tokens ++ next) p.levels p.value next := by
      intro p hp next hnext
      obtain rfl := List.mem_singleton.1 hp
      refine ha.takes n next ?_
      rcases hnext with hnext | rfl
      · rw [hnext]
        decide
      · exact List.mem_cons_self
    have hlist := Takes.list (by simp) (by simp [lead]) hparts
    rw [grammar_trailing]
    simpa [commaTokens, deepest] using hlist
  unfold Inside.arguments
  refine Takes.step (mark?_skip (ha.lead _ _ (by decide))) ?_
  rw [if_neg (by decide)]
  refine Takes.step hdistinct (Takes.last hitems ?_)
  refine (bind_ok (argumentClauses_skip rfl) _).trans ?_
  exact (bind_ok mark_take _).trans rfl

/-- A call of an aggregate function is no text of a type of one's own. -/
theorem typedText_call (ha : a.IsArgument) :
    (grammar n).typedText ((callPart f a).tokens ++ rest) = .error .mismatch := by
  obtain ⟨hwritten, htype, -⟩ := function_written f
  have htokens : (callPart f a).tokens ++ rest =
      bare f.sql :: .mark "(" :: (a.tokens ++ .mark ")" :: rest) := by simp [callPart]
  rw [htokens]
  refine typedText_mismatch (by rwa [folded_keyword hwritten]) ?_
  refine (bind_ok (path_alone (by simp [lead])) _).trans ?_
  refine (bind_ok mark?_here _).trans ?_
  exact bind_error (ha.modifiers _) _

theorem isSubject_call (ha : a.IsArgument) : (callPart f a).IsSubject := by
  obtain ⟨hwritten, -, hform⟩ := function_written f
  refine ⟨fun n rest hrest => operandFirst_untyped (typedText_call ha) ?_ hrest,
    fun rest k hk => ?_⟩
  · have htokens : (callPart f a).tokens ++ rest =
        bare f.sql :: .mark "(" :: (a.tokens ++ .mark ")" :: rest) := by simp [callPart]
    rw [htokens, Takes, plainOperand_word (by rwa [folded_keyword hwritten]), ← Takes]
    refine Takes.step (p := peek) rfl ?_
    show Takes n ((grammar n).columnOrCall (.bare f.sql)) _ _ _ _
    unfold Inside.columnOrCall
    refine Takes.step (p := ahead) rfl ?_
    have hmembers : ∀ m, (grammar n).members (m + 1)
        (.mark "(" :: (a.tokens ++ .mark ")" :: rest)) =
        .ok (([], false), .mark "(" :: (a.tokens ++ .mark ")" :: rest)) := by
      intro m
      unfold Inside.members
      refine (bind_ok (mark?_skip (by simp [lead])) _).trans ?_
      rfl
    refine Takes.step (hmembers _) ?_
    refine Takes.step mark?_here ?_
    have hgeneric : ¬((decide ((grammar n).dialect = .mssql) && decide
        ((a.tokens ++ .mark ")" :: rest).take 2 = [.mark "+", .mark ")"])) = true) := by
      simp
    refine Takes.step (p := ahead) rfl ?_
    rw [if_neg hgeneric]
    unfold Inside.callOf
    refine Takes.last (takes_arguments ha) ?_
    rw [grammar_dialect]
    refine (bind_ok (mark?_skip (ne_of_lead hrest (by decide))) _).trans ?_
    exact (bind_ok (callTail_skip hrest) _).trans rfl
  · show lead (bare f.sql :: _) ≠ _
    rw [lead_keyword hwritten]
    rintro ⟨⟩
    revert hk
    cases f <;> decide

/-! ## Items -/

/-- What can follow an item of the list of results. -/
def itemEnds : List Lead := [.none, .mark ")", .mark ",", .word "FROM"]

/-- The keywords that mean something in front of the results. -/
def resultKeywords : List String := ["ALL", "DISTINCT", "TOP"]

/-- An item of the list of results. -/
structure Part.IsItem (p : Part SelectItem) : Prop where
  takes : ∀ n rest, lead rest ∈ itemEnds →
    Takes n (grammar n).selectItem (p.tokens ++ rest) p.levels p.value rest
  lead : ∀ rest, ∀ k ∈ resultKeywords, lead (p.tokens ++ rest) ≠ .word k

/-- An expression with its alias, if it has one. -/
def itemPart (e : Part Expr) (aliasName : Option String) : Part SelectItem :=
  ⟨e.tokens ++ aliasTokens aliasName, e.levels + 1, .expr e.value (aliasName.map .bare)⟩

/-- The star alone. -/
def starPart : Part SelectItem := ⟨[.mark "*"], 0, .wildcard ""⟩

theorem columnAlias?_take (aliasName : Option String) (h : lead rest ∈ itemEnds) :
    alias? Keyword.noColumnAlias (aliasTokens aliasName ++ rest) =
      .ok (aliasName.map .bare, rest) := by
  cases aliasName with
  | some name =>
    refine (bind_ok (word?_take (by decide)) _).trans ?_
    exact (bind_ok name_take _).trans rfl
  | none =>
    refine (bind_ok (word?_skip (ne_of_lead h (by decide))) _).trans ?_
    rw [if_neg (by decide)]
    refine (bind_ok (p := peek) rfl _).trans ?_
    show _ = Except.ok (none, rest)
    cases rest with
    | nil => rfl
    | cons t ts =>
      cases t with
      | word w =>
        have hfrom : w.folded = "FROM" := by
          simpa [lead, itemEnds] using h
        simp only [List.head?_cons, hfrom]
        rfl
      | text kind s => exact (ne_of_lead h (x := .text) (by decide) rfl).elim
      | _ => rfl

/-- An expression other than a single name is read with its alias. -/
theorem isItem_expr (he : e.IsSubject) (aliasName : Option String)
    (hstarred : ∀ n rest, lead rest ∈ operandEnds → (grammar n).starred (e.tokens ++ rest) =
      (Inside.Starred.expr <$> (grammar n).expr) (e.tokens ++ rest))
    (hvalue : ∀ (name : Name) (right : Expr), e.value ≠ .column [name] ∧
      e.value ≠ .binary (.column [name]) (.compare .eq) right)
    (hlead : ∀ rest, ∀ k ∈ resultKeywords, lead (e.tokens ++ rest) ≠ .word k) :
    (itemPart e aliasName).IsItem := by
  refine ⟨fun n rest hrest => ?_, fun rest k hk => ?_⟩
  · have hends : lead (aliasTokens aliasName ++ rest) ∈ expressionEnds := by
      have hsub : ∀ x ∈ itemEnds, x ∈ expressionEnds := by decide
      cases aliasName with
      | none => exact hsub _ hrest
      | some name =>
        show lead (bare "AS" :: _) ∈ expressionEnds
        rw [lead_keyword (by decide)]
        decide
    have hexpr : Takes n (grammar n).expr (e.tokens ++ (aliasTokens aliasName ++ rest))
        (e.levels + 1) e.value (aliasTokens aliasName ++ rest) :=
      Takes.operand fun n =>
        (Opens.operand (he.takes n _ (operandEnds_of_expression hends))).expression
          (strength_expressionEnds hends)
    have hread : Takes n (grammar n).starred (e.tokens ++ (aliasTokens aliasName ++ rest))
        (e.levels + 1) (.expr e.value) (aliasTokens aliasName ++ rest) := by
      rw [Takes, hstarred n _ (operandEnds_of_expression hends)]
      exact Takes.map hexpr
    have haliased : (do return SelectItem.expr e.value (← alias? Keyword.noColumnAlias) :
        Parser SelectItem) (aliasTokens aliasName ++ rest) =
          .ok ((itemPart e aliasName).value, rest) :=
      (bind_ok (columnAlias?_take aliasName hrest) _).trans rfl
    rw [itemPart, List.append_assoc]
    refine Takes.last hread ((congrFun ?_ _).trans haliased)
    simp only
    generalize hv : e.value = v at hvalue
    split
    · exact ((hvalue _ .null).1 rfl).elim
    · exact ((hvalue _ _).2 rfl).elim
    · rfl
  · rw [itemPart, List.append_assoc]
    exact hlead _ k hk

theorem isItem_column (ht : Identifier t) : (itemPart (columnPart t c) none).IsItem := by
  have hsub : ∀ k ∈ resultKeywords, k ∈ namedKeywords := by decide
  exact isItem_expr (isSubject_column ht) none
    (fun n rest hrest => starred_column (ne_of_lead hrest (by decide)))
    (fun name right => ⟨by simp [columnPart], by simp [columnPart]⟩)
    fun rest k hk => ht.lead_ne (hsub k hk)

/-- What begins with a word and no point behind it is no star. -/
theorem starred_word {name : Name} (h : lead ts ≠ .mark ".") :
    (grammar n).starred (.word name :: ts) =
      (Inside.Starred.expr <$> (grammar n).expr) (.word name :: ts) := by
  unfold Inside.starred
  split
  · rename_i heq
    cases heq
  · rename_i heq
    cases heq
    exact (h rfl).elim
  · rename_i heq
    cases heq
  · rfl

theorem isItem_call (ha : a.IsArgument) (aliasName : Option String) :
    (itemPart (callPart f a) aliasName).IsItem := by
  refine isItem_expr (isSubject_call ha) aliasName (fun n rest _ => starred_word (by simp [lead]))
    (fun name right => ⟨by simp [callPart], by simp [callPart]⟩) fun rest k hk => ?_
  show lead (bare f.sql :: _) ≠ _
  rw [lead_keyword (function_written f).1]
  rintro ⟨⟩
  revert hk
  cases f <;> decide

theorem isItem_scalar (hq : q.IsQuery) (aliasName : Option String) :
    (itemPart (subqueryPart q) aliasName).IsItem :=
  isItem_expr ⟨fun _ _ hrest => hq.takes_operandFirst hrest, fun rest k _ => by
      simp [subqueryPart, lead]⟩ aliasName (fun _ _ _ => rfl)
    (fun name right => ⟨by simp [subqueryPart], by simp [subqueryPart]⟩)
    fun rest k _ => by simp [subqueryPart, lead]

/-- The word for no value. -/
def nullPart : Part Expr := ⟨[bare "NULL"], 0, .null⟩

theorem isItem_null : (itemPart nullPart none).IsItem := by
  have hlead : ∀ rest k, k ≠ "NULL" → lead (nullPart.tokens ++ rest) ≠ .word k := by
    intro rest k hk
    show lead (bare "NULL" :: rest) ≠ _
    rw [lead_keyword (by decide)]
    exact fun heq => hk (Lead.word.inj heq).symm
  have hsubject : nullPart.IsSubject :=
    ⟨fun n rest hrest => operandFirst_null hrest, fun rest k hk => hlead rest k (by
      rintro rfl
      revert hk
      decide)⟩
  exact isItem_expr hsubject none
    (fun n rest hrest => starred_word (ne_of_lead hrest (by decide)))
    (fun name right => ⟨by simp [nullPart], by simp [nullPart]⟩) fun rest k hk => hlead rest k (by
      rintro rfl
      revert hk
      decide)

theorem starOptions_skip (h : lead rest ∈ itemEnds) :
    (grammar n).starOptions rest = .ok ("", rest) := by
  have hne : ∀ k ∈ ["ILIKE", "EXCLUDE", "EXCEPT", "REPLACE", "RENAME"], lead rest ≠ .word k := by
    intro k hk
    refine ne_of_lead h ?_
    revert k
    decide
  unfold Inside.starOptions
  simp only [grammar_dialect, decide_true, Bool.true_or, if_true]
  refine (bind_ok (after?_skip (hne _ (by decide))) _).trans ?_
  refine (bind_ok (after?_skip (hne _ (by decide))) _).trans ?_
  refine (bind_ok (after?_skip (hne _ (by decide))) _).trans ?_
  refine (bind_ok (after?_skip (hne _ (by decide))) _).trans ?_
  exact (bind_ok (after?_skip (hne _ (by decide))) _).trans rfl

theorem isItem_star : starPart.IsItem := by
  refine ⟨fun n rest hrest => Takes.of_eq ?_, fun rest k _ => by simp [starPart, lead]⟩
  refine (bind_ok (starred_star) _).trans ?_
  exact (bind_ok (starOptions_skip hrest) _).trans rfl

end QueryCanvas.Sql
