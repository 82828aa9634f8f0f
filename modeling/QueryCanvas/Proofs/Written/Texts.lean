import QueryCanvas.Proofs.Sql.Surrounded
import QueryCanvas.Proofs.Written.Forms

/-!
# The tokens of written selects

The text of a select on one line is cut into the tokens of its parts.  Texts are put together with
blanks, commas and parentheses, and the tokens with them.
-/

set_option autoImplicit false

namespace QueryCanvas.Sql

open Lexer

/-- The text is cut into these tokens. -/
def Spells (s : String) (ts : List Token) : Prop := Cut .generic s.toList ts

variable {a b s : String} {ts ts' : List Token}

/-! ## Putting texts together -/

namespace Spells

theorem empty : Spells "" [] := Cut.done

theorem spaced (ha : Spells a ts) (hb : Spells b ts') : Spells (a ++ " " ++ b) (ts ++ ts') := by
  rw [Spells, String.toList_append, String.toList_append, List.append_assoc]
  exact Cut.append ha (Cut.gap (.inl rfl) hb) (by simp [pieceEnds])

theorem comma (ha : Spells a ts) (hb : Spells b ts') :
    Spells (a ++ ", " ++ b) (ts ++ .mark "," :: ts') := by
  rw [Spells, String.toList_append, String.toList_append, List.append_assoc]
  exact Cut.append ha (Cut.mark (c := ',') (by decide) (Cut.gap (.inl rfl) hb))
    (by simp [pieceEnds])

theorem enclosed (h : Spells a ts) :
    Spells ("(" ++ a ++ ")") (.mark "(" :: (ts ++ [.mark ")"])) := by
  rw [Spells, String.toList_append, String.toList_append]
  refine Cut.append (Cut.mark (c := '(') (by decide) h) ?_
    (by simp [pieceEnds])
  exact Cut.mark (c := ')') (by decide) .done

theorem name (h : isPlainName s) : Spells s [bare s] := by
  have hword := Cut.word (d := .generic) h (by simp) .done
  rwa [List.append_nil] at hword

/-- A word in front of a text. -/
theorem behind (h : isPlainName s) (hb : Spells b ts) : Spells (s ++ " " ++ b) (bare s :: ts) :=
  (name h).spaced hb

/-- A word between two texts. -/
theorem tied (h : isPlainName s) (ha : Spells a ts) (hb : Spells b ts') :
    Spells (a ++ (" " ++ s ++ " ") ++ b) (ts ++ bare s :: ts') := by
  have htext : a ++ (" " ++ s ++ " ") ++ b = a ++ " " ++ (s ++ " " ++ b) := by
    simp only [String.append_assoc]
  rw [htext]
  exact ha.spaced (behind h hb)

theorem compare (op : Comparison) (h : Spells b ts) :
    Spells (op.sql ++ " " ++ b) (.mark op.sql :: ts) := by
  rw [Spells, String.toList_append, String.toList_append, List.append_assoc]
  exact Cut.compare op (Cut.gap (.inl rfl) h)

/-- A word in front of parentheses. -/
theorem called (h : isPlainName s) (hb : Spells b ts) :
    Spells (s ++ "(" ++ b ++ ")") (bare s :: .mark "(" :: (ts ++ [.mark ")"])) := by
  have htext : s ++ "(" ++ b ++ ")" = s ++ ("(" ++ b ++ ")") := by simp only [String.append_assoc]
  rw [htext, Spells, String.toList_append]
  exact Cut.word h (by simp [wordEnds]) hb.enclosed

theorem commas {l : List String} {tokens : List (List Token)} (h : List.Forall₂ Spells l tokens) :
    Spells (Sql.commaList l) (commaTokens tokens) := by
  unfold Sql.commaList
  induction h with
  | nil => exact empty
  | @cons s ts l tokens hs hl ih =>
    cases hl with
    | nil => simpa [commaTokens] using hs
    | cons hs' hl =>
      rw [String.intercalate_cons_cons]
      exact hs.comma ih

theorem commaList {α : Type} {text : α → String} {tokens : α → List Token} {l : List α}
    (h : ∀ x ∈ l, Spells (text x) (tokens x)) :
    Spells (Sql.commaList (l.map text)) (commaTokens (l.map tokens)) := by
  refine commas ?_
  rwa [List.forall₂_map_left_iff, List.forall₂_map_right_iff, List.forall₂_same]

/-- Texts with blanks between them. -/
theorem intercalate {l : List String} {tokens : List (List Token)}
    (h : List.Forall₂ Spells l tokens) : Spells (" ".intercalate l) tokens.flatten := by
  induction h with
  | nil => exact empty
  | @cons s ts l tokens hs hl ih =>
    cases hl with
    | nil => simpa using hs
    | cons hs' hl =>
      rw [String.intercalate_cons_cons]
      exact hs.spaced ih

theorem chain {l : List (String × Connector)} {members : List Member}
    (h : List.Forall₂ (fun c m => Spells c.1 m.1.tokens ∧ c.2 = m.2) l members) :
    Spells (Sql.chain .compact l) (tiedTokens members) := by
  induction h with
  | nil => exact empty
  | @cons c m l members hc hl ih =>
    obtain ⟨text, k⟩ := c
    obtain ⟨p, k'⟩ := m
    obtain ⟨hp, rfl⟩ : Spells text p.tokens ∧ k = k' := hc
    cases hl with
    | nil => simpa [Sql.chain, tiedTokens, tailTokens] using hp
    | @cons c m l members hc hl =>
      have hword : isPlainName k.sql := by cases k <;> decide
      have htext : Sql.chain .compact ((text, k) :: c :: l) =
          text ++ " " ++ (k.sql ++ " " ++ Sql.chain .compact (c :: l)) := by
        simp [Sql.chain, Layout.innerBreak, Layout.compact, String.append_assoc]
      rw [htext]
      exact hp.spaced (behind hword ih)

end Spells

/-! ## Columns and values -/

theorem spells_identifier (h : Identifier s) : Spells s [bare s] := .name h.plain

theorem quoteName_identifier (h : Identifier s) : quoteName s = s := by
  rw [quoteName, if_pos h.plain]

theorem quotePath_identifier (h : Identifier s) : quotePath s = s :=
  quotePath_of_isPlainName h.plain

namespace TableColumn.Plain

variable {c : TableColumn}

theorem text_eq (h : c.Plain) : c.text = c.table ++ "." ++ c.column := by
  rw [text, columnRef, quotePath_identifier h.table, quoteName_identifier h.column]

theorem spells (h : c.Plain) : Spells c.text c.part.tokens := by
  rw [h.text_eq, Spells, String.toList_append, String.toList_append, List.append_assoc]
  refine Cut.word h.table.plain (by simp [wordEnds]) ?_
  refine Cut.point (fun x hx => ⟨?_, ?_⟩) (spells_identifier h.column)
  · exact Cut.quiet_of_plainName h.column.plain x (List.mem_of_mem_head? hx)
  · have hstart := h.column.plain
    simp only [isPlainName, Bool.and_eq_true, Option.any_eq_true] at hstart
    obtain ⟨⟨y, hy, hname⟩, -⟩ := hstart
    obtain rfl : y = x := Option.some.inj (hy.symm.trans hx)
    by_contra hdigit
    have hnone := isNameStart_of_isDigit (Bool.of_not_eq_false hdigit)
    rw [hnone] at hname
    cases hname

end TableColumn.Plain

theorem Constant.spells {p : Part Expr} (h : Constant s p) : Spells s p.tokens := h.cut

theorem spells_aggregated {a : Aggregated} (h : ∀ c ∈ a, c.Plain) :
    Spells a.text a.part.tokens := by
  cases a with
  | none => exact Cut.mark (c := '*') (by decide) .done
  | some c => exact (h c rfl).spells

theorem spells_call {a : Aggregated} (f : AggregateFunction) (h : ∀ c ∈ a, c.Plain) :
    Spells (call f a.text) (callPart f a.part).tokens :=
  .called (by cases f <;> decide) (spells_aggregated h)

theorem spells_aliased {aliasName : Option String} (h : Spells a ts)
    (hname : ∀ name ∈ aliasName, Identifier name) :
    Spells (aliased a aliasName) (ts ++ aliasTokens aliasName) := by
  cases aliasName with
  | none => simpa [aliased, aliasTokens] using h
  | some name =>
    have hplain := hname name rfl
    rw [aliased, quoteName_identifier hplain]
    exact .tied (s := "AS") (by decide) h (spells_identifier hplain)

/-! ## Conditions -/

variable {ν : Type} {g : ν → String} {p : ν → Part Query} {x : WrittenSelect ν}

/-- A nested query in its parentheses. -/
def SpellsQuery (s : String) (q : Part Query) : Prop :=
  Spells s (.mark "(" :: (q.tokens ++ [.mark ")"]))

/-- A test that can be negated, with what it tests for. -/
theorem spells_negatable {op word : String} {negated : Bool} (hword : isPlainName word)
    (hop : op = if negated then "NOT " ++ word else word) (hb : Spells b ts) :
    Spells (op ++ " " ++ b) (notTokens negated ++ bare word :: ts) := by
  subst hop
  cases negated with
  | false => exact .behind hword hb
  | true =>
    have htext : "NOT " ++ word ++ " " ++ b = "NOT" ++ " " ++ (word ++ " " ++ b) := by
      simp [String.append_assoc]
    rw [if_pos rfl, htext]
    exact .behind (by decide) (.behind hword hb)

theorem spells_test {op : FilterOperator} (hop : op.isUnary) : Spells op.sql (testTokens op) := by
  have hword : ∀ w, isPlainName w → Spells ("IS " ++ w) [bare "IS", bare w] := fun w hw =>
    .behind (s := "IS") (by decide) (.name hw)
  cases op with
  | isNull => exact hword "NULL" (by decide)
  | isTrue => exact hword "TRUE" (by decide)
  | isFalse => exact hword "FALSE" (by decide)
  | isNotNull =>
    exact .behind (s := "IS") (by decide)
      (.behind (s := "NOT") (by decide) (.name (s := "NULL") (by decide)))
  | _ => cases hop

/-- What stands behind the subject of a test. -/
theorem WrittenTest.spells {t : WrittenTest ν} (hg : ∀ q ∈ t.nested, SpellsQuery (g q) (p q))
    {subject : Part Expr} (hs : Spells s subject.tokens) :
    Spells (s ++ " " ++ t.operator.sql ++ t.operand g) (t.part p subject).tokens := by
  have hlike : ∀ anyCase negated, (likeOperator anyCase negated).sql =
      if negated then "NOT " ++ (if anyCase then "ILIKE" else "LIKE")
      else if anyCase then "ILIKE" else "LIKE" := by
    intro anyCase negated
    cases anyCase <;> cases negated <;> rfl
  rw [String.append_assoc]
  suffices h : ∃ behind, (t.part p subject).tokens = subject.tokens ++ behind ∧
      Spells (t.operator.sql ++ t.operand g) behind by
    obtain ⟨behind, htokens, h⟩ := h
    rw [htokens]
    exact hs.spaced h
  cases t with
  | compare op v => 
    refine ⟨_, rfl, ?_⟩
    rw [operand, ← String.append_assoc]
    exact .compare op v.written.spells
  | like anyCase negated v =>
    refine ⟨_, rfl, ?_⟩
    rw [operand, ← String.append_assoc]
    exact spells_negatable (by cases anyCase <;> decide) (hlike anyCase negated) v.written.spells
  | among negated items hne =>
    refine ⟨_, rfl, ?_⟩
    have htext : (among negated items hne : WrittenTest ν).operator.sql ++
        (" (" ++ commaList (items.map (·.text)) ++ ")") = (among negated items hne :
          WrittenTest ν).operator.sql ++ " " ++ ("(" ++ commaList (items.map (·.text)) ++ ")") := by
      have hopen : " (" = " " ++ "(" := rfl
      rw [hopen]
      simp only [String.append_assoc]
    rw [operand, htext, List.map_map]
    exact spells_negatable (by decide) (by cases negated <;> rfl)
      (.enclosed (.commaList fun v _ => v.written.spells))
  | range negated low high =>
    refine ⟨_, rfl, ?_⟩
    have hrange : Spells (low.text ++ " AND " ++ high.text)
        (low.part.tokens ++ bare "AND" :: high.part.tokens) :=
      .tied (s := "AND") (by decide) low.written.spells high.written.spells
    rw [operand, ← String.append_assoc]
    exact spells_negatable (by decide) (by cases negated <;> rfl) hrange
  | plain op hop =>
    refine ⟨_, rfl, ?_⟩
    rw [operand, String.append_empty]
    exact spells_test hop
  | compareQuery op q =>
    refine ⟨_, rfl, ?_⟩
    rw [operand, ← String.append_assoc]
    exact .compare op (hg q (by simp [nested]))
  | amongResults negated q =>
    refine ⟨_, rfl, ?_⟩
    rw [operand, ← String.append_assoc]
    exact spells_negatable (by decide) (by cases negated <;> rfl) (hg q (by simp [nested]))

theorem WrittenCondition.spells {c : WrittenCondition ν} (hc : c.column.Plain)
    (hg : ∀ q ∈ c.test.nested, SpellsQuery (g q) (p q)) : Spells (c.text g) (c.part p).tokens :=
  WrittenTest.spells hg hc.spells

theorem WrittenHaving.spells {h : WrittenHaving} (hh : ∀ c ∈ h.argument, c.Plain) :
    Spells h.text h.part.tokens := by
  have htext : h.text =
      call h.function h.argument.text ++ " " ++ (h.operator.sql ++ " " ++ h.value.text) := by
    simp only [text, String.append_assoc]
  rw [htext]
  exact (spells_call h.function hh).spaced (.compare h.operator h.value.written.spells)

/-! ## Results and sources -/

theorem WrittenResult.spells {r : WrittenResult ν} (hr : r.Plain)
    (hg : ∀ d ∈ r.scalar?, SpellsQuery (g d.1) (p d.1)) : Spells (r.text g) (r.part p).tokens := by
  cases r with
  | column c =>
    have hunnamed : ∀ name ∈ (none : Option String), Identifier name := by simp
    have haliased := spells_aliased (TableColumn.Plain.spells hr) hunnamed
    exact haliased
  | call a => exact spells_aliased (spells_call a.function hr.1) hr.2
  | scalar q aliasName => exact spells_aliased (hg _ rfl) hr

theorem spells_conditions {l : List (TableColumn × TableColumn)}
    (hl : ∀ c ∈ l, c.1.Plain ∧ c.2.Plain) :
    Spells (" AND ".intercalate (l.map fun c => c.1.text ++ " = " ++ c.2.text))
      (tiedTokens (l.map fun c => (WrittenStep.equality c, .and))) := by
  have hequality : ∀ c : TableColumn × TableColumn, c.1.Plain → c.2.Plain →
      Spells (c.1.text ++ " = " ++ c.2.text) (WrittenStep.equality c).tokens := by
    intro c hleft hright
    have htext : c.1.text ++ " = " ++ c.2.text =
        c.1.text ++ " " ++ (Comparison.eq.sql ++ " " ++ c.2.text) := by
      have hsign : " = " = " " ++ Comparison.eq.sql ++ " " := rfl
      rw [hsign]
      simp only [String.append_assoc]
    rw [htext]
    exact hleft.spells.spaced (.compare .eq hright.spells)
  induction l with
  | nil => exact .empty
  | cons c l ih =>
    obtain ⟨⟨hleft, hright⟩, hl⟩ := List.forall_mem_cons.1 hl
    have hc := hequality c hleft hright
    cases l with
    | nil => simpa [tiedTokens, tailTokens] using hc
    | cons c' l =>
      rw [List.map_cons, List.map_cons, String.intercalate_cons_cons]
      exact .tied (s := "AND") (by decide) hc (ih hl)

theorem WrittenStep.Plain.spells {s : WrittenStep} (h : s.Plain) : Spells s.text s.part.tokens := by
  have hkind : ∀ {b : String} {ts : List Token}, Spells b ts →
      Spells (s.kind.keyword ++ " " ++ b) (kindTokens s.kind ++ ts) := by
    intro b ts hb
    have hwords : s.kind.keyword ++ " " ++ b = kindWord s.kind ++ " " ++ ("JOIN" ++ " " ++ b) := by
      have hkeyword : s.kind.keyword = kindWord s.kind ++ " " ++ "JOIN" := by cases s.kind <;> rfl
      rw [hkeyword]
      simp only [String.append_assoc]
    rw [hwords]
    exact .behind (by cases s.kind <;> decide) (.behind (by decide) hb)
  have htext : s.text = s.kind.keyword ++ " " ++ (s.joined ++ (" " ++ "ON" ++ " ")
      ++ " AND ".intercalate (s.conditions.map fun c => c.1.text ++ " = " ++ c.2.text)) := by
    have hon : " ON " = " " ++ "ON" ++ " " := rfl
    rw [text, quotePath_identifier h.joined, hon]
    simp only [String.append_assoc]
  rw [htext]
  have hconditions := spells_conditions h.conditions
  exact hkind (.tied (by decide) (spells_identifier h.joined) hconditions)

theorem WrittenItem.Plain.spells {i : WrittenItem} (h : i.Plain) : Spells i.text i.part.tokens := by
  have hsteps : ∀ {a : String} {ts : List Token} {l : List WrittenStep}, Spells a ts →
      (∀ s ∈ l, s.Plain) → Spells (a ++ String.join (l.map fun s => " " ++ s.text))
        (ts ++ (l.map (·.part.tokens)).flatten) := by
    intro a ts l
    induction l generalizing a ts with
    | nil => exact fun ha _ => by simpa using ha
    | cons s l ih =>
      intro ha hl
      obtain ⟨hs, hl⟩ := List.forall_mem_cons.1 hl
      have hmore := ih (ha.spaced hs.spells) hl
      simpa only [List.map_cons, String.join_cons, List.flatten_cons, String.append_assoc,
        List.append_assoc] using hmore
  have hall := hsteps (spells_identifier h.base) h.steps
  rw [text, quotePath_identifier h.base]
  simpa [part, tableItem, List.map_map, Function.comp_def] using hall

theorem spells_limit {l : Limit} (h : l.Readable) : Spells l.sql (limitExpr l).tokens := by
  cases l with
  | count n => exact (Constant.number (toString n) (numeral_toString n)).spells
  | parameter text => exact (Constant.parameter text h).spells

/-! ## Selects -/

namespace WrittenSelect

theorem Plain.spells_results (h : x.Plain) (hg : ∀ q ∈ x.nested, SpellsQuery (g q) (p q)) :
    Spells (x.resultText g) (commaTokens ((x.parts p).items.map (·.tokens))) := by
  unfold resultText parts
  split
  · exact Cut.comment (w := " no columns selected ".toList)
      (List.all_iff_forall_prop.1 (by decide))
      (Cut.gap (.inl rfl) (Cut.mark (c := '*') (by decide) .done))
  · rw [List.map_map]
    exact .commaList fun r hr => WrittenResult.spells (h.results r hr) fun d hd =>
      hg _ (mem_nested.2 (.inr (.inl ⟨r, hr, d, hd, rfl⟩)))

theorem Plain.spells_sources (h : x.Plain) (hg : ∀ q ∈ x.nested, SpellsQuery (g q) (p q)) :
    Spells (x.fromText g) (commaTokens ((x.parts p).sources.map (·.tokens))) := by
  have htokens : (x.parts p).sources.map (·.tokens) = x.items.map (·.part.tokens) ++
      x.derived.map fun d => .mark "(" :: ((p d.1).tokens ++ [.mark ")"]) ++ aliasTokens d.2 := by
    simp [parts, derivedItem, derivedPart, Function.comp_def]
  rw [htokens]
  refine .commas (List.rel_append ?_ ?_)
  · rw [List.forall₂_map_left_iff, List.forall₂_map_right_iff, List.forall₂_same]
    exact fun i hi => (h.items i hi).spells
  · rw [List.forall₂_map_left_iff, List.forall₂_map_right_iff, List.forall₂_same]
    exact fun d hd => spells_aliased (hg _ (mem_nested.2 (.inl ⟨d, hd, rfl⟩))) (h.derived d hd)

/-- Conditions in a chain. -/
theorem spells_chain {α : Type} {l : List (α × Connector)} {text : α → String}
    {part : α → Part Expr} (h : ∀ c ∈ l, Spells (text c.1) (part c.1).tokens) :
    Spells (chain .compact (l.map fun c => (text c.1, c.2)))
      (tiedTokens (l.map fun c => (part c.1, c.2))) := by
  refine .chain ?_
  rw [List.forall₂_map_left_iff, List.forall₂_map_right_iff, List.forall₂_same]
  exact fun c hc => ⟨h c hc, rfl⟩

/-- The texts are cut into tokens that make up the given ones. -/
def SpellsAll (l : List String) (ts : List Token) : Prop :=
  ∃ tokens, List.Forall₂ Spells l tokens ∧ tokens.flatten = ts

theorem SpellsAll.append {l l' : List String} (h : SpellsAll l ts) (h' : SpellsAll l' ts') :
    SpellsAll (l ++ l') (ts ++ ts') := by
  obtain ⟨tokens, hl, rfl⟩ := h
  obtain ⟨tokens', hl', rfl⟩ := h'
  exact ⟨tokens ++ tokens', List.rel_append hl hl', List.flatten_append⟩

theorem SpellsAll.one (h : Spells s ts) : SpellsAll [s] ts := ⟨[ts], .cons h .nil, by simp⟩

/-- A clause that is left out if it has no content. -/
theorem SpellsAll.clause {α : Type} {k : String} {l : List α} {text : List α → String}
    (hnone : l = [] → ts = []) (hsome : l ≠ [] → Spells (k ++ " " ++ text l) ts) :
    SpellsAll (Sql.clause k l text) ts := by
  cases l with
  | nil => exact ⟨[], .nil, (hnone rfl).symm⟩
  | cons a l => exact .one (hsome (List.cons_ne_nil a l))

/-- A clause of conditions. -/
theorem spells_conditionClause {α : Type} {k : String} {l : List (α × Connector)}
    (text : α → String) {part : α → Part Expr} (hk : isPlainName k)
    (hl : ∀ c ∈ l, Spells (text c.1) (part c.1).tokens) :
    SpellsAll (clause k l fun cs => chain .compact (cs.map fun c => (text c.1, c.2)))
      (conditionsPart k (l.map fun c => (part c.1, c.2))).tokens := by
  refine .clause (fun hnone => by rw [hnone]; rfl) fun hne => ?_
  obtain ⟨c, l, rfl⟩ := List.exists_cons_of_ne_nil hne
  exact .behind hk (spells_chain hl)

theorem Plain.spells_where (h : x.Plain) (hg : ∀ q ∈ x.nested, SpellsQuery (g q) (p q)) :
    SpellsAll (clause "WHERE" x.conditions
        fun cs => chain .compact (cs.map fun c => (c.1.text g, c.2)))
      (conditionsPart "WHERE" (x.parts p).conditions).tokens := by
  have hall : ∀ c ∈ x.conditions, Spells (c.1.text g) (c.1.part p).tokens := fun c hc =>
    WrittenCondition.spells (h.conditions c hc) fun q hq =>
      hg q (mem_nested.2 (.inr (.inr ⟨c, hc, hq⟩)))
  exact spells_conditionClause (fun c : WrittenCondition ν => c.text g) (by decide) hall

theorem Plain.spells_having (h : x.Plain) :
    SpellsAll (clause "HAVING" x.havings fun hs => chain .compact (hs.map fun h => (h.1.text, h.2)))
      (conditionsPart "HAVING" (x.parts p).havings).tokens :=
  spells_conditionClause WrittenHaving.text (by decide)
    fun c hc => WrittenHaving.spells (h.havings c hc)

/-- A clause that begins with two words. -/
theorem spells_by {k : String} (hk : isPlainName k) (h : Spells b ts) :
    Spells (k ++ (" " ++ "BY" ++ " ") ++ b) (bare k :: bare "BY" :: ts) :=
  .tied (by decide) (.name hk) h

theorem Plain.spells_group (h : x.Plain) :
    SpellsAll (clause "GROUP BY" x.groups fun cs => commaList (cs.map (·.text)))
      (groupPart (x.parts p).groups).tokens := by
  have hlist := Spells.commaList (l := x.groups) fun c hc => (h.groups c hc).spells
  unfold parts
  simp only
  generalize x.groups = l at hlist
  refine .clause (fun hnone => by rw [hnone]; rfl) fun hne => ?_
  obtain ⟨c, l, rfl⟩ := List.exists_cons_of_ne_nil hne
  have hclause := spells_by (k := "GROUP") (by decide) hlist
  simpa [groupPart, Function.comp_def] using hclause

theorem WrittenTerm.spells {t : WrittenTerm} (h : t.column.Plain) : Spells t.text t.part.tokens :=
  h.spells.spaced (.name (by cases t.direction <;> decide))

theorem Plain.spells_order (h : x.Plain) :
    SpellsAll (clause "ORDER BY" x.terms fun ts => commaList (ts.map (·.text)))
      (orderPart (x.parts p).terms).tokens := by
  have hlist := Spells.commaList (l := x.terms) fun t ht => WrittenTerm.spells (h.terms t ht)
  unfold parts
  simp only
  generalize x.terms = l at hlist
  refine .clause (fun hnone => by rw [hnone]; rfl) fun hne => ?_
  obtain ⟨t, l, rfl⟩ := List.exists_cons_of_ne_nil hne
  have hclause := spells_by (k := "ORDER") (by decide) hlist
  simpa [orderPart, Function.comp_def] using hclause

theorem Plain.spells_limit (h : x.Plain) :
    SpellsAll (clause "LIMIT" x.limit.toList fun ls => String.join (ls.map (·.sql)))
      (limitPart (x.parts p).limit).tokens := by
  have hl := h.limit
  unfold parts
  simp only
  generalize x.limit = o at hl
  cases o with
  | none => exact ⟨[], .nil, rfl⟩
  | some l =>
    have hjoin : String.join (Option.toList (some l) |>.map (·.sql)) = l.sql := by simp
    exact .clause nofun fun _ => by
      rw [hjoin]
      exact .behind (s := "LIMIT") (by decide) (Sql.spells_limit (hl l rfl))

/-- **The text of a select is cut into its tokens.** -/
theorem Plain.spells (h : x.Plain) (hg : ∀ q ∈ x.nested, SpellsQuery (g q) (p q)) :
    Spells (x.text g) (x.parts p).query.tokens := by
  have hselect : Spells ("SELECT " ++ x.resultText g)
      (bare "SELECT" :: commaTokens ((x.parts p).items.map (·.tokens))) :=
    .behind (s := "SELECT") (by decide) (h.spells_results hg)
  have hfrom : Spells ("FROM " ++ x.fromText g) (fromClausePart (x.parts p).sources).tokens := by
    obtain ⟨s, l, hsources⟩ := List.exists_cons_of_ne_nil (h.sources_ne_nil (p := p))
    have hall := h.spells_sources hg
    rw [hsources] at hall ⊢
    exact .behind (s := "FROM") (by decide) hall
  have hclauses := ((((((SpellsAll.one hselect).append (.one hfrom)).append
    (h.spells_where hg)).append (h.spells_group (p := p))).append (h.spells_having (p := p))).append
      (h.spells_order (p := p))).append (h.spells_limit (p := p))
  obtain ⟨tokens, hall, htokens⟩ := hclauses
  have hquery : (x.parts p).query.tokens = tokens.flatten := by
    rw [htokens]
    simp [SelectParts.query, SelectParts.body]
  rw [hquery]
  exact .intercalate hall

end WrittenSelect

end QueryCanvas.Sql
