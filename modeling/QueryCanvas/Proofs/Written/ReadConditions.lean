import QueryCanvas.Proofs.Data.Numerals
import QueryCanvas.Proofs.Sql.WrittenParameters
import QueryCanvas.Proofs.Written.Normal
import QueryCanvas.Proofs.Written.ReadResults

/-!
# Reading the conditions of a written select

The conditions of a `WHERE` clause are read one after the other, each as a filter.  A filter is
written as its condition was, with the values in lists and ranges printed, if the nested query that
it compares with is found.  Grouping, conditions on groups, sorting and the limit are written as
they were, with the values in conditions on groups printed.
-/

set_option autoImplicit false

namespace QueryCanvas.Sql

section Filters

open Drafting

variable {s : Scope} {lo m n n' : Nat} {d₀ d d' : Draft} {ν : Type} {p : ν → Part Query}
  {t : ν → String}

/-! ## Condition by condition -/

theorem goes_forM_append {γ : Type} {step : γ → Drafting Unit} (l l' : List γ) :
    Goes ((l ++ l').forM step) n d () n' d' ↔
      ∃ n₁ d₁, Goes (l.forM step) n d () n₁ d₁ ∧ Goes (l'.forM step) n₁ d₁ () n' d' := by
  induction l generalizing n d with
  | nil =>
    simp only [List.nil_append, Goes.forM_nil]
    constructor
    · exact fun h => ⟨n, d, ⟨rfl, rfl⟩, h⟩
    · rintro ⟨_, _, ⟨rfl, rfl⟩, h⟩
      exact h
  | cons c l ih =>
    simp only [List.cons_append, Goes.forM_cons, ih]
    constructor
    · rintro ⟨n₁, d₁, hc, n₂, d₂, hl, hl'⟩
      exact ⟨n₂, d₂, ⟨n₁, d₁, hc, hl⟩, hl'⟩
    · rintro ⟨n₂, d₂, ⟨n₁, d₁, hc, hl⟩, hl'⟩
      exact ⟨n₁, d₁, hc, n₂, d₂, hl, hl'⟩

theorem goes_forM_singleton {γ : Type} {step : γ → Drafting Unit} (c : γ) :
    Goes ([c].forM step) n d () n' d' ↔ Goes (step c) n d () n' d' := by
  simp only [Goes.forM_cons, Goes.forM_nil]
  constructor
  · rintro ⟨_, _, hc, rfl, rfl⟩
    exact hc
  · exact fun h => ⟨n', d', h, rfl, rfl⟩

theorem goes_readFilters_alone {last : Connector} {e : Expr}
    (h : e.conditions last = [(e, last)]) : Goes (readFilters s last e) n d () n' d' ↔
      Goes ((e.conditions last).forM fun c => readFilters s c.2 c.1) n d () n' d' := by
  rw [h, goes_forM_singleton]

/-- The conditions of a tree are read from left to right. -/
theorem goes_readFilters : ∀ (last : Connector) (e : Expr) {n n' : Nat} {d d' : Draft},
    Goes (readFilters s last e) n d () n' d' ↔
      Goes ((e.conditions last).forM fun c => readFilters s c.2 c.1) n d () n' d'
  | last, .binary left op right, n, n', d, d' => by
    cases op with
    | and =>
      rw [readFilters, Goes.then_iff, Expr.conditions, goes_forM_append]
      simp only [goes_readFilters _ left, goes_readFilters _ right]
    | or =>
      rw [readFilters, Goes.then_iff, Expr.conditions, goes_forM_append]
      simp only [goes_readFilters _ left, goes_readFilters _ right]
    | compare _ | other _ => exact goes_readFilters_alone rfl
  | _, .like _ _ _ _ _ _, _, _, _, _ | _, .test _ _, _, _, _, _ | _, .inList _ _ _, _, _, _, _
  | _, .inQuery _ _ _, _, _, _, _ | _, .between _ _ _ _, _, _, _, _ | _, .column _, _, _, _, _
  | _, .number _ _, _, _, _, _ | _, .text _, _, _, _, _ | _, .null, _, _, _, _
  | _, .nested _, _, _, _, _ | _, .subquery _, _, _, _, _ | _, .signed _ _, _, _, _, _
  | _, .call _ _ _ _, _, _, _, _ | _, .other _, _, _, _, _ => goes_readFilters_alone rfl

/-! ## A single condition -/

/-- The nested query that is read off a condition. -/
def linkedAt (filterId id : EntityId) (block : Block) : Subquery :=
  { id, role := .whereClause, aliasName := none, linkedFilter := some filterId, frame := default
    block }

/-- The filter, and with it the nested query that it compares with, are read off a condition. -/
inductive FilterRead (t : ν → String) (c : WrittenCondition ν) (k : Connector) :
    Filter → List Subquery → Prop where
  | value {id : EntityId} (h : c.test.nested = []) :
      FilterRead t c k ⟨id, c.column.text, c.test.operator, .value c.test.reread.value, k⟩ []
  | query {filterId id : EntityId} {q : ν} {b : Block} (h : c.test.nested = [q])
      (htext : innerText b = t q) :
      FilterRead t c k ⟨filterId, c.column.text, c.test.operator, .subquery id, k⟩
        [linkedAt filterId id b]

theorem FilterRead.role {c : WrittenCondition ν} {k : Connector} {f : Filter}
    {subs : List Subquery} (h : FilterRead t c k f subs) :
    ∀ sub ∈ subs, sub.role = .whereClause := by
  cases h <;> simp [linkedAt]

theorem FilterRead.connector {c : WrittenCondition ν} {k : Connector} {f : Filter}
    {subs : List Subquery} (h : FilterRead t c k f subs) : f.connector = k := by
  cases h <;> rfl

theorem goes_subject {c : TableColumn} {column : String}
    (h : d.columnText ⟨some c.table, c.column⟩ = column) :
    Goes (readSubject c.part.value) n d column n d := by
  simp only [readSubject, columnName?_part, Goes.bind_iff, Goes.get_iff, Goes.pure_iff]
  exact ⟨_, _, _, ⟨rfl, rfl, rfl⟩, h.symm, rfl, rfl⟩

theorem goes_addFilter {c : TableColumn} {column : String}
    (h : d.columnText ⟨some c.table, c.column⟩ = column) (op : FilterOperator) (value : String)
    (k : Connector) : Goes (addFilter c.part.value op value k) n d () (n + 1)
      (d.filtered [⟨EntityId.minted n, column, op, .value value, k⟩] []) := by
  simp only [addFilter, Goes.bind_iff, Goes.mint_iff, Goes.edit_iff]
  refine ⟨column, _, _, goes_subject h, _, _, _, ⟨rfl, rfl, rfl⟩, rfl, ?_⟩
  unfold Draft.filtered
  rw [List.append_nil]
  rfl

theorem goes_linked {c : TableColumn} {column : String}
    (h : d.columnText ⟨some c.table, c.column⟩ = column) {q : Query} {b : Block} {n₁ : Nat}
    (hq : Gives (readBlock s true q) n b n₁) (op : FilterOperator) (k : Connector) :
    Goes (do
      let column ← readSubject c.part.value
      let block ← readBlock s true q
      addLinkedFilter column op block k) n d () (n₁ + 2)
      (d.filtered [⟨EntityId.minted n₁, column, op, .subquery (EntityId.minted (n₁ + 1)), k⟩]
        [linkedAt (EntityId.minted n₁) (EntityId.minted (n₁ + 1)) b]) := by
  simp only [addLinkedFilter, Goes.bind_iff, Goes.lift_iff, Goes.mint_iff, Goes.edit_iff]
  exact ⟨column, _, _, goes_subject h, b, _, _, ⟨hq, rfl⟩, _, _, _, ⟨rfl, rfl, rfl⟩, _, _, _,
    ⟨rfl, rfl, rfl⟩, rfl, rfl⟩

theorem goes_compare {left right : Expr} {value : String} (h : right.literal = .ok value)
    {op : Comparison} {k : Connector}
    (hadd : Goes (addFilter left op.toFilterOperator value k) n d () n' d') :
    Goes (readFilters s k (.binary left (.compare op) right)) n d () n' d' := by
  cases right with
  | subquery q => cases h
  | _ =>
    simp only [readFilters, filterOperator?, Goes.bind_iff, Goes.ask_iff]
    exact ⟨value, n, d, ⟨h, rfl, rfl⟩, hadd⟩

theorem goes_like {subject pattern : Expr} {value : String} (h : pattern.literal = .ok value)
    {anyCase negated : Bool} {k : Connector}
    (hadd : Goes (addFilter subject (likeOperator anyCase negated) value k) n d () n' d') :
    Goes (readFilters s k (.like anyCase negated false subject pattern none)) n d () n' d' := by
  simp only [readFilters, Option.isSome_none, Bool.false_eq_true, if_false, Goes.bind_iff,
    Goes.ask_iff]
  exact ⟨value, n, d, ⟨h, rfl, rfl⟩, hadd⟩

theorem printed_items (items : List Listed) :
    joined ", " (((items.map (·.part)).map (·.value)).map Expr.printed) =
      commaList ((items.map Listed.reread).map (·.text)) := by
  rw [List.map_map, List.map_map, List.map_map]
  rfl

/-- A condition can be read. -/
theorem goes_writtenCondition {c : WrittenCondition ν}
    (h : d.columnText ⟨some c.column.table, c.column.column⟩ = c.column.text)
    (hread : ∀ q ∈ c.test.nested, NestsAs s (p q).value (t q)) (k : Connector) (n : Nat) :
    ∃ n' f subs, FilterRead t c k f subs ∧
      Goes (readFilters s k (c.part p).value) n d () n' (d.filtered [f] subs) := by
  obtain ⟨column, test⟩ := c
  cases test with
  | compare op v =>
    have hadd := goes_addFilter (n := n) h op.toFilterOperator v.value k
    exact ⟨n + 1, _, _, .value rfl, goes_compare v.literal hadd⟩
  | like anyCase negated v =>
    have hadd := goes_addFilter (n := n) h (likeOperator anyCase negated) v.value k
    exact ⟨n + 1, _, _, .value rfl, goes_like v.literal hadd⟩
  | among negated items hne =>
    have hadd := goes_addFilter (n := n) h (if negated then .notIn else .isIn)
      (commaList ((items.map Listed.reread).map (·.text))) k
    refine ⟨n + 1, ⟨EntityId.minted n, _, _, _, _⟩, _, .value rfl, ?_⟩
    show Goes (addFilter _ _ (joined ", " _) _) _ _ _ _ _
    rw [printed_items]
    exact hadd
  | range negated low high =>
    exact ⟨n + 1, _, _, .value rfl, goes_addFilter h _ _ k⟩
  | plain op hop => exact ⟨n + 1, _, _, .value rfl, goes_addFilter h op "" k⟩
  | compareQuery op q =>
    obtain ⟨b, n₁, hgives, htext⟩ := hread q (by simp [WrittenTest.nested]) n
    exact ⟨n₁ + 2, _, _, .query rfl htext, goes_linked h hgives op.toFilterOperator k⟩
  | amongResults negated q =>
    obtain ⟨b, n₁, hgives, htext⟩ := hread q (by simp [WrittenTest.nested]) n
    exact ⟨n₁ + 2, _, _, .query rfl htext, goes_linked h hgives _ k⟩

/-! ## All conditions -/

/-- All conditions can be read. -/
theorem goes_members {cs : List (WrittenCondition ν × Connector)} : ∀ {d : Draft},
    (∀ c ∈ cs, d.columnText ⟨some c.1.column.table, c.1.column.column⟩ = c.1.column.text) →
    (∀ c ∈ cs, ∀ q ∈ c.1.test.nested, NestsAs s (p q).value (t q)) → ∀ n,
    ∃ n' rs, cs.Forall₂ (fun c (r : Filter × List Subquery) => FilterRead t c.1 c.2 r.1 r.2) rs ∧
      Goes ((cs.map fun c => ((c.1.part p).value, c.2)).forM fun c => readFilters s c.2 c.1) n d ()
        n' (d.filtered (rs.map (·.1)) (rs.flatMap (·.2))) := by
  induction cs with
  | nil =>
    intro d _ _ n
    refine ⟨n, [], .nil, Goes.forM_nil.2 ⟨rfl, ?_⟩⟩
    obtain ⟨⟨⟩, sources, aliases⟩ := d
    simp [Draft.filtered]
  | cons c cs ih =>
    intro d hcolumns hread n
    obtain ⟨hcolumn, hcolumns⟩ := List.forall_mem_cons.1 hcolumns
    obtain ⟨hc, hread⟩ := List.forall_mem_cons.1 hread
    obtain ⟨n₁, f, subs, hf, hfirst⟩ := goes_writtenCondition hcolumn hc c.2 n
    have hsame : d.SameNames (d.filtered [f] subs) := .filtered hf.role
    obtain ⟨n', rs, hrs, hrest⟩ := ih (d := d.filtered [f] subs)
      (fun c hc => (hsame.columnText _).trans (hcolumns c hc)) hread n₁
    refine ⟨n', (f, subs) :: rs, .cons hf hrs, Goes.forM_cons.2 ⟨n₁, _, hfirst, ?_⟩⟩
    rw [List.map_cons, List.flatMap_cons]
    simpa only [Draft.filtered, List.append_assoc, List.singleton_append] using hrest

theorem conditions_test (subject : Part Expr) (test : WrittenTest ν) (k : Connector) :
    (test.part p subject).value.conditions k = [((test.part p subject).value, k)] := by
  cases test <;> rfl

/-- A clause of conditions is read condition by condition; what ties the last one is of no
meaning. -/
theorem conditions_clause {α : Type} (keyword : String) {part : α → Part Expr}
    (hpart : ∀ a k, (part a).value.conditions k = [((part a).value, k)])
    (l : List (α × Connector)) :
    ((conditionsPart keyword (l.map fun c => (part c.1, c.2))).value.map
      (·.conditions .and)).getD [] = (closed l).map fun c => ((part c.1).value, c.2) := by
  have hvalues : memberValues (l.map fun c => (part c.1, c.2)) =
      l.map fun c => ((part c.1).value, c.2) := List.map_map
  cases l with
  | nil => rfl
  | cons c l =>
    show (wholeTree (memberValues ((c :: l).map fun c => (part c.1, c.2)))).conditions .and = _
    rw [conditions_wholeTree (by simp [memberValues]), hvalues]
    · exact (map_closed (fun a => (part a).value) (c :: l)).symm
    · rw [hvalues]
      intro x hx k
      obtain ⟨c, -, rfl⟩ := List.mem_map.1 hx
      exact hpart c.1 k

/-- The conditions that are read. -/
theorem goes_readCondition {cs : List (WrittenCondition ν × Connector)}
    (hcolumns : ∀ c ∈ cs, d.columnText ⟨some c.1.column.table, c.1.column.column⟩ =
      c.1.column.text)
    (hread : ∀ c ∈ cs, ∀ q ∈ c.1.test.nested, NestsAs s (p q).value (t q)) (n : Nat) :
    ∃ n' rs, (closed cs).Forall₂
        (fun c (r : Filter × List Subquery) => FilterRead t c.1 c.2 r.1 r.2) rs ∧
      Goes (readCondition s (conditionsPart "WHERE" (cs.map fun c => (c.1.part p, c.2))).value) n d
        () n' (d.filtered (rs.map (·.1)) (rs.flatMap (·.2))) := by
  obtain ⟨n', rs, hrs, hgoes⟩ := goes_members (p := p)
    (fun c hc => by
      obtain ⟨c', hc', heq⟩ := mem_closed hc
      exact heq ▸ hcolumns c' hc')
    (fun c hc => by
      obtain ⟨c', hc', heq⟩ := mem_closed hc
      exact heq ▸ hread c' hc') n
  refine ⟨n', rs, hrs, ?_⟩
  have hsingle : ∀ (c : WrittenCondition ν) k,
      (c.part p).value.conditions k = [((c.part p).value, k)] :=
    fun c k => conditions_test c.column.part c.test k
  have hclause := conditions_clause "WHERE" hsingle cs
  cases cs with
  | nil => exact hgoes
  | cons c cs =>
    rw [← hclause] at hgoes
    exact (goes_readFilters .and _).2 hgoes

/-! ## Filters as they are written -/

/-- A filter with a value is written as the condition with that value printed. -/
theorem filterText_of_nested_nil (id : EntityId) (k : Connector) {c : WrittenCondition ν}
    (h : c.test.nested = []) (nested : List (SubqueryOf String)) (g : ν → String) :
    filterText nested ⟨id, c.column.text, c.test.operator, .value c.test.reread.value, k⟩ =
      c.reread.text g := by
  have hlinked : Filter.linked?
      ⟨id, c.column.text, c.test.operator, .value c.test.reread.value, k⟩ nested = none := by
    unfold Filter.linked?
    split <;> rfl
  rw [filterText_unlinked hlinked]
  obtain ⟨column, test⟩ := c
  cases test with
  | compare op v => cases op <;> rfl
  | like anyCase negated v => cases anyCase <;> cases negated <;> rfl
  | among negated items hne => cases negated <;> rfl
  | range negated low high => cases negated <;> rfl
  | plain op hop =>
    show _ ++ (if op.isUnary then "" else _) = _
    rw [if_pos hop]
    rfl
  | compareQuery op q => cases h
  | amongResults negated q => cases h

variable {b : Block}

/-- A filter is written as its condition, if the block has the nested query that it compares
with. -/
theorem FilterRead.filterText_eq {c : WrittenCondition ν} {k : Connector} {f : Filter}
    {subs : List Subquery} (h : FilterRead t c k f subs)
    (hids : (b.subqueries.map (·.id)).Nodup) (hsubs : ∀ sub ∈ subs, sub ∈ b.subqueries) :
    filterText (nestedTexts b fun c => bracketed (innerText c)) f =
      c.reread.text fun q => bracketed (t q) := by
  cases h with
  | value h => exact filterText_of_nested_nil _ k h _ _
  | @query filterId id q block h htext =>
    have hfound : b.subqueries.find? (·.id = id) = some (linkedAt filterId id block) :=
      find?_of_nodup hids (hsubs _ (List.mem_singleton_self _))
    obtain ⟨hunary, htested⟩ : c.test.operator.isUnary = false ∧
        ∀ g : ν → String, c.test.reread.operand g = " " ++ g q := by
      obtain ⟨column, test⟩ := c
      cases test <;> cases h
      · rename_i op
        exact ⟨by cases op <;> rfl, fun g => rfl⟩
      · rename_i negated
        exact ⟨by cases negated <;> rfl, fun g => rfl⟩
    have hlinked : Filter.linked? ⟨filterId, c.column.text, c.test.operator, .subquery id, k⟩
        b.subqueries = some (linkedAt filterId id block) := by
      rw [Filter.linked?, if_neg (by simp [hunary])]
      exact hfound
    rw [filterText_linked (s := { linkedAt filterId id block with
      block := bracketed (innerText block) }) (by rw [nestedTexts, linked?_map, hlinked]; rfl)]
    have hoperator : c.test.reread.operator = c.test.operator := by cases c.test <;> rfl
    show _ = c.column.text ++ " " ++ c.test.reread.operator.sql ++ c.test.reread.operand _
    rw [htested, hoperator, ← String.append_assoc, ← htext]

end Filters

section Clauses

open Drafting

variable {s : Scope} {n n' : Nat} {d d' : Draft}

/-- What names stand for at this point: columns and calls of plain names are taken as written. -/
structure Draft.AsWritten (d : Draft) : Prop where
  column : ∀ c : TableColumn, c.Plain → d.columnText ⟨some c.table, c.column⟩ = c.text
  call : ∀ (f : AggregateFunction) (a : Aggregated), (∀ c ∈ a, c.Plain) →
    d.aggregate? [.bare f.sql] (.list none [a.part.value] []) .none = .ok (some (f, a.text))

theorem Draft.AsWritten.of_same (h : d.AsWritten) (hsame : d.SameNames d') : d'.AsWritten :=
  ⟨fun c hc => (hsame.columnText _).trans (h.column c hc),
    fun f a ha => (hsame.aggregate _ _ _).trans (h.call f a ha)⟩

theorem Draft.Entered.asWritten {lo m : Nat} (h : d.Entered s lo m) (hs : s.Lower) :
    d.AsWritten :=
  ⟨fun _ hc => h.columnText hs hc,
    fun f _ ha => (Draft.SameNames.refl d).aggregate_plain h hs f ha⟩

/-- A list of which each member adds one thing to the block. -/
theorem goes_each {γ ω : Type} (step : γ → Drafting Unit) (extend : Draft → List ω → Draft)
    {R : γ → ω → Prop} (hnil : ∀ d, extend d [] = d)
    (happend : ∀ d o os, extend (extend d [o]) os = extend d (o :: os))
    (hsame : ∀ (d : Draft) (os : List ω), d.SameNames (extend d os)) {l : List γ} :
    (∀ c ∈ l, ∀ n d, d.AsWritten → ∃ n' o, R c o ∧ Goes (step c) n d () n' (extend d [o])) →
      ∀ n d, d.AsWritten → ∃ n' os, l.Forall₂ R os ∧
        Goes (l.forM step) n d () n' (extend d os) := by
  induction l with
  | nil =>
    intro _ n d _
    exact ⟨n, [], .nil, Goes.forM_nil.2 ⟨rfl, hnil d⟩⟩
  | cons c l ih =>
    intro hstep n d hd
    obtain ⟨hc, hl⟩ := List.forall_mem_cons.1 hstep
    obtain ⟨n₁, o, ho, hfirst⟩ := hc n d hd
    obtain ⟨n', os, hos, hrest⟩ := ih hl n₁ _ (hd.of_same (hsame d [o]))
    rw [happend] at hrest
    exact ⟨n', o :: os, .cons ho hos, Goes.forM_cons.2 ⟨n₁, _, hfirst, hrest⟩⟩

/-! ## Grouping -/

def Draft.grouped (d : Draft) (gs : List Grouping) : Draft :=
  { d with block := { d.block with groupBy := d.block.groupBy ++ gs } }

/-- One column under `GROUP BY` is read. -/
def readGroupingColumn (c : TableColumn) : Drafting Unit := do
  match c.part.value.columnName? with
  | none => refuse "GROUP BY expression"
  | some c =>
    let column := (← get).columnText c
    let id ← mint
    edit (·.addGrouping { id, column })

theorem goes_readGrouping {cs : List TableColumn} (hcs : ∀ c ∈ cs, c.Plain) (n : Nat)
    (hd : d.AsWritten) : ∃ n' gs, cs.Forall₂ (fun c (g : Grouping) => g.column = c.text) gs ∧
      Goes (readGrouping false (cs.map (·.part.value)) []) n d () n' (d.grouped gs) := by
  have heach := goes_each readGroupingColumn
    Draft.grouped (R := fun c (g : Grouping) => g.column = c.text)
    (fun d => by obtain ⟨⟨⟩, sources, aliases⟩ := d; simp [Draft.grouped])
    (fun d g gs => by simp [Draft.grouped]) (fun d gs => .kept rfl rfl) (l := cs)
    (fun c hc n d hd => by
      refine ⟨n + 1, ⟨EntityId.minted n, c.text⟩, rfl, ?_⟩
      simp only [readGroupingColumn, columnName?_part, Goes.bind_iff, Goes.get_iff, Goes.mint_iff,
        Goes.edit_iff]
      refine ⟨_, _, _, ⟨rfl, rfl, rfl⟩, _, _, _, ⟨rfl, rfl, rfl⟩, rfl, ?_⟩
      rw [hd.column c (hcs c hc)]
      rfl) n d hd
  obtain ⟨n', gs, hgs, hgoes⟩ := heach
  refine ⟨n', gs, hgs, ?_⟩
  show Goes ((cs.map (·.part.value)).forM _) n d () n' (d.grouped gs)
  rw [forM_map]
  exact hgoes

/-! ## Conditions on groups -/

def Draft.having (d : Draft) (ks : List Having) : Draft :=
  { d with block := { d.block with having := d.block.having ++ ks } }

/-- The condition on groups is written as the written one with its value printed. -/
def HavingRead (h : WrittenHaving × Connector) (k : Having) : Prop :=
  havingText k = h.1.reread.text ∧ k.connector = h.2

theorem goes_having {h : WrittenHaving} (hh : ∀ c ∈ h.argument, c.Plain) (k : Connector) (n : Nat)
    (hd : d.AsWritten) : ∃ n' o, HavingRead (h, k) o ∧
      Goes (readHaving k h.part.value) n d () n' (d.having [o]) := by
  refine ⟨n + 1, ⟨EntityId.minted n, h.function, h.argument.text, h.operator,
    h.value.part.value.printed, k⟩, ⟨rfl, rfl⟩, ?_⟩
  have hcall := hd.call h.function h.argument hh
  simp only [WrittenHaving.part, comparePart, callPart, readHaving, Goes.bind_iff, Goes.ask_iff]
  refine ⟨_, _, _, ⟨hcall, rfl, rfl⟩, ?_⟩
  simp only [Goes.bind_iff, Goes.mint_iff, Goes.edit_iff]
  exact ⟨_, _, _, ⟨rfl, rfl, rfl⟩, rfl, rfl⟩

theorem goes_readHavings {hs : List (WrittenHaving × Connector)}
    (hhs : ∀ h ∈ hs, ∀ c ∈ h.1.argument, c.Plain) (n : Nat) (hd : d.AsWritten) :
    ∃ n' ks, (closed hs).Forall₂ HavingRead ks ∧
      Goes (readHavings (conditionsPart "HAVING" (hs.map fun h => (h.1.part, h.2))).value) n d ()
        n' (d.having ks) := by
  obtain ⟨n', ks, hks, hgoes⟩ := goes_each
    (fun h : WrittenHaving × Connector => readHaving h.2 h.1.part.value) Draft.having
    (R := HavingRead)
    (fun d => by obtain ⟨⟨⟩, sources, aliases⟩ := d; simp [Draft.having])
    (fun d k ks => by simp [Draft.having]) (fun d ks => .kept rfl rfl) (l := closed hs)
    (fun h hh n d hd => by
      obtain ⟨h', hh', heq⟩ := mem_closed hh
      exact goes_having (heq ▸ hhs h' hh') h.2 n hd) n d hd
  refine ⟨n', ks, hks, ?_⟩
  rw [readHavings, conditions_clause "HAVING" (fun h k => rfl), forM_map]
  exact hgoes

/-! ## Sorting -/

def Draft.sorting (d : Draft) (os : List SortTerm) : Draft :=
  { d with block := { d.block with orderBy := d.block.orderBy ++ os } }

/-- The term is written as the written one. -/
def TermRead (t : WrittenTerm) (o : SortTerm) : Prop :=
  o.column ++ " " ++ o.direction.sql = t.text

theorem goes_readSorting {ts : List WrittenTerm} (hts : ∀ t ∈ ts, t.column.Plain) (n : Nat)
    (hd : d.AsWritten) : ∃ n' os, ts.Forall₂ TermRead os ∧
      Goes (readSorting (orderPart (ts.map (·.part))).value) n d () n' (d.sorting os) := by
  obtain ⟨n', os, hos, hgoes⟩ := goes_each
    (fun t : WrittenTerm => readSortTerm t.part.value) Draft.sorting (R := TermRead)
    (fun d => by obtain ⟨⟨⟩, sources, aliases⟩ := d; simp [Draft.sorting])
    (fun d o os => by simp [Draft.sorting]) (fun d os => .kept rfl rfl) (l := ts)
    (fun t ht n d hd => by
      refine ⟨n + 1, ⟨EntityId.minted n, t.column.text, t.direction⟩, rfl, ?_⟩
      have hsort : sortColumn t.column.part.value d = .ok t.column.text :=
        congrArg Except.ok (hd.column t.column (hts t ht))
      have hdirection : (if some (decide (t.direction = .desc)) = some true then SortDirection.desc
          else .asc) = t.direction := by
        cases t.direction <;> rfl
      simp only [WrittenTerm.part, termPart, readSortTerm, Option.isSome_none, Bool.false_eq_true,
        if_false, Goes.bind_iff, Goes.ask_iff, Goes.mint_iff, Goes.edit_iff]
      refine ⟨_, _, _, ⟨hsort, rfl, rfl⟩, _, _, _, ⟨rfl, rfl, rfl⟩, rfl, ?_⟩
      rw [hdirection]
      rfl) n d hd
  refine ⟨n', os, hos, ?_⟩
  have hvalue : (orderPart (ts.map (·.part))).value.getD [] = ts.map (·.part.value) := by
    cases ts with
    | nil => rfl
    | cons t ts =>
      show ((t :: ts).map (·.part)).map (·.value) = _
      exact List.map_map
  rw [readSorting, hvalue, forM_map]
  exact hgoes

/-! ## Limit -/

theorem limit_limitExpr {l : Limit} (h : l.Readable) : (limitExpr l).value.limit = .ok l := by
  cases l with
  | count n =>
    have hdigits : (toString n).toList = Nat.toDigits 10 n := by
      rw [Nat.toString_eq_repr, Nat.toList_repr]
    have hvalue : Decimal.digitsValue (Nat.toDigits 10 n) = n := by
      rw [Json.digitsValue_eq_ofDigitChars, Nat.ofDigitChars_ten_toDigits]
    have hall : (Nat.toDigits 10 n).all Char.isDigit :=
      List.all_eq_true.2 fun c hc => Nat.isDigit_of_mem_toDigits (by decide) (by decide) hc
    have hne : (Nat.toDigits 10 n).isEmpty = false := by
      simp [Nat.toDigits_ne_nil]
    have hsmall : n < UInt64.size := h
    simp only [limitExpr, Expr.limit, hdigits, hvalue, hall, hne, hsmall, Bool.not_false,
      Bool.true_and, decide_true, if_true]
  | parameter text =>
    have hparameter : Parameter.isParameter text := h
    simp only [limitExpr, Expr.limit, hparameter, if_true]

theorem goes_readLimit {l : Option Limit} (hl : ∀ l' ∈ l, l'.Readable)
    (hnone : d.block.limit = none) :
    Goes (readLimit (limitPart (l.map limitExpr)).value) n d () n
      { d with block := { d.block with limit := l } } := by
  cases l with
  | none =>
    refine Goes.pure_iff.2 ⟨rfl, rfl, ?_⟩
    obtain ⟨⟨⟩, sources, aliases⟩ := d
    rw [← hnone]
  | some l =>
    simp only [Option.map_some, limitPart, readLimit, Goes.bind_iff, Goes.ask_iff, Goes.edit_iff]
    exact ⟨l, _, _, ⟨limit_limitExpr (hl l rfl), rfl, rfl⟩, rfl, rfl⟩

end Clauses

end QueryCanvas.Sql
