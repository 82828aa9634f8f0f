import Mathlib.Data.List.Forall2
import QueryCanvas.Proofs.Canvas.Anchored
import QueryCanvas.Proofs.Reading.Names

/-!
# What a block depicts

What is read off the clauses of a select is told here clause by clause: each filter, grouping,
condition on groups, term of sorting and aggregate depicts one part of the query, in the same order.
Columns are written as the names are resolved right behind the `FROM` clause.
-/

set_option autoImplicit false

namespace QueryCanvas

open Sql

/-! ## Parts of a block and parts of a query -/

/-- The filter is on the column that the expression is. -/
def Filter.On (d : Draft) (f : Filter) (subject : Expr) : Prop :=
  ∃ c, subject.columnName? = some c ∧ f.column = d.columnText c

/-- The operator of a test with a pattern. -/
def likeOperator (anyCase negated : Bool) : FilterOperator :=
  match anyCase, negated with
  | false, false => .like
  | false, true => .notLike
  | true, false => .ilike
  | true, true => .notIlike

/-- The filter depicts a condition, which it leads on with the connector behind it.  Single values
are literals; lists and ranges are printed as they stand. -/
def Filter.Depicts (d : Draft) (f : Filter) : Expr → Prop
  | .binary left op (.subquery _) =>
    f.On d left ∧ filterOperator? op = some f.operator ∧ ∃ id, f.operand = .subquery id
  | .binary left op right =>
    f.On d left ∧ filterOperator? op = some f.operator ∧
      ∃ value, right.literal = .ok value ∧ f.operand = .value value
  | .like anyCase negated _ subject pattern _ =>
    f.On d subject ∧ f.operator = likeOperator anyCase negated ∧
      ∃ value, pattern.literal = .ok value ∧ f.operand = .value value
  | .test subject operator => f.On d subject ∧ f.operator = operator ∧ f.operand = .value ""
  | .inList subject negated items =>
    f.On d subject ∧ f.operator = (if negated then .notIn else .isIn) ∧
      f.operand = .value (joined ", " (items.map Expr.printed))
  | .inQuery subject negated _ =>
    f.On d subject ∧ f.operator = (if negated then .notIn else .isIn) ∧
      ∃ id, f.operand = .subquery id
  | .between subject negated low high =>
    f.On d subject ∧ f.operator = (if negated then .notBetween else .between) ∧
      f.operand = .value (low.printed ++ " AND " ++ high.printed)
  | _ => False

/-- The grouping is by the column that the expression is. -/
def Grouping.Depicts (d : Draft) (g : Grouping) (e : Expr) : Prop :=
  ∃ c, e.columnName? = some c ∧ g.column = d.columnText c

/-- The condition on groups compares an aggregate with what is printed. -/
def Having.Depicts (d : Draft) (h : Having) : Expr → Prop
  | .binary (.call function _ arguments tail) (.compare operator) right =>
    d.aggregate? function arguments tail = .ok (some (h.function, h.column)) ∧
      h.operator = operator ∧ h.value = right.printed
  | _ => False

/-- The term sorts by a column, by an aggregate or by one of the aliases of results. -/
def SortTerm.Depicts (d : Draft) (aliases : List String) (o : SortTerm) : OrderTerm → Prop
  | .mk e descending _ _ =>
    sortColumn e { d with aliases } = .ok o.column ∧
      o.direction = if descending = some true then .desc else .asc

/-- The columns that a table declares. -/
def Sql.Draft.columnsOf (d : Draft) (table : EntityId) : List String :=
  ((d.block.table? table).map (·.columns)).getD []

/-! ### Names that refer to the same -/

section OfSame

variable {d d' : Draft}

theorem Filter.On.of_same {f : Filter} {subject : Expr} (hsame : d.SameNames d')
    (h : f.On d' subject) : f.On d subject := by
  obtain ⟨c, hc, hcolumn⟩ := h
  exact ⟨c, hc, hcolumn.trans (hsame.columnText c)⟩

theorem Filter.Depicts.of_same {f : Filter} (hsame : d.SameNames d') :
    ∀ {e : Expr}, f.Depicts d' e → f.Depicts d e
  | .binary _ _ right, h => by
    cases right <;> exact ⟨.of_same hsame h.1, h.2⟩
  | .like _ _ _ _ _ _, h => ⟨.of_same hsame h.1, h.2⟩
  | .test _ _, h => ⟨.of_same hsame h.1, h.2⟩
  | .inList _ _ _, h => ⟨.of_same hsame h.1, h.2⟩
  | .inQuery _ _ _, h => ⟨.of_same hsame h.1, h.2⟩
  | .between _ _ _ _, h => ⟨.of_same hsame h.1, h.2⟩

theorem Grouping.Depicts.of_same {g : Grouping} {e : Expr} (hsame : d.SameNames d')
    (h : g.Depicts d' e) : g.Depicts d e := by
  obtain ⟨c, hc, hcolumn⟩ := h
  exact ⟨c, hc, hcolumn.trans (hsame.columnText c)⟩

theorem Having.Depicts.of_same {k : Having} (hsame : d.SameNames d') :
    ∀ {e : Expr}, k.Depicts d' e → k.Depicts d e
  | .binary (.call _ _ _ _) (.compare _) _, ⟨hcall, hrest⟩ =>
    ⟨(hsame.aggregate _ _ _).symm.trans hcall, hrest⟩

theorem SortTerm.Depicts.of_same {o : SortTerm} {aliases : List String} (hsame : d.SameNames d') :
    ∀ {t : OrderTerm}, o.Depicts d' aliases t → o.Depicts d aliases t
  | .mk e _ _ _, ⟨hcolumn, hdirection⟩ => by
    have hsame : Draft.SameNames { d with aliases } { d' with aliases } :=
      ⟨hsame.sources, hsame.tables, hsame.derived⟩
    exact ⟨(hsame.sortColumn rfl e).symm.trans hcolumn, hdirection⟩

end OfSame

/-! ### Results -/

/-- What a list of results chooses of tables, in order, and the aggregates that depict the calls in
it. -/
inductive ResultsDepicted (d : Draft) :
    List SelectItem → List (EntityId × List String) → List SelectAggregate → Prop where
  | nil : ResultsDepicted d [] [] []
  /-- A lone star chooses nothing. -/
  | star {options : String} : ResultsDepicted d [.wildcard options] [] []
  | column {parts : List Name} {c : ColumnName} {id : EntityId} {rest : List SelectItem}
      {choices : List (EntityId × List String)} {aggregates : List SelectAggregate}
      (hc : (Expr.column parts).columnName? = some c) (hid : selectionOwner c d = .ok id)
      (hrest : ResultsDepicted d rest choices aggregates) :
      ResultsDepicted d (.expr (.column parts) none :: rest)
        ((id, [d.declared id c.column]) :: choices) aggregates
  | all {table : List Name} {options key name : String} {id : EntityId} {rest : List SelectItem}
      {choices : List (EntityId × List String)} {aggregates : List SelectAggregate}
      (hid : d.source? (plainPath table) = some ⟨key, some (id, name)⟩)
      (hrest : ResultsDepicted d rest choices aggregates) :
      ResultsDepicted d (.tableWildcard table options :: rest) ((id, d.columnsOf id) :: choices)
        aggregates
  | aggregate {function : List Name} {parameters : String} {arguments : Arguments}
      {tail : CallTail} {named : Option Name} {a : SelectAggregate} {rest : List SelectItem}
      {choices : List (EntityId × List String)} {aggregates : List SelectAggregate}
      (ha : d.aggregate? function arguments tail = .ok (some (a.function, a.expression)))
      (halias : a.aliasName = named.map (·.value))
      (hrest : ResultsDepicted d rest choices aggregates) :
      ResultsDepicted d (.expr (.call function parameters arguments tail) named :: rest) choices
        (a :: aggregates)
  | scalar {q : Query} {named : Option Name} {rest : List SelectItem}
      {choices : List (EntityId × List String)} {aggregates : List SelectAggregate}
      (hrest : ResultsDepicted d rest choices aggregates) :
      ResultsDepicted d (.expr (.subquery q) named :: rest) choices aggregates

/-- The nested query that a condition compares with. -/
def Sql.Expr.nestedQuery? : Expr → Option Query
  | .binary _ _ (.subquery q) => some q
  | .inQuery _ _ q => some q
  | _ => none

/-- The nested query that is a result. -/
def Sql.SelectItem.nestedQuery? : SelectItem → Option Query
  | .expr (.subquery q) _ => some q
  | _ => none

/-- The block of the nested query is read off the query. -/
def ReadOff (s : Scope) (q : Query) (sub : Subquery) : Prop :=
  ∃ n n', Gives (readBlock s true q) n sub.block n'

/-- The aliases of the results. -/
def resultAliases (items : List SelectItem) : List String :=
  items.flatMap fun item => match item with
    | .expr _ named => (named.map (·.value)).toList
    | _ => []

/-- Chooses columns of a table. -/
def choose (tables : List Table) (choice : EntityId × List String) : List Table :=
  updateFirst (·.id = choice.1) (fun t => choice.2.foldl Table.select t) tables

/-- A block but for what the `FROM` clause adds to it. -/
def Block.besideFrom (b : Block) : Block := { b with tables := [], joins := [], subqueries := [] }

namespace Sql

/-- The clauses of a select from which something is drawn. -/
structure Clauses where
  items : List SelectItem
  sources : List FromPart
  condition : Option Expr
  groupBy : List Expr
  having : Option Expr
  orderBy : Option (List OrderTerm)
  limit : Option Expr

namespace Clauses

/-- The conditions on rows, each with the connector behind it. -/
def conditions (q : Clauses) : List (Expr × Connector) :=
  (q.condition.map (·.conditions .and)).getD []

/-- The conditions on groups, each with the connector behind it. -/
def havings (q : Clauses) : List (Expr × Connector) :=
  (q.having.map (·.conditions .and)).getD []

/-- The nested queries among the results and in the conditions. -/
def laterQueries (q : Clauses) : List Query :=
  q.items.filterMap SelectItem.nestedQuery? ++ q.conditions.filterMap (·.1.nestedQuery?)

/-- The block depicts the clauses.  Tables and joins are those that were there behind the `FROM`
clause, and the results choose columns of these tables.  The further nested queries are those of the
results and of the conditions. -/
structure Depicted (s : Scope) (q : Clauses) (d : Draft) (b : Block) : Prop where
  joins : b.joins = d.block.joins
  results : ∃ choices, ResultsDepicted d q.items choices b.aggregates ∧
    b.tables = choices.foldl choose d.block.tables
  filters : q.conditions.Forall₂ (fun e f => f.Depicts d e.1 ∧ f.connector = e.2) b.filters
  groupBy : q.groupBy.Forall₂ (fun e g => g.Depicts d e) b.groupBy
  having : q.havings.Forall₂ (fun e h => h.Depicts d e.1 ∧ h.connector = e.2) b.having
  orderBy : (q.orderBy.getD []).Forall₂ (fun t o => o.Depicts d (resultAliases q.items) t) b.orderBy
  limit : b.limit = q.limit.bind fun e => e.limit.toOption
  subqueries : ∃ subs, q.laterQueries.Forall₂ (ReadOff s) subs ∧
    b.subqueries = d.block.subqueries ++ subs

end Clauses

/-! ## Lists that are added to -/

/-- Each member of a list adds one thing to the block; what it adds does not depend on what was
added before. -/
theorem Goes.forM_extend {γ ω : Type} {step : γ → Drafting Unit} (R : Draft → γ → ω → Prop)
    (extend : Block → List ω → Block) (hnil : ∀ b, extend b [] = b)
    (happend : ∀ b os os', extend (extend b os) os' = extend b (os ++ os'))
    (hsame : ∀ d os c o, R { d with block := extend d.block os } c o → R d c o)
    (hstep : ∀ {c n d n' d'}, Goes (step c) n d () n' d' →
      ∃ o, R d c o ∧ d' = { d with block := extend d.block [o] }) {l : List γ} :
    ∀ {n d n' d'}, Goes (l.forM step) n d () n' d' →
      ∃ os, l.Forall₂ (R d) os ∧ d' = { d with block := extend d.block os } := by
  induction l with
  | nil =>
    intro n d n' d' h
    obtain ⟨-, rfl⟩ := Goes.forM_nil.1 h
    exact ⟨[], .nil, by rw [hnil]⟩
  | cons c l ih =>
    intro n d n' d' h
    obtain ⟨n₁, d₁, hc, hl⟩ := Goes.forM_cons.1 h
    obtain ⟨o, ho, rfl⟩ := hstep hc
    obtain ⟨os, hos, rfl⟩ := ih hl
    refine ⟨o :: os, .cons ho (hos.imp fun c o => hsame d [_] c o), ?_⟩
    rw [happend]
    rfl

variable {d d' : Draft} {n n' : Nat}

/-- A change of the block that leaves its tables alone and adds no nested queries to the `FROM`
clause. -/
theorem Draft.SameNames.edit {b : Block} (htables : b.tables = d.block.tables)
    (hsubs : b.subqueriesIn .fromClause = d.block.subqueriesIn .fromClause) :
    d.SameNames { d with block := b } :=
  ⟨rfl, by rw [htables], hsubs⟩

/-- A change of the block that leaves tables and nested queries alone. -/
theorem Draft.SameNames.kept {b : Block} (htables : b.tables = d.block.tables)
    (hsubs : b.subqueries = d.block.subqueries) : d.SameNames { d with block := b } :=
  .edit htables (by rw [Block.subqueriesIn, Block.subqueriesIn, hsubs])

theorem readGrouping_depicts {all : Bool} {terms : List Expr} {modifiers : List String}
    (h : Goes (readGrouping all terms modifiers) n d () n' d') :
    ∃ gs, terms.Forall₂ (fun e g => g.Depicts d e) gs ∧
      d' = { d with block := { d.block with groupBy := d.block.groupBy ++ gs } } := by
  simp only [readGrouping, Goes.guard_iff] at h
  refine Goes.forM_extend (fun d e g => g.Depicts d e)
    (fun b gs => { b with groupBy := b.groupBy ++ gs }) (fun b => by cases b; simp)
    (fun b gs gs' => by simp) ?_ ?_ h.2.2
  · intro d gs e g hg
    refine Grouping.Depicts.of_same ?_ hg
    exact .kept rfl rfl
  · intro e n d n' d' hstep
    cases hc : e.columnName? with
    | none => simp [hc] at hstep
    | some c =>
      simp only [hc, Goes.bind_iff, Goes.get_iff, Goes.mint_iff, Goes.edit_iff] at hstep
      obtain ⟨_, _, _, ⟨rfl, rfl, rfl⟩, id, _, _, ⟨-, -, rfl⟩, -, rfl⟩ := hstep
      exact ⟨_, ⟨c, hc, rfl⟩, rfl⟩

theorem readHaving_depicts {connector : Connector} {e : Expr}
    (h : Goes (readHaving connector e) n d () n' d') :
    ∃ k : Having, k.Depicts d e ∧ k.connector = connector ∧
      d' = { d with block := { d.block with having := d.block.having ++ [k] } } := by
  unfold readHaving at h
  split at h
  · rename_i left op right
    split at h
    · rename_i operator
      split at h
      · rename_i function parameters arguments tail
        obtain ⟨called, n₁, d₁, hask, hadd⟩ := Goes.bind_iff.1 h
        obtain ⟨hcalled, rfl, rfl⟩ := Goes.ask_iff.1 hask
        cases called with
        | none => exact absurd hadd Goes.refuse_iff
        | some call =>
          simp only [Goes.bind_iff, Goes.mint_iff, Goes.edit_iff] at hadd
          obtain ⟨_, _, _, ⟨-, -, rfl⟩, -, rfl⟩ := hadd
          exact ⟨_, ⟨hcalled, rfl, rfl⟩, rfl, rfl⟩
      · exact absurd h Goes.refuse_iff
    · exact absurd h Goes.refuse_iff
  · exact absurd h Goes.refuse_iff

theorem readHavings_depicts {having : Option Expr} (h : Goes (readHavings having) n d () n' d') :
    ∃ ks : List Having, ((having.map (·.conditions .and)).getD []).Forall₂
        (fun e k => k.Depicts d e.1 ∧ k.connector = e.2) ks ∧
      d' = { d with block := { d.block with having := d.block.having ++ ks } } := by
  refine Goes.forM_extend (fun d e k => k.Depicts d e.1 ∧ k.connector = e.2)
    (fun b ks => { b with having := b.having ++ ks }) (fun b => by cases b; simp)
    (fun b ks ks' => by simp) ?_ ?_ h
  · rintro d ks e k ⟨hk, hconnector⟩
    refine ⟨Having.Depicts.of_same ?_ hk, hconnector⟩
    exact .kept rfl rfl
  · intro e n d n' d' hstep
    obtain ⟨k, hk, hconnector, hd⟩ := readHaving_depicts hstep
    exact ⟨k, ⟨hk, hconnector⟩, hd⟩

theorem readSorting_depicts {orderBy : Option (List OrderTerm)}
    (h : Goes (readSorting orderBy) n d () n' d') :
    ∃ os, (orderBy.getD []).Forall₂ (fun t o => o.Depicts d d.aliases t) os ∧
      d' = { d with block := { d.block with orderBy := d.block.orderBy ++ os } } := by
  refine Goes.forM_extend (fun d t o => o.Depicts d d.aliases t)
    (fun b os => { b with orderBy := b.orderBy ++ os }) (fun b => by cases b; simp)
    (fun b os os' => by simp) ?_ ?_ h
  · intro d os t o ho
    refine SortTerm.Depicts.of_same ?_ ho
    exact .kept rfl rfl
  · rintro ⟨e, descending, nullsFirst, marks⟩ n d n' d' hstep
    simp only [readSortTerm, Goes.guard_iff, Goes.bind_iff, Goes.ask_iff, Goes.mint_iff,
      Goes.edit_iff] at hstep
    obtain ⟨-, column, _, _, ⟨hcolumn, rfl, rfl⟩, _, _, _, ⟨-, -, rfl⟩, -, rfl⟩ := hstep
    exact ⟨_, ⟨hcolumn, rfl⟩, rfl⟩

theorem readLimit_depicts {limit : Option Expr} (h : Goes (readLimit limit) n d () n' d') :
    ∃ l, d' = { d with block := { d.block with limit := l } } ∧
      (l = limit.bind (·.limit.toOption) ∨ limit = none ∧ l = d.block.limit) := by
  cases limit with
  | none =>
    obtain ⟨-, -, rfl⟩ := Goes.pure_iff.1 h
    obtain ⟨⟨⟩, sources, aliases⟩ := d'
    exact ⟨_, rfl, .inr ⟨rfl, rfl⟩⟩
  | some e =>
    simp only [readLimit, Goes.bind_iff, Goes.ask_iff, Goes.edit_iff] at h
    obtain ⟨value, _, _, ⟨hvalue, -, rfl⟩, -, rfl⟩ := h
    refine ⟨some value, rfl, .inl ?_⟩
    rw [Option.bind_some, hvalue]
    rfl

/-! ## Conditions -/

/-- Filters are added, and with them nested queries that filters compare with. -/
def Draft.filtered (d : Draft) (fs : List Filter) (subs : List Subquery) : Draft :=
  { d with block := { d.block with
      filters := d.block.filters ++ fs, subqueries := d.block.subqueries ++ subs } }

theorem Draft.SameNames.filtered {fs : List Filter} {subs : List Subquery}
    (hrole : ∀ s ∈ subs, s.role = .whereClause) : d.SameNames (d.filtered fs subs) := by
  refine .edit rfl ?_
  have hnone : subs.filter (·.role = .fromClause) = [] :=
    List.filter_eq_nil_iff.2 fun s hs => by simp [hrole s hs]
  show (d.block.subqueries ++ subs).filter _ = _
  rw [List.filter_append, hnone, List.append_nil]
  rfl

theorem goes_readSubject {subject : Expr} {column : String}
    (h : Goes (readSubject subject) n d column n' d') :
    ∃ c, subject.columnName? = some c ∧ column = d.columnText c ∧ n' = n ∧ d' = d := by
  unfold readSubject at h
  split at h
  · rename_i c hc
    simp only [Goes.bind_iff, Goes.get_iff, Goes.pure_iff] at h
    obtain ⟨_, _, _, ⟨rfl, rfl, rfl⟩, rfl, rfl, rfl⟩ := h
    exact ⟨c, hc, rfl, rfl, rfl⟩
  · exact absurd h Goes.refuse_iff

theorem addFilter_depicts {subject : Expr} {operator : FilterOperator} {value : String}
    {connector : Connector} (h : Goes (addFilter subject operator value connector) n d () n' d') :
    ∃ f : Filter, f.On d subject ∧ f.operator = operator ∧ f.operand = .value value ∧
      f.connector = connector ∧ d' = d.filtered [f] [] := by
  simp only [addFilter, Goes.bind_iff, Goes.mint_iff, Goes.edit_iff] at h
  obtain ⟨column, _, _, hsubject, id, _, _, ⟨-, -, rfl⟩, -, rfl⟩ := h
  obtain ⟨c, hc, rfl, -, rfl⟩ := goes_readSubject hsubject
  refine ⟨{ id, column := _, operator, operand := .value value, connector }, ⟨c, hc, rfl⟩, rfl, rfl,
    rfl, ?_⟩
  unfold Draft.filtered
  rw [List.append_nil]
  rfl

theorem addLinkedFilter_depicts {column : String} {operator : FilterOperator} {b : Block}
    {connector : Connector}
    (h : Goes (addLinkedFilter column operator b connector) n d () n' d') :
    ∃ filterId id : EntityId,
      d' = d.filtered [{ id := filterId, column, operator, operand := .subquery id, connector }]
        [{ id, role := .whereClause, aliasName := none, linkedFilter := some filterId
           frame := default, block := b }] := by
  simp only [addLinkedFilter, Goes.bind_iff, Goes.mint_iff, Goes.edit_iff] at h
  obtain ⟨filterId, _, _, ⟨-, -, rfl⟩, id, _, _, ⟨-, -, rfl⟩, -, rfl⟩ := h
  exact ⟨filterId, id, rfl⟩

/-- What reading a condition leads to. -/
def ConditionDepicted (s : Scope) (d : Draft) (conditions : List (Expr × Connector)) (d' : Draft) :
    Prop :=
  ∃ fs subs, conditions.Forall₂ (fun e (f : Filter) => f.Depicts d e.1 ∧ f.connector = e.2) fs ∧
    (conditions.filterMap (·.1.nestedQuery?)).Forall₂ (ReadOff s) subs ∧
    (∀ sub ∈ subs, sub.role = .whereClause) ∧ d' = d.filtered fs subs

variable {s : Scope}

/-- Two lists of conditions, one after the other. -/
theorem ConditionDepicted.append {d₁ : Draft} {left right : List (Expr × Connector)}
    (hleft : ConditionDepicted s d left d₁) (hright : ConditionDepicted s d₁ right d') :
    ConditionDepicted s d (left ++ right) d' := by
  obtain ⟨fs, subs, hfs, hsubs, hrole, rfl⟩ := hleft
  obtain ⟨fs', subs', hfs', hsubs', hrole', rfl⟩ := hright
  have hsame : d.SameNames (d.filtered fs subs) := .filtered hrole
  refine ⟨fs ++ fs', subs ++ subs', ?_, ?_, fun sub hsub => ?_, ?_⟩
  · exact List.rel_append hfs (hfs'.imp fun e f h => ⟨Filter.Depicts.of_same hsame h.1, h.2⟩)
  · rw [List.filterMap_append]
    exact List.rel_append hsubs hsubs'
  · exact (List.mem_append.1 hsub).elim (hrole sub) (hrole' sub)
  · simp only [Draft.filtered, List.append_assoc]

/-- A single condition with a written value. -/
theorem ConditionDepicted.value {e subject : Expr} {operator : FilterOperator} {value : String}
    {last : Connector} (h : Goes (addFilter subject operator value last) n d () n' d')
    (hquery : e.nestedQuery? = none)
    (hdepicts : ∀ f : Filter, f.On d subject → f.operator = operator →
      f.operand = .value value → f.Depicts d e) : ConditionDepicted s d [(e, last)] d' := by
  obtain ⟨f, hon, hoperator, hoperand, hconnector, hd⟩ := addFilter_depicts h
  exact ⟨[f], [], .cons ⟨hdepicts f hon hoperator hoperand, hconnector⟩ .nil, by simp [hquery],
    by simp, hd⟩

/-- A single condition with a nested query. -/
theorem ConditionDepicted.query {e subject : Expr} {operator : FilterOperator} {q : Query}
    {last : Connector}
    (h : Goes (do
      let column ← readSubject subject
      let block ← readBlock s true q
      addLinkedFilter column operator block last) n d () n' d')
    (hquery : e.nestedQuery? = some q)
    (hdepicts : ∀ f : Filter, f.On d subject → f.operator = operator →
      (∃ id, f.operand = .subquery id) → f.Depicts d e) : ConditionDepicted s d [(e, last)] d' := by
  simp only [Goes.bind_iff, Goes.lift_iff] at h
  obtain ⟨column, _, _, hsubject, b, _, _, ⟨hread, rfl⟩, hlinked⟩ := h
  obtain ⟨c, hc, rfl, -, rfl⟩ := goes_readSubject hsubject
  obtain ⟨filterId, id, hd⟩ := addLinkedFilter_depicts hlinked
  refine ⟨_, _, .cons ⟨hdepicts _ ⟨c, hc, rfl⟩ rfl ⟨id, rfl⟩, rfl⟩ .nil, ?_, by simp, hd⟩
  have hone : [(e, last)].filterMap (·.1.nestedQuery?) = [q] := by simp [hquery]
  rw [hone]
  exact .cons ⟨_, _, hread⟩ .nil

theorem readFilters_depicts (s : Scope) : ∀ (last : Connector) (e : Expr) {n n' : Nat}
    {d d' : Draft}, Goes (readFilters s last e) n d () n' d' →
      ConditionDepicted s d (e.conditions last) d'
  | last, .binary left op right, n, n', d, d', h => by
    cases op with
    | and =>
      obtain ⟨_, _, hleft, hright⟩ := Goes.then_iff.1 h
      exact (readFilters_depicts s .and left hleft).append (readFilters_depicts s last right hright)
    | or =>
      obtain ⟨_, _, hleft, hright⟩ := Goes.then_iff.1 h
      exact (readFilters_depicts s .or left hleft).append (readFilters_depicts s last right hright)
    | compare c =>
      cases right with
      | subquery q =>
        exact .query h rfl fun f hon hoperator hoperand =>
          ⟨hon, congrArg some hoperator.symm, hoperand⟩
      | _ =>
        simp only [readFilters, filterOperator?, Goes.bind_iff, Goes.ask_iff] at h
        obtain ⟨value, _, _, ⟨hvalue, rfl, rfl⟩, hadd⟩ := h
        exact .value hadd rfl fun f hon hoperator hoperand =>
          ⟨hon, congrArg some hoperator.symm, value, hvalue, hoperand⟩
    | other text => cases right <;> exact absurd h Goes.refuse_iff
  | last, .like anyCase negated any subject pattern escape, _, _, _, _, h => by
    simp only [readFilters, Goes.guard_iff, Goes.bind_iff, Goes.ask_iff] at h
    obtain ⟨-, value, _, _, ⟨hvalue, rfl, rfl⟩, hadd⟩ := h
    exact .value hadd rfl fun f hon hoperator hoperand => ⟨hon, hoperator, value, hvalue, hoperand⟩
  | last, .test subject operator, _, _, _, _, h =>
    .value h rfl fun _ hon hoperator hoperand => ⟨hon, hoperator, hoperand⟩
  | last, .inList subject negated items, _, _, _, _, h =>
    .value h rfl fun _ hon hoperator hoperand => ⟨hon, hoperator, hoperand⟩
  | last, .inQuery subject negated q, _, _, _, _, h =>
    .query h rfl fun _ hon hoperator hoperand => ⟨hon, hoperator, hoperand⟩
  | last, .between subject negated low high, _, _, _, _, h =>
    .value h rfl fun _ hon hoperator hoperand => ⟨hon, hoperator, hoperand⟩
  | _, .column _, _, _, _, _, h | _, .number _ _, _, _, _, _, h | _, .text _, _, _, _, _, h
  | _, .null, _, _, _, _, h | _, .nested _, _, _, _, _, h | _, .subquery _, _, _, _, _, h
  | _, .signed _ _, _, _, _, _, h | _, .call _ _ _ _, _, _, _, _, h
  | _, .other _, _, _, _, _, h => absurd h Goes.refuse_iff

theorem readCondition_depicts {condition : Option Expr}
    (h : Goes (readCondition s condition) n d () n' d') :
    ConditionDepicted s d ((condition.map (·.conditions .and)).getD []) d' := by
  cases condition with
  | none =>
    obtain ⟨-, -, rfl⟩ := Goes.pure_iff.1 h
    refine ⟨[], [], .nil, .nil, by simp, ?_⟩
    obtain ⟨⟨⟩, sources, aliases⟩ := d'
    simp [Draft.filtered]
  | some e => exact readFilters_depicts s .and e h

/-! ## Results -/

theorem unchosen_foldl_select (columns : List String) (t : Table) :
    (columns.foldl Table.select t).unchosen = t.unchosen := by
  induction columns generalizing t with
  | nil => rfl
  | cons column rest ih =>
    rw [List.foldl_cons, ih]
    unfold Table.select
    split <;> rfl

/-- Choosing columns leaves everything else about the tables alone. -/
theorem unchosen_foldl_choose (choices : List (EntityId × List String)) (tables : List Table) :
    (choices.foldl choose tables).map Table.unchosen = tables.map Table.unchosen := by
  induction choices generalizing tables with
  | nil => rfl
  | cons choice rest ih =>
    rw [List.foldl_cons, ih, choose, map_updateFirst (unchosen_foldl_select choice.2)]

/-- Columns are chosen, aggregates and nested queries are added, and aliases of results noted. -/
def Draft.resulted (d : Draft) (choices : List (EntityId × List String))
    (aggregates : List SelectAggregate) (subs : List Subquery) (aliases : List String) : Draft :=
  { sources := d.sources
    aliases := d.aliases ++ aliases
    block := { d.block with
      tables := choices.foldl choose d.block.tables
      aggregates := d.block.aggregates ++ aggregates
      subqueries := d.block.subqueries ++ subs } }

theorem Draft.SameNames.resulted {choices : List (EntityId × List String)}
    {aggregates : List SelectAggregate} {subs : List Subquery} {aliases : List String}
    (hrole : ∀ s ∈ subs, s.role = .selectList) :
    d.SameNames (d.resulted choices aggregates subs aliases) := by
  refine ⟨rfl, unchosen_foldl_choose choices d.block.tables, ?_⟩
  have hnone : subs.filter (·.role = .fromClause) = [] :=
    List.filter_eq_nil_iff.2 fun s hs => by simp [hrole s hs]
  show (d.block.subqueries ++ subs).filter _ = _
  rw [List.filter_append, hnone, List.append_nil]
  rfl

theorem Draft.SameNames.columnsOf (h : d.SameNames d') (id : EntityId) :
    d'.columnsOf id = d.columnsOf id := by
  have hcolumns : ∀ t : Option Table, t.map (·.columns) =
      (t.map Table.unchosen).map (·.columns) := by
    rintro (_ | t) <;> rfl
  rw [Draft.columnsOf, Draft.columnsOf, hcolumns, h.table, ← hcolumns]

/-- What reading a single result leads to. -/
structure ItemDepicted (s : Scope) (d d₁ : Draft) (item : SelectItem)
    (choices : List (EntityId × List String)) (aggregates : List SelectAggregate)
    (subs : List Subquery) (d₂ : Draft) : Prop where
  depicts : ∀ rest choices' aggregates', ResultsDepicted d rest choices' aggregates' →
    ResultsDepicted d (item :: rest) (choices ++ choices') (aggregates ++ aggregates')
  nested : item.nestedQuery?.toList.Forall₂ (ReadOff s) subs
  role : ∀ sub ∈ subs, sub.role = .selectList
  leads : d₂ = d₁.resulted choices aggregates subs (resultAliases [item])

theorem readColumn_depicts {d₁ d₂ : Draft} (hsame : d.SameNames d₁) {parts : List Name}
    {named : Option Name} (h : Goes (readColumn (.column parts) named) n d₁ () n' d₂) :
    ∃ choices, ItemDepicted s d d₁ (.expr (.column parts) named) choices [] [] d₂ := by
  simp only [readColumn, Goes.guard_iff] at h
  obtain ⟨hnamed, h⟩ := h
  have hnone : named = none := by simpa using hnamed
  subst hnone
  cases hc : (Expr.column parts).columnName? with
  | none => simp [hc] at h
  | some c =>
    simp only [hc, Goes.bind_iff, Goes.ask_iff, Goes.get_iff, Goes.edit_iff] at h
    obtain ⟨id, _, _, ⟨hid, rfl, rfl⟩, _, _, _, ⟨rfl, rfl, rfl⟩, -, rfl⟩ := h
    rw [hsame.selectionOwner] at hid
    refine ⟨[(id, [d.declared id c.column])], fun rest choices' aggregates' hrest => ?_, .nil,
      by simp, ?_⟩
    · exact .column hc hid hrest
    · simp [Draft.resulted, resultAliases, choose, Block.updateTable, hsame.declared]

theorem readAllColumns_depicts {d₁ d₂ : Draft} (hsame : d.SameNames d₁) {table : List Name}
    (options : String) (h : Goes (readAllColumns table) n d₁ () n' d₂) :
    ∃ choices, ItemDepicted s d d₁ (.tableWildcard table options) choices [] [] d₂ := by
  obtain ⟨_, _, _, hget, hfound⟩ := Goes.bind_iff.1 h
  obtain ⟨rfl, rfl, rfl⟩ := Goes.get_iff.1 hget
  split at hfound
  · rename_i key id name hsource
    simp only [Goes.bind_iff, Goes.get_iff] at hfound
    obtain ⟨_, _, _, ⟨rfl, rfl, rfl⟩, hchosen⟩ := hfound
    simp only [Goes.guard_iff, Goes.edit_iff] at hchosen
    obtain ⟨-, -, rfl⟩ := hchosen
    rw [hsame.source] at hsource
    refine ⟨[(id, d.columnsOf id)], fun rest choices' aggregates' hrest => ?_, .nil, by simp, ?_⟩
    · exact .all hsource hrest
    · have hcolumns := hsame.columnsOf id
      rw [Draft.columnsOf] at hcolumns
      simp [Draft.resulted, resultAliases, choose, Block.updateTable, hcolumns]
  · exact absurd hfound Goes.refuse_iff
  · exact absurd hfound Goes.refuse_iff

theorem readItem_depicts {d₁ d₂ : Draft} (hsame : d.SameNames d₁) {e : Expr}
    {named : Option Name} (h : Goes (readItem s e named) n d₁ () n' d₂) :
    ∃ choices aggregates subs, ItemDepicted s d d₁ (.expr e named) choices aggregates subs d₂ := by
  cases e with
  | column parts =>
    obtain ⟨choices, hitem⟩ := readColumn_depicts hsame h
    exact ⟨choices, [], [], hitem⟩
  | call function parameters arguments tail =>
    obtain ⟨called, _, _, hask, h⟩ := Goes.bind_iff.1 h
    obtain ⟨hcalled, rfl, rfl⟩ := Goes.ask_iff.1 hask
    cases called with
    | none => exact absurd h Goes.refuse_iff
    | some call =>
      simp only [noteAlias, Goes.bind_iff, Goes.modify_iff, Goes.mint_iff, Goes.edit_iff] at h
      obtain ⟨_, _, _, ⟨rfl, rfl⟩, id, _, _, ⟨-, rfl, rfl⟩, -, rfl⟩ := h
      rw [hsame.aggregate] at hcalled
      refine ⟨[], [{ id, function := call.1, expression := call.2
                     aliasName := named.map (·.value) }], [], ?_, .nil, by simp, ?_⟩
      · exact fun rest choices' aggregates' hrest => .aggregate hcalled rfl hrest
      · simp [Draft.resulted, resultAliases, Block.addAggregate]
  | subquery q =>
    simp only [readItem, noteAlias, Goes.bind_iff, Goes.lift_iff, Goes.modify_iff, Goes.mint_iff,
      Goes.edit_iff] at h
    obtain ⟨b, _, _, ⟨hread, rfl⟩, id, _, _, ⟨-, rfl, rfl⟩, _, _, _, ⟨rfl, rfl⟩, -, rfl⟩ := h
    refine ⟨[], [], [{ id, role := .selectList, aliasName := named.map (·.value)
                       linkedFilter := none, frame := default, block := b }], ?_, ?_, by simp, ?_⟩
    · exact fun rest choices' aggregates' hrest => .scalar hrest
    · exact .cons ⟨_, _, hread⟩ .nil
    · simp [Draft.resulted, resultAliases]
  | _ => exact absurd h Goes.refuse_iff

theorem readItems_depicts (items : List SelectItem) : ∀ {n n' : Nat} {d₁ d₂ : Draft},
    d.SameNames d₁ → Goes (readItems s items) n d₁ () n' d₂ →
      ∃ choices aggregates subs, ResultsDepicted d items choices aggregates ∧
        (items.filterMap SelectItem.nestedQuery?).Forall₂ (ReadOff s) subs ∧
        (∀ sub ∈ subs, sub.role = .selectList) ∧
        d₂ = d₁.resulted choices aggregates subs (resultAliases items) := by
  induction items with
  | nil =>
    intro n n' d₁ d₂ _ h
    obtain ⟨-, -, rfl⟩ := Goes.pure_iff.1 h
    refine ⟨[], [], [], .nil, .nil, by simp, ?_⟩
    obtain ⟨⟨⟩, sources, aliases⟩ := d₂
    simp [Draft.resulted, resultAliases]
  | cons item rest ih =>
    intro n n' d₁ d₂ hsame h
    have hstep : ∃ n₂ d₃ choices aggregates subs,
        ItemDepicted s d d₁ item choices aggregates subs d₃ ∧
          Goes (readItems s rest) n₂ d₃ () n' d₂ := by
      cases item with
      | wildcard options => exact absurd h Goes.refuse_iff
      | tableWildcard table options =>
        obtain ⟨n₂, d₃, hitem, hrest⟩ := Goes.then_iff.1 h
        obtain ⟨choices, hitem⟩ := readAllColumns_depicts hsame options hitem
        exact ⟨n₂, d₃, choices, [], [], hitem, hrest⟩
      | expr e named =>
        obtain ⟨n₂, d₃, hitem, hrest⟩ := goes_readItems_expr.1 h
        obtain ⟨choices, aggregates, subs, hitem⟩ := readItem_depicts hsame hitem
        exact ⟨n₂, d₃, choices, aggregates, subs, hitem, hrest⟩
    obtain ⟨n₂, d₃, choices, aggregates, subs, ⟨hdepicts, hnested, hrole, rfl⟩, hrest⟩ := hstep
    obtain ⟨choices', aggregates', subs', hdepicts', hnested', hrole', rfl⟩ :=
      ih (hsame.trans (.resulted hrole)) hrest
    refine ⟨choices ++ choices', aggregates ++ aggregates', subs ++ subs',
      hdepicts rest choices' aggregates' hdepicts', ?_, fun sub hsub => ?_, ?_⟩
    · have happend := List.rel_append hnested hnested'
      cases hquery : item.nestedQuery? with
      | none =>
        rw [List.filterMap_cons_none hquery]
        simpa [hquery] using happend
      | some q =>
        rw [List.filterMap_cons_some hquery]
        simpa [hquery] using happend
    · exact (List.mem_append.1 hsub).elim (hrole sub) (hrole' sub)
    · simp [Draft.resulted, resultAliases, List.foldl_append]

theorem readResults_depicts {items : List SelectItem}
    (h : Goes (readResults s items) n d () n' d') :
    ∃ choices aggregates subs, ResultsDepicted d items choices aggregates ∧
      (items.filterMap SelectItem.nestedQuery?).Forall₂ (ReadOff s) subs ∧
      (∀ sub ∈ subs, sub.role = .selectList) ∧
      d' = d.resulted choices aggregates subs (resultAliases items) := by
  rcases goes_readResults.1 h with ⟨⟨options, rfl⟩, -, rfl⟩ | h
  · refine ⟨[], [], [], .star, .nil, by simp, ?_⟩
    obtain ⟨⟨⟩, sources, aliases⟩ := d'
    simp [Draft.resulted, resultAliases]
  · exact readItems_depicts items (.refl d) h

/-! ## All clauses behind the `FROM` clause -/

/-- What is read behind the `FROM` clause of a select depicts its clauses, if nothing but tables,
joins and nested queries was there before. -/
theorem readSelect_depicted {q : Clauses} {sx : SelectExtras}
    (h : Goes (readSelect s q.items q.sources q.condition q.groupBy q.having sx q.orderBy q.limit)
      n Draft.empty () n' d')
    (hfrom : ∀ {n₁ d₁}, Goes (readSources s q.sources) n Draft.empty () n₁ d₁ →
      d₁.aliases = [] ∧ d₁.block.besideFrom = Block.empty) :
    ∃ n₁ d₁, Goes (readSources s q.sources) n Draft.empty () n₁ d₁ ∧ q.Depicted s d₁ d'.block := by
  obtain ⟨-, n₁, d, hsources, n₂, d₂, hresults, n₃, d₃, hcondition, n₄, d₄, hgrouping, n₅, d₅,
    hhaving, n₆, d₆, hsorting, hlimit⟩ := goes_readSelect.1 h
  refine ⟨n₁, d, hsources, ?_⟩
  obtain ⟨haliases, hbeside⟩ := hfrom hsources
  obtain ⟨choices, aggregates, subs, hchosen, hitems, hrole, hd₂⟩ := readResults_depicts hresults
  have hsame₂ : d.SameNames d₂ := hd₂ ▸ .resulted hrole
  obtain ⟨fs, subs', hfs, hconditions, hrole', hd₃⟩ := readCondition_depicts hcondition
  have hsame₃ : d.SameNames d₃ := hsame₂.trans (hd₃ ▸ .filtered hrole')
  obtain ⟨gs, hgs, hd₄⟩ := readGrouping_depicts hgrouping
  have hsame₄ : d.SameNames d₄ := hsame₃.trans (by rw [hd₄]; exact .kept rfl rfl)
  obtain ⟨ks, hks, hd₅⟩ := readHavings_depicts hhaving
  have hsame₅ : d.SameNames d₅ := hsame₄.trans (by rw [hd₅]; exact .kept rfl rfl)
  obtain ⟨os, hos, hd₆⟩ := readSorting_depicts hsorting
  obtain ⟨l, hd', hl⟩ := readLimit_depicts hlimit
  have hnoted : d₅.aliases = resultAliases q.items := by
    rw [hd₅, hd₄, hd₃, hd₂]
    exact (congrArg (· ++ _) haliases).trans (List.nil_append _)
  have hblock : d'.block = { d.block with
      tables := choices.foldl choose d.block.tables
      filters := d.block.filters ++ fs
      groupBy := d.block.groupBy ++ gs
      having := d.block.having ++ ks
      orderBy := d.block.orderBy ++ os
      limit := l
      aggregates := d.block.aggregates ++ aggregates
      subqueries := d.block.subqueries ++ subs ++ subs' } := by
    rw [hd', hd₆, hd₅, hd₄, hd₃, hd₂]
    rfl
  have hfilters : d.block.filters = [] := congrArg Block.filters hbeside
  have hgroupBy : d.block.groupBy = [] := congrArg Block.groupBy hbeside
  have hhavings : d.block.having = [] := congrArg Block.having hbeside
  have horderBy : d.block.orderBy = [] := congrArg Block.orderBy hbeside
  have haggregates : d.block.aggregates = [] := congrArg Block.aggregates hbeside
  have hnolimit : d₆.block.limit = none := by
    rw [hd₆, hd₅, hd₄, hd₃, hd₂]
    exact congrArg Block.limit hbeside
  rw [hblock, hfilters, hgroupBy, hhavings, horderBy, haggregates]
  refine ⟨rfl, ⟨choices, hchosen, rfl⟩, ?_, ?_, ?_, ?_, ?_, ?_⟩
  · exact hfs.imp fun e f hf => ⟨.of_same hsame₂ hf.1, hf.2⟩
  · exact hgs.imp fun e g hg => .of_same hsame₃ hg
  · exact hks.imp fun e k hk => ⟨.of_same hsame₄ hk.1, hk.2⟩
  · rw [hnoted] at hos
    exact hos.imp fun t o ho => .of_same hsame₅ ho
  · rcases hl with rfl | ⟨hnone, rfl⟩
    · rfl
    · rw [hnone]
      exact hnolimit
  · exact ⟨subs ++ subs', List.rel_append hitems hconditions, List.append_assoc _ _ _⟩

end Sql

end QueryCanvas
