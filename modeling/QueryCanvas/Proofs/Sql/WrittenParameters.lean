import QueryCanvas.Proofs.Canvas.Tree
import QueryCanvas.Proofs.Reading.Pieces
import QueryCanvas.Proofs.Sql.Parameters
import QueryCanvas.Sql.Render

/-!
# The parameters in the query of a canvas

Names are written so that no parameter stands in them, and all other texts of a block are written as
they are, with the exception of the values of comparisons.  So the parameters in the query of a
canvas are those in the texts of its blocks, if these texts are complete, every block reads from
something, and every nested query is written somewhere.
-/

set_option autoImplicit false

namespace QueryCanvas

open Sql Parameter

/-! ## Where parameters can stand -/

instance (o : FilterOperator) : Decidable o.TakesValue := inferInstanceAs (Decidable (_ ∧ _ ∧ _))

/-- The value of a filter that is written as a literal. -/
def Filter.literal? (f : Filter) : Option String :=
  if f.operator.TakesValue then f.operand.value? else none

/-- The parameter that stands for a limit. -/
def Limit.parameter? : Limit → Option String
  | .count _ => none
  | .parameter text => some text

/-- The values and limits of a block that are parameters. -/
def Block.parameters (b : Block) : List String :=
  (b.filters.filterMap Filter.literal?).filter isParameter
    ++ (b.limit.bind Limit.parameter?).toList

/-- The names of the parameters of a block. -/
def Block.shown (b : Block) : Set String := shownAmong (b.texts ++ b.parameters)

/-- The names of the parameters that stand in a filter itself. -/
def Filter.shown (f : Filter) : Set String :=
  {name | (∃ text ∈ f.texts, name ∈ Parameter.shown text) ∨
    ∃ value, f.literal? = some value ∧ isParameter value ∧ name ∈ Parameter.shown value}

/-- The nested query with which a filter is written. -/
def Filter.linked? {β : Type} (f : Filter) (nested : List (SubqueryOf β)) : Option (SubqueryOf β) :=
  if f.operator.isUnary then none
  else f.operand.subquery?.bind fun id => nested.find? (·.id = id)

/-- A block of which everything is written: it reads from something or is empty, its texts are
complete, its limit is a parameter if it is no number, and its nested queries in the `WHERE` clause
belong to filters. -/
structure Block.Legible (b : Block) : Prop where
  source : b.hasNoSource → b = Block.empty
  complete : ∀ text ∈ b.texts, Complete text
  limit : ∀ text, b.limit = some (.parameter text) → isParameter text
  placed : ∀ s ∈ b.subqueries, s.role = .whereClause →
    ∃ f ∈ b.filters, f.linked? b.subqueries = some s

namespace Block.Legible

variable {b : Block} (h : b.Legible)
include h

theorem filter {f : Filter} (hf : f ∈ b.filters) : ∀ text ∈ f.texts, Complete text := by
  refine fun text ht => h.complete text ?_
  simp only [texts, List.mem_append, List.mem_flatMap]
  exact .inl (.inl (.inl (.inl ⟨f, hf, ht⟩)))

theorem grouping {g : Grouping} (hg : g ∈ b.groupBy) : Complete g.column :=
  h.complete _ (by simp [texts, List.mem_map_of_mem hg])

theorem having {k : Having} (hk : k ∈ b.having) : Complete k.column ∧ Complete k.value := by
  have hmem : ∀ text ∈ [k.column, k.value], text ∈ b.texts := by
    intro text ht
    simp only [texts, List.mem_append, List.mem_flatMap]
    exact .inl (.inl (.inr ⟨k, hk, ht⟩))
  exact ⟨h.complete _ (hmem _ (by simp)), h.complete _ (hmem _ (by simp))⟩

theorem sorting {o : SortTerm} (ho : o ∈ b.orderBy) : Complete o.column :=
  h.complete _ (by simp [texts, List.mem_map_of_mem ho])

theorem aggregate {a : SelectAggregate} (ha : a ∈ b.aggregates) : Complete a.expression :=
  h.complete _ (by simp [texts, List.mem_map_of_mem ha])

end Block.Legible

namespace Sql

/-! ## Clauses -/

variable {x : String} {S : Set String}

theorem shows_aliased (h : Shows x S) (aliasName : Option String) :
    Shows (aliased x aliasName) S := by
  cases aliasName with
  | none => exact h
  | some name => exact h.silent " AS " rfl (by decide) (shows_quoteName name)

theorem shows_call (h : Shows x S) (function : AggregateFunction) : Shows (call function x) S := by
  have hopen : isPlainText (function.sql ++ "(") := by cases function <;> decide
  exact (h.after hopen).before rfl

theorem shows_tableText (name : String) : Shows (tableText name) ∅ := by
  unfold tableText
  split
  · exact .empty
  · exact shows_quotePath name

theorem shows_endpoint (table column : String) : Shows (endpoint table column) ∅ :=
  (shows_tableText table).silent "." rfl (by decide) (shows_quoteName column)

theorem shows_joinCondition (b : Block) (j : Join) : Shows (joinCondition b j) ∅ :=
  (shows_endpoint (b.tableName j.sourceTable) j.sourceColumn).silent " = " rfl (by decide)
    (shows_endpoint (b.tableName j.targetTable) j.targetColumn)

theorem shows_joinStep (b : Block) (s : JoinStep) : Shows (joinStep b s) ∅ := by
  have hkeyword : isPlainText (s.kind.keyword ++ " ") := by cases s.kind <;> decide
  have hconditions := ShowsAll.silent (l := s.conditions) fun j _ => shows_joinCondition b j
  exact ((shows_tableText _).after hkeyword).silent " ON " rfl (by decide)
    (hconditions.intercalate " AND " rfl (by decide))

theorem shows_fromItem (b : Block) (item : FromItem) : Shows (fromItem .compact b item) ∅ :=
  (shows_quotePath item.base.name).join " " rfl (by decide) (shows_joinStep b) item.steps

theorem shows_chosenColumns (t : Table) : ShowsAll (chosenColumns t) ∅ := by
  refine .silent fun column _ => ?_
  dsimp only
  split
  · exact shows_aliased (shows_call (shows_columnRef t.name column) _) _
  · exact shows_columnRef t.name column

variable {nested : List (SubqueryOf String)}

/-- The names of the parameters in nested queries of one role. -/
def shownIn (nested : List (SubqueryOf String)) (role : SubqueryRole) : Set String :=
  {name | ∃ s ∈ nested, s.role = role ∧ name ∈ shown s.block}

theorem shows_nestedItems (h : ∀ s ∈ nested, Complete s.block) (role : SubqueryRole) :
    ShowsAll (nestedItems nested role) (shownIn nested role) := by
  have hall := ShowsAll.map (l := nested.filter (·.role = role)) fun s hs =>
    shows_aliased (h s (List.mem_filter.1 hs).1).shows s.aliasName
  have hshown : (⋃ s ∈ nested.filter (·.role = role), shown s.block) = shownIn nested role := by
    ext name
    simp [shownIn, and_assoc]
  rwa [hshown] at hall

theorem shows_selectList {b : Block} (hexpressions : ∀ a ∈ b.aggregates, Complete a.expression)
    (h : ∀ s ∈ nested, Complete s.block) :
    Shows (selectList b nested)
      ((⋃ a ∈ b.aggregates, shown a.expression) ∪ shownIn nested .selectList) := by
  have hcolumns := ShowsAll.flatMap (l := b.tables) fun t _ => shows_chosenColumns t
  simp only [Set.iUnion_empty] at hcolumns
  have haggregates := ShowsAll.map (l := b.aggregates) fun a ha =>
    shows_aliased (shows_call (hexpressions a ha).shows a.function) a.aliasName
  have hitems := (hcolumns.append haggregates).append (shows_nestedItems h .selectList)
  rw [Set.empty_union] at hitems
  unfold selectList
  dsimp only
  split
  · rename_i hempty
    rw [List.isEmpty_iff.1 hempty] at hitems
    rw [hitems.eq_empty]
    exact Complete.shows_nothing (by decide +kernel) (by decide +kernel)
  · exact hitems.intercalate ", " rfl (by decide)

theorem shows_fromClause (b : Block) (h : ∀ s ∈ nested, Complete s.block) :
    Shows (fromClause .compact b nested) (shownIn nested .fromClause) := by
  have hitems := (ShowsAll.silent (l := fromItems b) fun item _ => shows_fromItem b item).append
    (shows_nestedItems h .fromClause)
  rw [Set.empty_union] at hitems
  exact hitems.intercalate ", " rfl (by decide)

/-! ## Conditions -/

theorem plain_operator (o : FilterOperator) : isPlainText (" " ++ o.sql) := by
  cases o <;> decide

theorem single_of_isUnary {o : FilterOperator} (h : o.isUnary) :
    (o.isList || o.isRange) = false ∧ ¬o.TakesValue := by
  refine ⟨?_, fun hvalue => by rw [hvalue.1] at h; cases h⟩
  revert h
  cases o <;> decide

theorem filterText_linked {f : Filter} {s : SubqueryOf String} (h : f.linked? nested = some s) :
    filterText nested f = f.column ++ " " ++ f.operator.sql ++ " " ++ s.block := by
  unfold Filter.linked? at h
  split at h
  · cases h
  · rename_i hunary
    simp only [filterText, hunary, h, Bool.false_eq_true, if_false]

/-- A filter without a nested query is written with its value, as it is or as a literal. -/
theorem filterText_unlinked {f : Filter} (h : f.linked? nested = none) :
    filterText nested f = f.column ++ " " ++ f.operator.sql ++
      if f.operator.isUnary then ""
      else if f.operator.isList then " (" ++ f.operand.value?.getD "" ++ ")"
      else if f.operator.isRange then " " ++ f.operand.value?.getD ""
      else " " ++ formatValue (f.operand.value?.getD "") := by
  unfold Filter.linked? at h
  unfold filterText
  split at h
  · rename_i hunary
    simp [hunary]
  · rename_i hunary
    simp only [hunary, h, if_false, Bool.false_eq_true]
    split
    · simp [String.append_assoc]
    · split <;> simp [String.append_assoc]

/-- What stands in a filter: its column, and its value as it is or as a literal. -/
theorem shown_filter (f : Filter) :
    f.shown = shown f.column ∪
      if f.operator.isList || f.operator.isRange then
        {name | ∃ v ∈ f.operand.value?, name ∈ shown v}
      else if f.operator.isUnary then ∅
      else {name | ∃ v ∈ f.operand.value?, isParameter v ∧ name ∈ shown v} := by
  ext name
  by_cases hmany : f.operator.isList || f.operator.isRange
  · have hvalue : ¬f.operator.TakesValue := fun h => by rw [h.single] at hmany; cases hmany
    simp [Filter.shown, Filter.texts, Filter.literal?, hmany, hvalue]
  · by_cases hunary : f.operator.isUnary
    · have hvalue := (single_of_isUnary hunary).2
      simp [Filter.shown, Filter.texts, Filter.literal?, hmany, hunary, hvalue]
    · have hvalue : f.operator.TakesValue := by
        simp only [Bool.or_eq_true, not_or, Bool.not_eq_true] at hmany hunary
        exact ⟨hunary, hmany⟩
      simp [Filter.shown, Filter.texts, Filter.literal?, hmany, hunary, hvalue]

/-- The value of a list or a range, which is written as it is. -/
theorem shows_keptValue {f : Filter} (h : ∀ text ∈ f.texts, Complete text)
    (hmany : f.operator.isList || f.operator.isRange) :
    Shows (f.operand.value?.getD "") {name | ∃ v ∈ f.operand.value?, name ∈ shown v} := by
  cases hoperand : f.operand.value? with
  | none => simpa using Shows.empty
  | some v =>
    have hv : v ∈ f.texts := by simp [Filter.texts, hmany, hoperand]
    simpa using (h v hv).shows

theorem shows_literalValue (o : Operand) : Shows (formatValue (o.value?.getD ""))
    {name | ∃ v ∈ o.value?, isParameter v ∧ name ∈ shown v} := by
  cases o.value? with
  | none => simpa [isParameter, at?] using shows_formatValue ""
  | some v => simpa using shows_formatValue v

/-- A filter without a nested query. -/
theorem shows_filterText_unlinked {f : Filter} (h : ∀ text ∈ f.texts, Complete text)
    (hlinked : f.linked? nested = none) : Shows (filterText nested f) f.shown := by
  have hsubject : Shows (f.column ++ " " ++ f.operator.sql) (shown f.column) := by
    rw [String.append_assoc]
    exact (h f.column List.mem_cons_self).shows.before (plain_operator f.operator)
  rw [shown_filter, filterText_unlinked hlinked]
  by_cases hmany : f.operator.isList || f.operator.isRange
  · have hunary : f.operator.isUnary = false := by
      rw [Bool.eq_false_iff]
      intro hunary
      rw [(single_of_isUnary hunary).1] at hmany
      cases hmany
    have hvalue := shows_keptValue h hmany
    rw [if_pos hmany, if_neg (by simp [hunary])]
    split
    · have hall := (hsubject.separated " (" rfl (by decide) hvalue).before (y := ")") rfl
      simpa only [String.append_assoc] using hall
    · rename_i hlist
      have hrange : f.operator.isRange := by simpa [hlist] using hmany
      rw [if_pos hrange, ← String.append_assoc]
      exact hsubject.separated " " rfl (by decide) hvalue
  · rw [if_neg hmany]
    simp only [Bool.or_eq_true, not_or, Bool.not_eq_true] at hmany
    split
    · rwa [Set.union_empty, String.append_empty]
    · rw [hmany.1, hmany.2, if_neg Bool.false_ne_true, if_neg Bool.false_ne_true,
        ← String.append_assoc]
      exact hsubject.separated " " rfl (by decide) (shows_literalValue f.operand)

theorem shows_filterText {f : Filter} (h : ∀ text ∈ f.texts, Complete text)
    (hnested : ∀ s ∈ nested, Complete s.block) :
    Shows (filterText nested f)
      (f.shown ∪ {name | ∃ s ∈ f.linked? nested, name ∈ shown s.block}) := by
  cases hlinked : f.linked? nested with
  | none =>
    simpa using shows_filterText_unlinked h hlinked
  | some s =>
    have hmem : s ∈ nested ∧ f.operand.value? = none := by
      unfold Filter.linked? at hlinked
      split at hlinked
      · cases hlinked
      · obtain ⟨id, hid, hfound⟩ := Option.bind_eq_some_iff.1 hlinked
        refine ⟨List.mem_of_find?_eq_some hfound, ?_⟩
        cases hoperand : f.operand with
        | value v =>
          rw [hoperand] at hid
          cases hid
        | subquery id => rfl
    have hsubject := (h f.column List.mem_cons_self).shows.before (plain_operator f.operator)
    have hshown : f.shown = shown f.column := by
      rw [shown_filter, hmem.2]
      simp
    have hall := hsubject.separated " " rfl (by decide) (hnested s hmem.1).shows
    rw [← String.append_assoc] at hall
    rw [filterText_linked hlinked, hshown]
    simpa using hall

theorem shows_chain {α : Type} {f : α → String} {C : α → Connector} {T : α → Set String}
    {xs : List α} (h : ∀ a ∈ xs, Shows (f a) (T a)) :
    Shows (chain .compact (xs.map fun a => (f a, C a))) (⋃ a ∈ xs, T a) := by
  induction xs with
  | nil => simpa [chain] using Shows.empty
  | cons a rest ih =>
    have hfirst := h a List.mem_cons_self
    cases rest with
    | nil => simpa [chain] using hfirst
    | cons b rest =>
      have hrest := ih fun c hc => h c (List.mem_cons_of_mem _ hc)
      have hsep : isPlainText (" " ++ (C a).sql ++ " ") := by cases C a <;> decide
      have hall := hfirst.separated (" " ++ (C a).sql ++ " ") hsep (by cases C a <;> decide) hrest
      have hunion : (⋃ c ∈ a :: b :: rest, T c) = T a ∪ ⋃ c ∈ b :: rest, T c := by
        ext name
        simp
      rw [hunion]
      simpa only [List.map_cons, chain, Layout.innerBreak, Layout.compact, Bool.false_eq_true,
        if_false, String.append_assoc] using hall

/-! ## Blocks -/

/-- A clause that is left out has no parameters. -/
theorem shows_clause (keyword : String) (hkeyword : isPlainText (keyword ++ " ")) {α : Type}
    {items : List α} {text : List α → String} {T : α → Set String}
    (h : Shows (text items) (⋃ a ∈ items, T a)) :
    ShowsAll (clause keyword items text) (⋃ a ∈ items, T a) := by
  unfold clause
  split
  · rename_i hempty
    rw [List.isEmpty_iff.1 hempty]
    simpa using ShowsAll.nil
  · exact .single (h.after hkeyword)

theorem shows_commaList {α : Type} {l : List α} {f : α → String} {T : α → Set String}
    (h : ∀ a ∈ l, Shows (f a) (T a)) : Shows (commaList (l.map f)) (⋃ a ∈ l, T a) :=
  (ShowsAll.map h).intercalate ", " rfl (by decide)

theorem shows_havingText {k : Having} (hcolumn : Complete k.column) (hvalue : Complete k.value) :
    Shows (havingText k) (shown k.column ∪ shown k.value) := by
  have hoperator : isPlainText (" " ++ k.operator.sql) := by cases k.operator <;> decide
  have hsubject := (shows_call hcolumn.shows k.function).before hoperator
  have hall := hsubject.separated " " rfl (by decide) hvalue.shows
  rwa [← String.append_assoc] at hall

theorem shows_sortTerm {o : SortTerm} (h : Complete o.column) :
    Shows (o.column ++ " " ++ o.direction.sql) (shown o.column) :=
  h.shows.silent " " rfl (by decide) (.plain (by cases o.direction <;> decide))

theorem shows_limit {l : Limit} (h : ∀ text, l = .parameter text → isParameter text) :
    Shows l.sql {name | ∃ text ∈ l.parameter?, name ∈ shown text} := by
  cases l with
  | count n =>
    have hdigits : (Nat.toDigits 10 n).all Char.isDigit :=
      List.all_eq_true.2 fun c hc => Nat.isDigit_of_mem_toDigits (by decide) (by decide) hc
    have hall := Shows.plain (plain_digits hdigits)
    simpa [Limit.sql, Limit.parameter?, Nat.repr] using hall
  | parameter text =>
    have hall := (complete_of_isParameter (h text rfl)).shows
    simpa [Limit.sql, Limit.parameter?] using hall

theorem linked?_mem {β : Type} {f : Filter} {subs : List (SubqueryOf β)} {s : SubqueryOf β}
    (h : f.linked? subs = some s) : s ∈ subs := by
  unfold Filter.linked? at h
  split at h
  · cases h
  · obtain ⟨id, -, hfound⟩ := Option.bind_eq_some_iff.1 h
    exact List.mem_of_find?_eq_some hfound

/-- The names of the parameters of a block, clause by clause. -/
theorem mem_shown_block {b : Block} {name : String} :
    name ∈ b.shown ↔ (∃ a ∈ b.aggregates, name ∈ shown a.expression)
      ∨ (∃ f ∈ b.filters, name ∈ f.shown) ∨ (∃ g ∈ b.groupBy, name ∈ shown g.column)
      ∨ (∃ k ∈ b.having, name ∈ shown k.column ∪ shown k.value)
      ∨ (∃ o ∈ b.orderBy, name ∈ shown o.column)
      ∨ ∃ l ∈ b.limit.toList, name ∈ {name | ∃ text ∈ l.parameter?, name ∈ shown text} := by
  have hfilter : (∃ f ∈ b.filters, name ∈ f.shown) ↔
      (∃ text ∈ b.filters.flatMap Filter.texts, name ∈ shown text) ∨
        ∃ text ∈ (b.filters.filterMap Filter.literal?).filter isParameter, name ∈ shown text := by
    simp only [Filter.shown, Set.mem_ofPred_eq, List.mem_flatMap, List.mem_filter,
      List.mem_filterMap]
    constructor
    · rintro ⟨f, hf, ⟨text, ht, hname⟩ | ⟨value, hvalue, hparameter, hname⟩⟩
      · exact .inl ⟨text, ⟨f, hf, ht⟩, hname⟩
      · exact .inr ⟨value, ⟨⟨f, hf, hvalue⟩, hparameter⟩, hname⟩
    · rintro (⟨text, ⟨f, hf, ht⟩, hname⟩ | ⟨value, ⟨⟨f, hf, hvalue⟩, hparameter⟩, hname⟩)
      · exact ⟨f, hf, .inl ⟨text, ht, hname⟩⟩
      · exact ⟨f, hf, .inr ⟨value, hvalue, hparameter, hname⟩⟩
  have hhaving : (∃ text ∈ b.having.flatMap (fun k => [k.column, k.value]), name ∈ shown text) ↔
      ∃ k ∈ b.having, name ∈ shown k.column ∪ shown k.value := by
    simp [List.mem_flatMap, or_and_right, exists_or, and_or_left]
  have hlimit : (∃ text ∈ (b.limit.bind Limit.parameter?).toList, name ∈ shown text) ↔
      ∃ l ∈ b.limit.toList, ∃ text ∈ l.parameter?, name ∈ shown text := by
    cases b.limit <;> simp
  simp only [Block.shown, shownAmong, Block.texts, Block.parameters, Set.mem_ofPred_eq,
    List.mem_append, or_and_right, exists_or, hfilter, hhaving, hlimit, List.mem_map,
    exists_exists_and_eq_and]
  refine iff_of_eq ?_
  ac_rfl

/-- Every nested query is written as a result, as a source or in a filter. -/
theorem mem_nested_iff {b : Block}
    (hplaced : ∀ s ∈ nested, s.role = .whereClause → ∃ f ∈ b.filters, f.linked? nested = some s)
    {name : String} : (∃ s ∈ nested, name ∈ shown s.block) ↔
      name ∈ shownIn nested .selectList ∨ name ∈ shownIn nested .fromClause ∨
        ∃ f ∈ b.filters, ∃ s ∈ f.linked? nested, name ∈ shown s.block := by
  constructor
  · rintro ⟨s, hs, hname⟩
    cases hrole : s.role with
    | selectList => exact .inl ⟨s, hs, hrole, hname⟩
    | fromClause => exact .inr (.inl ⟨s, hs, hrole, hname⟩)
    | whereClause =>
      obtain ⟨f, hf, hlinked⟩ := hplaced s hs hrole
      exact .inr (.inr ⟨f, hf, s, hlinked, hname⟩)
  · rintro (⟨s, hs, -, hname⟩ | ⟨s, hs, -, hname⟩ | ⟨f, -, s, hlinked, hname⟩)
    · exact ⟨s, hs, hname⟩
    · exact ⟨s, hs, hname⟩
    · exact ⟨s, linked?_mem hlinked, hname⟩

theorem shows_whereClause {b : Block} (h : b.Legible) (hnested : ∀ s ∈ nested, Complete s.block) :
    ShowsAll (clause "WHERE" b.filters fun fs =>
        chain .compact (fs.map fun f => (filterText nested f, f.connector)))
      (⋃ f ∈ b.filters, f.shown ∪ {name | ∃ s ∈ f.linked? nested, name ∈ shown s.block}) :=
  shows_clause "WHERE" (by decide)
    (shows_chain fun _ hf => shows_filterText (h.filter hf) hnested)

theorem shows_groupBy {b : Block} (h : b.Legible) :
    ShowsAll (clause "GROUP BY" b.groupBy fun gs => commaList (gs.map (·.column)))
      (⋃ g ∈ b.groupBy, shown g.column) :=
  shows_clause "GROUP BY" (by decide) (shows_commaList fun _ hg => (h.grouping hg).shows)

theorem shows_having {b : Block} (h : b.Legible) :
    ShowsAll (clause "HAVING" b.having fun ks =>
        chain .compact (ks.map fun k => (havingText k, k.connector)))
      (⋃ k ∈ b.having, shown k.column ∪ shown k.value) :=
  shows_clause "HAVING" (by decide)
    (shows_chain fun _ hk => shows_havingText (h.having hk).1 (h.having hk).2)

theorem shows_orderBy {b : Block} (h : b.Legible) :
    ShowsAll (clause "ORDER BY" b.orderBy fun os =>
        commaList (os.map fun o => o.column ++ " " ++ o.direction.sql))
      (⋃ o ∈ b.orderBy, shown o.column) :=
  shows_clause "ORDER BY" (by decide) (shows_commaList fun _ ho => shows_sortTerm (h.sorting ho))

theorem shows_limitClause {b : Block} (h : b.Legible) :
    ShowsAll (clause "LIMIT" b.limit.toList fun ls => String.join (ls.map (·.sql)))
      (⋃ l ∈ b.limit.toList, {name | ∃ text ∈ l.parameter?, name ∈ shown text}) := by
  refine shows_clause "LIMIT" (by decide) ?_
  cases hl : b.limit with
  | none => simpa using Shows.empty
  | some l => simpa using shows_limit fun text ht => h.limit text (by rw [hl, ht])

/-- The query of a block has the parameters of the block and of its nested queries. -/
theorem shows_blockText {b : Block} (h : b.Legible) (hsource : b.hasNoSource = false)
    (hnested : ∀ s ∈ nested, Complete s.block)
    (hplaced : ∀ s ∈ nested, s.role = .whereClause →
      ∃ f ∈ b.filters, f.linked? nested = some s) :
    Shows (blockText .compact b nested)
      (b.shown ∪ {name | ∃ s ∈ nested, name ∈ shown s.block}) := by
  have hselect := (shows_selectList (fun _ ha => h.aggregate ha) hnested).after
    (x := "SELECT ") (by decide)
  have hfrom := (shows_fromClause b hnested).after (x := "FROM ") (by decide)
  have hrows := (ShowsAll.cons hselect (.single hfrom)).append (shows_whereClause h hnested)
  have hgroups := (hrows.append (shows_groupBy h)).append (shows_having h)
  have hall := (hgroups.append (shows_orderBy h)).append (shows_limitClause h)
  have htext := hall.intercalate " " rfl (by decide)
  rw [blockText, if_neg (by simp [hsource])]
  refine htext.congr fun name => ?_
  rw [Set.mem_union, mem_shown_block]
  refine (or_congr_right (mem_nested_iff hplaced)).trans ?_
  simp only [Set.mem_union, Set.mem_iUnion, exists_prop, and_or_left, exists_or, Set.mem_ofPred_eq]
  refine iff_of_eq ?_
  ac_rfl

theorem renderNested_eq (l : Layout) (subs : List Subquery) :
    renderNested l subs = subs.map fun s =>
      { s with
        block := l.nest (if s.block.hasNoSource then emptyNested else renderBlock l s.block) } := by
  induction subs with
  | nil => rfl
  | cons s rest ih => rw [renderNested, ih, List.map_cons]

theorem renderBlock_eq (l : Layout) (b : Block) :
    renderBlock l b = blockText l b (renderNested l b.subqueries) := by
  cases b
  rw [renderBlock]

theorem linked?_map {β γ : Type} (f : Filter) (g : SubqueryOf β → γ) (subs : List (SubqueryOf β)) :
    f.linked? (subs.map fun s => { s with block := g s }) =
      (f.linked? subs).map fun s => { s with block := g s } := by
  unfold Filter.linked?
  split
  · rfl
  · cases f.operand.subquery? with
    | none => rfl
    | some id =>
      simp only [Option.bind_some, List.find?_map]
      rfl

/-- A nested query in its parentheses. -/
theorem shows_nest {S : Set String} {x : String} (h : Shows x S) :
    Shows (Layout.compact.nest x) S :=
  (h.after (x := "(") rfl).before (y := ")") rfl

/-- A block that reads from nothing has no parameters. -/
theorem shown_of_hasNoSource {b : Block} (h : b.Legible) (hsource : b.hasNoSource) :
    ⋃ c ∈ b.blocks, c.shown = ∅ := by
  rw [h.source hsource]
  ext name
  simp [Block.blocks, Block.blocksIn, Block.empty, Block.shown, shownAmong, Block.texts,
    Block.parameters]

/-- The query of a block has the parameters of all blocks of its tree. -/
theorem shows_renderBlock (b : Block) (h : b.Everywhere Block.Legible)
    (hsource : b.hasNoSource = false) :
    Shows (renderBlock .compact b) (⋃ c ∈ b.blocks, c.shown) := by
  induction b using Block.tree_induction with
  | step b ih =>
    obtain ⟨hself, hbelow⟩ := Block.everywhere_iff.1 h
    have hnest : ∀ s ∈ b.subqueries,
        Shows (Layout.compact.nest
          (if s.block.hasNoSource then emptyNested else renderBlock .compact s.block))
          (⋃ c ∈ s.block.blocks, c.shown) := by
      intro s hs
      refine shows_nest ?_
      split
      · rename_i hempty
        rw [shown_of_hasNoSource (Block.everywhere_iff.1 (hbelow s hs)).1 hempty]
        exact Complete.shows_nothing (by decide +kernel) (by decide +kernel)
      · rename_i hfull
        exact ih s hs (hbelow s hs) (Bool.eq_false_iff.2 hfull)
    rw [renderBlock_eq, renderNested_eq]
    refine (shows_blockText hself hsource ?_ ?_).congr fun name => ?_
    · intro s hs
      obtain ⟨s, hmem, rfl⟩ := List.mem_map.1 hs
      exact (hnest s hmem).toComplete
    · intro s hs hrole
      obtain ⟨s, hmem, rfl⟩ := List.mem_map.1 hs
      obtain ⟨f, hf, hlinked⟩ := hself.placed s hmem hrole
      exact ⟨f, hf, by rw [linked?_map, hlinked]; rfl⟩
    · have hbelow : (∃ s ∈ b.subqueries, ∃ c ∈ s.block.blocks, name ∈ c.shown) ↔
          ∃ s ∈ b.subqueries, name ∈ shown (Layout.compact.nest
            (if s.block.hasNoSource then emptyNested else renderBlock .compact s.block)) :=
        exists_congr fun s => and_congr_right fun hs => by rw [(hnest s hs).shown]; simp
      rw [Block.blocks_eq]
      simpa [or_and_right, exists_or] using or_congr_right hbelow

/-- The named queries that are not written have no parameters. -/
theorem mem_shown_canvas {c : Canvas} (h : ∀ b ∈ c.blocks, b.Legible) {name : String} :
    (∃ b ∈ c.blocks, name ∈ b.shown) ↔
      (∃ q ∈ c.ctes.filter (!·.block.hasNoSource), ∃ b ∈ q.block.blocks, name ∈ b.shown) ∨
        ∃ b ∈ c.root.blocks, name ∈ b.shown := by
  simp only [Canvas.blocks, List.mem_append, List.mem_flatMap, List.mem_filter]
  constructor
  · rintro ⟨b, hroot | ⟨q, hq, hb⟩, hname⟩
    · exact .inr ⟨b, hroot, hname⟩
    · refine .inl ⟨q, ⟨hq, ?_⟩, b, hb, hname⟩
      rw [Bool.not_eq_true', Bool.eq_false_iff]
      intro hsource
      have hself := h q.block (List.mem_append_right _
        (List.mem_flatMap.2 ⟨q, hq, Block.self_mem_blocks _⟩))
      have hmem : name ∈ ⋃ b ∈ q.block.blocks, b.shown := by simpa using ⟨b, hb, hname⟩
      rw [shown_of_hasNoSource hself hsource] at hmem
      exact hmem
  · rintro (⟨q, ⟨hq, -⟩, b, hb, hname⟩ | ⟨b, hb, hname⟩)
    · exact ⟨b, .inr ⟨q, hq, hb⟩, hname⟩
    · exact ⟨b, .inl hb, hname⟩

/-- **The query of a canvas has the parameters of all its blocks.** -/
theorem shows_render {c : Canvas} (h : ∀ b ∈ c.blocks, b.Legible)
    (hsource : c.root.hasNoSource = false) :
    Shows (render .compact c) (⋃ b ∈ c.blocks, b.shown) := by
  have hroot := shows_renderBlock c.root (fun b hb => h b (List.mem_append_left _ hb)) hsource
  have hctes := ShowsAll.map (l := c.ctes.filter (!·.block.hasNoSource))
    (f := fun q => quoteName q.name ++ " AS " ++ Layout.compact.nest (renderBlock .compact q.block))
    (T := fun q => ⋃ b ∈ q.block.blocks, b.shown) fun q hq => by
      obtain ⟨hq, hfull⟩ := List.mem_filter.1 hq
      have hblock := shows_renderBlock q.block (fun b hb => h b (List.mem_append_right _
        (List.mem_flatMap.2 ⟨q, hq, hb⟩))) (by simpa using hfull)
      have hall := (shows_quoteName q.name).separated " AS " rfl (by decide) (shows_nest hblock)
      rwa [Set.empty_union] at hall
  rw [render, if_neg (by simp [hsource])]
  dsimp only
  split
  · rename_i hempty
    refine hroot.congr fun name => ?_
    rw [List.isEmpty_iff, List.map_eq_nil_iff] at hempty
    have hnames := @mem_shown_canvas c h name
    rw [hempty] at hnames
    simpa using hnames
  · have hwith := (hctes.intercalate ", " rfl (by decide)).after (x := "WITH ") (by decide)
    refine (hwith.separated " " rfl (by decide) hroot).congr fun name => ?_
    simpa using mem_shown_canvas h

end Sql

end QueryCanvas
