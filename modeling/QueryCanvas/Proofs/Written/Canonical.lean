import QueryCanvas.Proofs.Arrangement.NormalForm
import QueryCanvas.Proofs.Arrangement.Redrawn
import QueryCanvas.Proofs.Sql.WrittenParameters
import QueryCanvas.Proofs.Written.Texts

/-!
# Canonical blocks

The text of a block is that of a select, if clause by clause the same is written.  A block is
canonical if its names can stand for themselves, its tables and joins are in order, its columns are
columns of its tables, and its values are numbers, parameters or texts.  Such a block is written as
a select whose tables, joins and columns fit each other.
-/

set_option autoImplicit false

namespace QueryCanvas.Sql

/-! ## Nested queries -/

/-- The text of a nested block without its parentheses. -/
def innerText (b : Block) : String :=
  if b.hasNoSource then emptyNested else renderBlock .compact b

/-- A text in parentheses. -/
def bracketed (s : String) : String := "(" ++ s ++ ")"

/-- The nested queries of a block with texts in place of their blocks. -/
def nestedTexts (b : Block) (g : Block → String) : List (SubqueryOf String) :=
  b.subqueries.map fun s => { s with block := g s.block }

theorem renderBlock_compact (b : Block) : renderBlock .compact b =
    blockText .compact b (nestedTexts b fun c => bracketed (innerText c)) := by
  rw [renderBlock_eq, renderNested_eq]
  rfl

theorem nestedItems_nestedTexts (b : Block) (g : Block → String) (role : SubqueryRole) :
    nestedItems (nestedTexts b g) role =
      (b.subqueriesIn role).map fun s => aliased (g s.block) s.aliasName := by
  rw [nestedItems, nestedTexts, List.filter_map, List.map_map]
  rfl

/-! ## Items of a `FROM` clause -/

/-- The two columns that a join compares. -/
def joinForm (b : Block) (j : Join) : TableColumn × TableColumn :=
  (⟨b.tableName j.sourceTable, j.sourceColumn⟩, ⟨b.tableName j.targetTable, j.targetColumn⟩)

/-- A step as it is written. -/
def stepForm (b : Block) (s : JoinStep) : WrittenStep :=
  ⟨s.kind, (s.joined.map (·.name)).getD "", s.conditions.map (joinForm b)⟩

/-- An item as it is written. -/
def itemForm (b : Block) (i : FromItem) : WrittenItem := ⟨i.base.name, i.steps.map (stepForm b)⟩

theorem Identifier.ne_empty {s : String} (h : Identifier s) : s ≠ "" := by
  rintro rfl
  exact absurd h.plain (by decide)

theorem tableText_identifier {s : String} (h : Identifier s) : tableText s = quotePath s := by
  rw [tableText, if_neg (by simpa using h.ne_empty)]

theorem joinStep_stepForm {b : Block} {s : JoinStep} (h : (stepForm b s).Plain) :
    joinStep b s = (stepForm b s).text := by
  have hconditions : s.conditions.map (joinCondition b) =
      ((stepForm b s).conditions.map fun c => c.1.text ++ " = " ++ c.2.text) := by
    rw [stepForm, List.map_map]
    refine List.map_congr_left fun j hj => ?_
    obtain ⟨hleft, hright⟩ := h.conditions (joinForm b j) (List.mem_map_of_mem hj)
    have hsource : Identifier (b.tableName j.sourceTable) := hleft.table
    have htarget : Identifier (b.tableName j.targetTable) := hright.table
    rw [joinCondition, endpoint, endpoint, tableText_identifier hsource,
      tableText_identifier htarget]
    rfl
  have hjoined : Identifier ((s.joined.map (·.name)).getD "") := h.joined
  rw [joinStep, tableText_identifier hjoined, hconditions]
  rfl

theorem fromItem_itemForm {b : Block} {i : FromItem} (h : (itemForm b i).Plain) :
    fromItem .compact b i = (itemForm b i).text := by
  have hsteps : (i.steps.map fun s => Layout.compact.innerBreak ++ joinStep b s) =
      (itemForm b i).steps.map fun s => " " ++ s.text := by
    rw [itemForm, List.map_map]
    refine List.map_congr_left fun s hs => ?_
    rw [Function.comp_apply, ← joinStep_stepForm (h.steps _ (List.mem_map_of_mem hs))]
    rfl
  rw [fromItem, hsteps]
  rfl

/-! ## Whole blocks -/

variable {ν : Type} {b : Block} {nested : List (SubqueryOf String)} {x : WrittenSelect ν}
  {g : ν → String}

/-- Clause by clause the same is written of the block, with the texts of its nested queries, as of
the select. -/
structure WrittenAs (b : Block) (nested : List (SubqueryOf String)) (x : WrittenSelect ν)
    (g : ν → String) : Prop where
  source : b.hasNoSource = false
  results : b.tables.flatMap chosenColumns ++
      b.aggregates.map (fun a => aliased (call a.function a.expression) a.aliasName) ++
        nestedItems nested .selectList = x.results.map (·.text g)
  sources : (fromItems b).map (fromItem .compact b) ++ nestedItems nested .fromClause =
    x.items.map (·.text) ++ x.derived.map fun d => aliased (g d.1) d.2
  conditions : (b.filters.map fun f => (filterText nested f, f.connector)) =
    x.conditions.map fun c => (c.1.text g, c.2)
  groups : b.groupBy.map (·.column) = x.groups.map (·.text)
  havings : (b.having.map fun h => (havingText h, h.connector)) =
    x.havings.map fun h => (h.1.text, h.2)
  terms : (b.orderBy.map fun o => o.column ++ " " ++ o.direction.sql) = x.terms.map (·.text)
  limit : b.limit = x.limit

/-- A clause of two lists of which the same is written. -/
theorem clause_congr {α β γ : Type} {l : List α} {l' : List β} {f : α → γ} {f' : β → γ}
    (h : l.map f = l'.map f') (keyword : String) (text : List γ → String) :
    clause keyword l (fun l => text (l.map f)) = clause keyword l' fun l => text (l.map f') := by
  rw [← clause_map keyword f l text, ← clause_map keyword f' l' text, h]

/-- **A block is written as the select of which the same is written clause by clause.** -/
theorem WrittenAs.blockText_eq (h : WrittenAs b nested x g) :
    blockText .compact b nested = x.text g := by
  have hselect : selectList b nested = x.resultText g := by
    rw [selectList, WrittenSelect.resultText, h.results, List.isEmpty_map]
  have hfrom : fromClause .compact b nested = x.fromText g := by
    rw [fromClause, WrittenSelect.fromText, h.sources]
  rw [blockText, if_neg (by simp [h.source]), WrittenSelect.text, hselect, hfrom,
    clause_congr h.conditions "WHERE" (chain .compact), clause_congr h.groups "GROUP BY" commaList,
    clause_congr h.havings "HAVING" (chain .compact), clause_congr h.terms "ORDER BY" commaList,
    h.limit]
  rfl

end QueryCanvas.Sql

namespace QueryCanvas

open Sql

/-! ## What is canonical -/

/-- The text is a column of one of the tables. -/
def Block.HasColumn (b : Block) (text : String) : Prop :=
  ∃ t ∈ b.tables, ∃ c, Identifier c ∧ text = columnRef t.name c

/-- An alias, if there is one, can stand for itself. -/
def PlainAlias (aliasName : Option String) : Prop := ∀ name ∈ aliasName, Identifier name

/-- The names of a table and of what is chosen of it can stand for themselves. -/
structure Table.Canonical (t : Table) : Prop where
  name : Identifier t.name
  selected : ∀ c ∈ t.selected, Identifier c ∧
    ∀ a, t.aggregates.find? c = some a → PlainAlias a.aliasName

/-- A filter on a column of the block.  With a nested query it compares, or asks whether the column
is among the results; without one, lists and ranges are of plain values, and any other value is
taken as it is. -/
structure Filter.Canonical (b : Block) (f : Filter) : Prop where
  column : b.HasColumn f.column
  linked : ∀ s, f.linked? b.subqueries = some s →
    (∃ op : Comparison, f.operator = op.toFilterOperator) ∨ f.operator.isList
  list : f.linked? b.subqueries = none → f.operator.isList →
    ∃ items, items ≠ [] ∧ (∀ v ∈ items, PlainValue v) ∧ f.operand.value?.getD "" = commaList items
  range : f.linked? b.subqueries = none → f.operator.isRange →
    ∃ low high, PlainValue low ∧ PlainValue high ∧
      f.operand.value?.getD "" = low ++ " AND " ++ high

/-- What the canonical form asks of one block. -/
structure Block.Canonical (b : Block) : Prop where
  ids : (b.tables.map (·.id)).Nodup
  names : (b.tables.map (·.name)).Nodup
  tables : ∀ t ∈ b.tables, t.Canonical
  joins : ∀ j ∈ b.joins, (∃ s t, j.Connects b s t) ∧ Identifier j.sourceColumn ∧
    Identifier j.targetColumn
  filters : ∀ f ∈ b.filters, f.Canonical b
  groupBy : ∀ g ∈ b.groupBy, b.HasColumn g.column
  having : ∀ h ∈ b.having, (h.column = "*" ∨ b.HasColumn h.column) ∧ PlainValue h.value
  orderBy : ∀ o ∈ b.orderBy, b.HasColumn o.column
  limit : ∀ l ∈ b.limit, l.Readable
  aggregates : ∀ a ∈ b.aggregates, (a.expression = "*" ∨ b.HasColumn a.expression) ∧
    PlainAlias a.aliasName
  subqueries : ∀ s ∈ b.subqueries, s.role ≠ .whereClause → PlainAlias s.aliasName

namespace Sql

variable {b : Block} {f : Filter} {g : Block → String}

/-! ## Values and columns -/

theorem exists_listed {s : String} (h : PlainValue s) : ∃ v : Listed, v.text = s := by
  obtain ⟨p, hp, hword⟩ := exists_constant_of_plain h
  exact ⟨⟨s, p, hp, hword⟩, rfl⟩

theorem exists_compared (value : String) : ∃ v : Compared, v.value = value := by
  obtain ⟨p, hp, hliteral⟩ := exists_constant value
  exact ⟨⟨value, p, hp, hliteral⟩, rfl⟩

/-- Where each member of a list is the image of something, the list is the image of a list. -/
theorem exists_map_eq {α β γ : Type} {f : α → γ} {h : β → γ} {P : β → Prop} {l : List α}
    (hl : ∀ a ∈ l, ∃ b, h b = f a ∧ P b) : ∃ l' : List β, l'.map h = l.map f ∧ ∀ b ∈ l', P b := by
  induction l with
  | nil => exact ⟨[], rfl, by simp⟩
  | cons a l ih =>
    obtain ⟨⟨b, hb, hP⟩, hl⟩ := List.forall_mem_cons.1 hl
    obtain ⟨l', hl', hall⟩ := ih hl
    exact ⟨b :: l', by rw [List.map_cons, List.map_cons, hb, hl'],
      List.forall_mem_cons.2 ⟨hP, hall⟩⟩

end Sql

/-! ## Kinds of operators -/

namespace FilterOperator

theorem exists_of_isList {op : FilterOperator} (h : op.isList) :
    ∃ negated : Bool, op = if negated then .notIn else .isIn := by
  cases op with
  | isIn => exact ⟨false, rfl⟩
  | notIn => exact ⟨true, rfl⟩
  | _ => cases h

theorem exists_of_isRange {op : FilterOperator} (h : op.isRange) :
    ∃ negated : Bool, op = if negated then .notBetween else .between := by
  cases op with
  | between => exact ⟨false, rfl⟩
  | notBetween => exact ⟨true, rfl⟩
  | _ => cases h

/-- Besides these, an operator compares, or tests with a pattern. -/
theorem forms (op : FilterOperator) : op.isUnary ∨ op.isList ∨ op.isRange ∨
    (∃ c : Comparison, op = c.toFilterOperator) ∨
      ∃ anyCase negated, op = likeOperator anyCase negated := by
  have hcomparison (c : Comparison) : c.toFilterOperator.isUnary ∨ c.toFilterOperator.isList ∨
      c.toFilterOperator.isRange ∨ (∃ c' : Comparison, c.toFilterOperator = c'.toFilterOperator) ∨
        ∃ anyCase negated, c.toFilterOperator = likeOperator anyCase negated :=
    .inr (.inr (.inr (.inl ⟨c, rfl⟩)))
  have hlike (anyCase negated : Bool) : (likeOperator anyCase negated).isUnary ∨
      (likeOperator anyCase negated).isList ∨ (likeOperator anyCase negated).isRange ∨
        (∃ c : Comparison, likeOperator anyCase negated = c.toFilterOperator) ∨
          ∃ a n, likeOperator anyCase negated = likeOperator a n :=
    .inr (.inr (.inr (.inr ⟨anyCase, negated, rfl⟩)))
  cases op with
  | eq => exact hcomparison .eq
  | ne => exact hcomparison .ne
  | lt => exact hcomparison .lt
  | le => exact hcomparison .le
  | gt => exact hcomparison .gt
  | ge => exact hcomparison .ge
  | like => exact hlike false false
  | notLike => exact hlike false true
  | ilike => exact hlike true false
  | notIlike => exact hlike true true
  | isIn | notIn => exact .inr (.inl rfl)
  | between | notBetween => exact .inr (.inr (.inl rfl))
  | isNull | isNotNull | isTrue | isFalse => exact .inl rfl

end FilterOperator

namespace Block.Canonical

variable {b : Block} {f : Filter}

theorem exists_column (h : b.Canonical) {text : String} (htext : b.HasColumn text) :
    ∃ c : TableColumn, c.text = text ∧ c.Plain := by
  obtain ⟨t, ht, column, hcolumn, rfl⟩ := htext
  exact ⟨⟨t.name, column⟩, rfl, (h.tables t ht).name, hcolumn⟩

theorem exists_argument (h : b.Canonical) {text : String} (htext : text = "*" ∨ b.HasColumn text) :
    ∃ a : Aggregated, a.text = text ∧ ∀ c ∈ a, c.Plain := by
  rcases htext with rfl | htext
  · exact ⟨none, rfl, nofun⟩
  · obtain ⟨c, hc, hplain⟩ := h.exists_column htext
    exact ⟨some c, hc, by rintro _ ⟨⟩; exact hplain⟩

/-! ## Conditions -/

theorem exists_test (h : f.Canonical b) : ∃ t : WrittenTest Block,
    (∀ q ∈ t.nested, ∃ s ∈ b.subqueries, s.block = q) ∧
      ∀ g, filterText (nestedTexts b g) f =
        f.column ++ " " ++ t.operator.sql ++ t.operand g := by
  have hmap : ∀ g : Block → String, f.linked? (nestedTexts b g) =
      (f.linked? b.subqueries).map fun s => { s with block := g s.block } :=
    fun g => linked?_map f (fun s => g s.block) b.subqueries
  cases hlinked : f.linked? b.subqueries with
  | some s =>
    have hmem : s ∈ b.subqueries := linked?_mem hlinked
    have htext : ∀ g, filterText (nestedTexts b g) f =
        f.column ++ " " ++ f.operator.sql ++ (" " ++ g s.block) := by
      intro g
      rw [← String.append_assoc]
      exact filterText_linked (s := { s with block := g s.block }) (by rw [hmap, hlinked]; rfl)
    rcases h.linked s hlinked with ⟨op, hop⟩ | hlist
    · refine ⟨.compareQuery op s.block, ?_, fun g => ?_⟩
      · simpa [WrittenTest.nested] using ⟨s, hmem, rfl⟩
      · rw [htext, hop]
        rfl
    · obtain ⟨negated, hop⟩ := FilterOperator.exists_of_isList hlist
      refine ⟨.amongResults negated s.block, ?_, fun g => ?_⟩
      · simpa [WrittenTest.nested] using ⟨s, hmem, rfl⟩
      · rw [htext, hop]
        rfl
  | none =>
    have htext : ∀ g, filterText (nestedTexts b g) f = _ := fun g =>
      filterText_unlinked (by rw [hmap, hlinked]; rfl)
    have hnone : ∀ t : WrittenTest Block, t.nested = [] →
        (∀ g, filterText (nestedTexts b g) f =
          f.column ++ " " ++ t.operator.sql ++ t.operand g) →
        ∃ t : WrittenTest Block, (∀ q ∈ t.nested, ∃ s ∈ b.subqueries, s.block = q) ∧
          ∀ g, filterText (nestedTexts b g) f =
            f.column ++ " " ++ t.operator.sql ++ t.operand g :=
      fun t ht htext => ⟨t, by simp [ht], htext⟩
    rcases f.operator.forms with hunary | hlist | hrange | ⟨op, hop⟩ | ⟨anyCase, negated, hop⟩
    · refine hnone (.plain f.operator hunary) rfl fun g => ?_
      rw [htext, if_pos hunary]
      rfl
    · obtain ⟨negated, hop⟩ := FilterOperator.exists_of_isList hlist
      obtain ⟨items, hne, hitems, hvalue⟩ := h.list hlinked hlist
      obtain ⟨vs, hvs, -⟩ := exists_map_eq (f := fun v : String => v) (h := Listed.text)
        (P := fun _ => True) fun v hv => (exists_listed (hitems v hv)).imp fun _ h => ⟨h, trivial⟩
      rw [List.map_id'] at hvs
      have hvs' : vs ≠ [] := by
        rintro rfl
        exact hne hvs.symm
      refine hnone (.among negated vs hvs') rfl fun g => ?_
      rw [htext, if_neg (by rw [hop]; cases negated <;> decide), if_pos hlist, hvalue, ← hvs, hop]
      rfl
    · obtain ⟨negated, hop⟩ := FilterOperator.exists_of_isRange hrange
      obtain ⟨low, high, hlow, hhigh, hvalue⟩ := h.range hlinked hrange
      obtain ⟨v, rfl⟩ := exists_listed hlow
      obtain ⟨w, rfl⟩ := exists_listed hhigh
      refine hnone (.range negated v w) rfl fun g => ?_
      rw [htext, if_neg (by rw [hop]; cases negated <;> decide),
        if_neg (by rw [hop]; cases negated <;> decide), if_pos hrange, hvalue, hop]
      rfl
    · obtain ⟨v, hv⟩ := exists_compared (f.operand.value?.getD "")
      refine hnone (.compare op v) rfl fun g => ?_
      rw [htext, hop, if_neg (by cases op <;> decide), if_neg (by cases op <;> decide),
        if_neg (by cases op <;> decide), ← hv]
      rfl
    · obtain ⟨v, hv⟩ := exists_compared (f.operand.value?.getD "")
      refine hnone (.like anyCase negated v) rfl fun g => ?_
      rw [htext, hop, if_neg (by cases anyCase <;> cases negated <;> decide),
        if_neg (by cases anyCase <;> cases negated <;> decide),
        if_neg (by cases anyCase <;> cases negated <;> decide), ← hv]
      rfl

theorem exists_condition (h : b.Canonical) (hf : f.Canonical b) : ∃ c : WrittenCondition Block,
    (fun g => c.text g) = (fun g => filterText (nestedTexts b g) f) ∧ c.column.Plain ∧
      ∀ q ∈ c.test.nested, ∃ s ∈ b.subqueries, s.block = q := by
  obtain ⟨column, hcolumn, hplain⟩ := h.exists_column hf.column
  obtain ⟨test, hnested, htext⟩ := exists_test hf
  refine ⟨⟨column, test⟩, funext fun g => ?_, hplain, hnested⟩
  rw [htext, ← hcolumn]
  rfl

theorem exists_having (h : b.Canonical) {k : Having} (hk : k ∈ b.having) :
    ∃ w : WrittenHaving, w.text = havingText k ∧ ∀ c ∈ w.argument, c.Plain := by
  obtain ⟨hcolumn, hvalue⟩ := h.having k hk
  obtain ⟨argument, hargument, hplain⟩ := h.exists_argument hcolumn
  obtain ⟨v, hv⟩ := exists_listed hvalue
  refine ⟨⟨k.function, argument, k.operator, v⟩, ?_, hplain⟩
  rw [WrittenHaving.text, havingText, hargument, hv]

/-! ## Sources -/

section Sources

variable {item : FromItem} {s : JoinStep}

theorem connects (h : b.Canonical) : ∀ j ∈ b.joins, ∃ s t, j.Connects b s t :=
  fun j hj => (h.joins j hj).1

/-- Every step brings in a table, by a condition at least. -/
theorem step_brings (h : b.Canonical) (hitem : item ∈ fromItems b) (hs : s ∈ item.steps) :
    (∃ t, s.joined = some t) ∧ s.conditions ≠ [] := by
  obtain ⟨alone, hitems⟩ := fromItems_of_connects h.ids h.connects
  have hjoined : item ∈ joinedItems b := by
    rw [hitems, List.mem_append] at hitem
    refine hitem.resolve_right fun halone => ?_
    obtain ⟨t, -, rfl⟩ := List.mem_map.1 halone
    cases hs
  obtain ⟨t, ht⟩ := Option.isSome_iff_exists.1 (allBring_joinedItems b item hjoined s hs)
  have hsound := ((joinedItems_arranged b).1.sound item hjoined).steps s hs
  simp only [JoinStep.Sound, ht] at hsound
  obtain ⟨⟨j, hj, -⟩, -⟩ := hsound
  exact ⟨⟨t, ht⟩, List.ne_nil_of_mem hj⟩

theorem mem_tables (hitem : item ∈ fromItems b) {t : Table} (ht : t ∈ item.tables) :
    t ∈ b.tables :=
  ((fromItems_arranged b).1.sound item hitem).tables t ht

theorem mem_joins (hitem : item ∈ fromItems b) (hs : s ∈ item.steps) {j : Join}
    (hj : j ∈ s.conditions) : j ∈ b.joins :=
  (written_subperm_joins b).subset
    (List.mem_flatMap.2 ⟨item, hitem, List.mem_flatMap.2 ⟨s, hs, hj⟩⟩)

theorem joinForm_eq {j : Join} {u t : Table} (hj : j.Connects b u t) :
    joinForm b j = (⟨u.name, j.sourceColumn⟩, ⟨t.name, j.targetColumn⟩) := by
  obtain ⟨hsource, htarget, -⟩ := hj
  rw [joinForm, Block.tableName, Block.tableName, hsource, htarget]
  rfl

theorem plain_item (h : b.Canonical) (hitem : item ∈ fromItems b) : (itemForm b item).Plain := by
  have hname : ∀ t ∈ item.tables, Identifier t.name :=
    fun t ht => (h.tables t (mem_tables hitem ht)).name
  refine ⟨hname item.base List.mem_cons_self, fun w hw => ?_⟩
  obtain ⟨s, hs, rfl⟩ := List.mem_map.1 hw
  obtain ⟨⟨t, ht⟩, hne⟩ := h.step_brings hitem hs
  refine ⟨?_, by simpa [stepForm] using hne, fun c hc => ?_⟩
  · have hmem : t ∈ item.tables := List.mem_cons_of_mem _ (List.mem_filterMap.2 ⟨s, hs, ht⟩)
    simpa [stepForm, ht] using hname t hmem
  · obtain ⟨j, hj, rfl⟩ := List.mem_map.1 hc
    obtain ⟨⟨u, v, hconnects⟩, hsource, htarget⟩ := h.joins j (mem_joins hitem hs hj)
    obtain ⟨hu, hv, -⟩ := hconnects.ends
    rw [joinForm_eq hconnects]
    exact ⟨⟨(h.tables u hu).name, hsource⟩, (h.tables v hv).name, htarget⟩

theorem names_itemForm (h : b.Canonical) (hitem : item ∈ fromItems b) {steps : List JoinStep}
    (hsteps : ∀ s ∈ steps, s ∈ item.steps) : (itemForm b ⟨item.base, steps⟩).names =
      (FromItem.mk item.base steps).tables.map (·.name) := by
  have hjoined : (steps.map (stepForm b)).map (·.joined) =
      (steps.filterMap (·.joined)).map (·.name) := by
    induction steps with
    | nil => rfl
    | cons s steps ih =>
      obtain ⟨hs, hsteps⟩ := List.forall_mem_cons.1 hsteps
      obtain ⟨⟨t, ht⟩, -⟩ := h.step_brings hitem hs
      rw [List.map_cons, List.map_cons, ih hsteps, List.filterMap_cons_some ht, List.map_cons]
      simp [stepForm, ht]
  rw [WrittenItem.names, itemForm, hjoined]
  rfl

theorem tied_item (h : b.Canonical) (hitem : item ∈ fromItems b) : (itemForm b item).Tied := by
  intro front' w after' hsplit c hc
  obtain ⟨front, l, hsteps, rfl, hl⟩ := List.map_eq_append_iff.1 hsplit
  obtain ⟨s, after, rfl, rfl, -⟩ := List.map_eq_cons_iff.1 hl
  obtain ⟨j, hj, rfl⟩ := List.mem_map.1 hc
  have hs : s ∈ item.steps := by simp [hsteps]
  obtain ⟨⟨u, t, hconnects⟩, -⟩ := h.joins j (mem_joins hitem hs hj)
  have hscope : item.inScope front.length = (FromItem.mk item.base front).tables := by
    rw [FromItem.inScope, hsteps, List.take_left]
    rfl
  have hat : item.steps[front.length]? = some s := by simp [hsteps]
  have hnames : (WrittenItem.mk (itemForm b item).base (front.map (stepForm b))).names =
      (FromItem.mk item.base front).tables.map (·.name) :=
    h.names_itemForm hitem (fun r (hr : r ∈ front) => by simp [hsteps, hr])
  rw [hnames, joinForm_eq hconnects, ← hscope]
  rcases inScope_of_connects h.ids hitem hat hj hconnects with ⟨hjoined, hin⟩ | ⟨hjoined, hin⟩
  · exact ⟨u.name, List.mem_map_of_mem hin, .inl ⟨rfl, by simp [stepForm, hjoined]⟩⟩
  · exact ⟨t.name, List.mem_map_of_mem hin, .inr ⟨by simp [stepForm, hjoined], rfl⟩⟩

theorem names_items (h : b.Canonical) : ((fromItems b).map (itemForm b)).flatMap (·.names) =
    ((fromItems b).flatMap FromItem.tables).map (·.name) := by
  rw [List.flatMap_map, List.map_flatMap]
  exact List.flatMap_congr fun item hitem => h.names_itemForm hitem fun _ hs => hs

theorem grouped (h : b.Canonical) : (fromItems b).map (itemForm b) = [] ∨
    ∃ (first : WrittenItem) (rest : List WrittenItem) (alone : List String),
      (fromItems b).map (itemForm b) = first :: rest ++ alone.map (⟨·, []⟩) ∧
        ∀ i ∈ rest, i.steps ≠ [] := by
  by_cases hne : b.tables = []
  · exact .inl (by rw [fromItems_of_no_tables hne, List.map_nil])
  · obtain ⟨alone, hitems⟩ := fromItems_of_connects h.ids h.connects
    obtain ⟨first, rest, hjoined, hrest⟩ := joinedItems_cons hne
    refine .inr ⟨itemForm b first, rest.map (itemForm b), alone.map (·.name), ?_, fun i hi => ?_⟩
    · rw [hitems, hjoined, List.map_append, List.map_map, List.map_map]
      rfl
    · obtain ⟨item, hitem, rfl⟩ := List.mem_map.1 hi
      simpa [itemForm] using hrest item hitem

end Sources

/-! ## Results -/

/-- A chosen column as it is written. -/
def chosenResult (t : Table) (column : String) : WrittenResult Block :=
  match t.aggregates.find? column with
  | some a => .call ⟨a.function, some ⟨t.name, column⟩, a.aliasName⟩
  | none => .column ⟨t.name, column⟩

/-- The results that are columns of tables, perhaps with an aggregate around them. -/
def chosenResults (b : Block) : List (WrittenResult Block) :=
  b.tables.flatMap fun t => t.orderedSelection.map (chosenResult t)

/-- The results that are nested queries. -/
def scalarResults (b : Block) : List (WrittenResult Block) :=
  (b.subqueriesIn .selectList).map fun s => .scalar s.block s.aliasName

theorem text_chosenResults (b : Block) (g : Block → String) :
    (chosenResults b).map (·.text g) = b.tables.flatMap chosenColumns := by
  rw [chosenResults, List.map_flatMap]
  refine List.flatMap_congr fun t ht => ?_
  rw [chosenColumns, List.map_map]
  refine List.map_congr_left fun column hcolumn => ?_
  rw [Function.comp_apply, chosenResult]
  cases hfind : t.aggregates.find? column <;> rfl

theorem mem_selected {t : Table} {column : String} (h : column ∈ t.orderedSelection) :
    column ∈ t.selected := by
  rcases List.mem_append.1 h with h | h
  · simpa [Table.isSelected] using (List.mem_filter.1 h).2
  · exact (List.mem_filter.1 h).1

theorem plain_chosenResult {t : Table} (ht : t.Canonical) {column : String}
    (hcolumn : column ∈ t.selected) : (chosenResult t column).Plain := by
  obtain ⟨hname, haliases⟩ := ht.selected column hcolumn
  unfold chosenResult
  split
  · rename_i a ha
    exact ⟨by rintro _ ⟨⟩; exact ⟨ht.name, hname⟩, haliases a ha⟩
  · exact ⟨ht.name, hname⟩

theorem plain_chosen (h : b.Canonical) {r : WrittenResult Block} (hr : r ∈ chosenResults b) :
    r.Plain := by
  obtain ⟨t, ht, hr⟩ := List.mem_flatMap.1 hr
  obtain ⟨column, hcolumn, rfl⟩ := List.mem_map.1 hr
  exact plain_chosenResult (h.tables t ht) (mem_selected hcolumn)

theorem column_chosen {r : WrittenResult Block} (hr : r ∈ chosenResults b) :
    r.scalar? = none ∧ ∀ c ∈ r.column?, ∃ t ∈ b.tables, c.table = t.name := by
  obtain ⟨t, ht, hr⟩ := List.mem_flatMap.1 hr
  obtain ⟨column, hcolumn, rfl⟩ := List.mem_map.1 hr
  unfold chosenResult
  split
  · exact ⟨rfl, nofun⟩
  · refine ⟨rfl, ?_⟩
    rintro _ ⟨⟩
    exact ⟨t, ht, rfl⟩

/-! ## The whole select -/

/-- The select of a block, whatever is written for its aggregates, conditions and terms. -/
def selectForm (b : Block) (calls : List WrittenCall)
    (conditions : List (WrittenCondition Block × Connector)) (groups : List TableColumn)
    (havings : List (WrittenHaving × Connector)) (terms : List WrittenTerm) :
    WrittenSelect Block where
  results := chosenResults b ++ calls.map .call ++ scalarResults b
  items := (fromItems b).map (itemForm b)
  derived := (b.subqueriesIn .fromClause).map fun s => (s.block, s.aliasName)
  conditions := conditions
  groups := groups
  havings := havings
  terms := terms
  limit := b.limit

variable {calls : List WrittenCall} {conditions : List (WrittenCondition Block × Connector)}
  {groups : List TableColumn} {havings : List (WrittenHaving × Connector)}
  {terms : List WrittenTerm} {g : Block → String}

theorem arranged_selectForm (h : b.Canonical) :
    (selectForm b calls conditions groups havings terms).Arranged := by
  have hnames : (selectForm b calls conditions groups havings terms).tables.Perm
      (b.tables.map (·.name)) := by
    rw [WrittenSelect.tables, selectForm, h.names_items]
    exact (tables_fromItems_perm h.ids).map _
  refine ⟨hnames.nodup_iff.2 h.names, fun i hi => ?_, h.grouped, fun r hr c hc => ?_⟩
  · obtain ⟨item, hitem, rfl⟩ := List.mem_map.1 hi
    exact h.tied_item hitem
  · rcases List.mem_append.1 hr with hr | hr
    · rcases List.mem_append.1 hr with hr | hr
      · obtain ⟨t, ht, htable⟩ := (column_chosen hr).2 c hc
        rw [htable]
        exact hnames.mem_iff.2 (List.mem_map_of_mem ht)
      · obtain ⟨a, -, rfl⟩ := List.mem_map.1 hr
        cases hc
    · obtain ⟨s, -, rfl⟩ := List.mem_map.1 hr
      cases hc

theorem mem_subqueriesIn {role : SubqueryRole} {s : Subquery} :
    s ∈ b.subqueriesIn role ↔ s ∈ b.subqueries ∧ s.role = role := by
  simp [subqueriesIn]

theorem nested_selectForm
    (hconditions : ∀ c ∈ conditions, ∀ q ∈ c.1.test.nested, ∃ s ∈ b.subqueries, s.block = q) :
    ∀ q ∈ (selectForm b calls conditions groups havings terms).nested,
      ∃ s ∈ b.subqueries, s.block = q := by
  intro q hq
  rcases WrittenSelect.mem_nested.1 hq with ⟨d, hd, rfl⟩ | ⟨r, hr, d, hd, rfl⟩ | ⟨c, hc, hq⟩
  · obtain ⟨s, hs, rfl⟩ := List.mem_map.1 hd
    exact ⟨s, (mem_subqueriesIn.1 hs).1, rfl⟩
  · rcases List.mem_append.1 hr with hr | hr
    · rcases List.mem_append.1 hr with hr | hr
      · rw [(column_chosen hr).1] at hd
        cases hd
      · obtain ⟨a, -, rfl⟩ := List.mem_map.1 hr
        cases hd
    · obtain ⟨s, hs, rfl⟩ := List.mem_map.1 hr
      obtain rfl := Option.some.inj hd
      exact ⟨s, (mem_subqueriesIn.1 hs).1, rfl⟩
  · exact hconditions c hc q hq

theorem plain_selectForm (h : b.Canonical) (hsource : b.hasNoSource = false)
    (hcalls : ∀ a ∈ calls, (∀ c ∈ a.argument, c.Plain) ∧ PlainAlias a.aliasName)
    (hconditions : ∀ c ∈ conditions, c.1.column.Plain) (hgroups : ∀ c ∈ groups, c.Plain)
    (hhavings : ∀ k ∈ havings, ∀ c ∈ k.1.argument, c.Plain)
    (hterms : ∀ t ∈ terms, t.column.Plain) :
    (selectForm b calls conditions groups havings terms).Plain := by
  have halias : ∀ role, role ≠ .whereClause → ∀ s ∈ b.subqueriesIn role,
      PlainAlias s.aliasName := by
    rintro role hrole s hs
    obtain ⟨hmem, rfl⟩ := mem_subqueriesIn.1 hs
    exact h.subqueries s hmem hrole
  refine ⟨fun r hr => ?_, fun i hi => ?_, fun d hd => ?_, hconditions, hgroups, hhavings, hterms,
    h.limit, ?_⟩
  · rcases List.mem_append.1 hr with hr | hr
    · rcases List.mem_append.1 hr with hr | hr
      · exact h.plain_chosen hr
      · obtain ⟨a, ha, rfl⟩ := List.mem_map.1 hr
        exact hcalls a ha
    · obtain ⟨s, hs, rfl⟩ := List.mem_map.1 hr
      exact halias .selectList (by decide) s hs
  · obtain ⟨item, hitem, rfl⟩ := List.mem_map.1 hi
    exact h.plain_item hitem
  · obtain ⟨s, hs, rfl⟩ := List.mem_map.1 hd
    exact halias .fromClause (by decide) s hs
  · rcases hasNoSource_eq_false_iff.1 hsource with hne | ⟨s, hs, hrole⟩
    · left
      obtain ⟨t, ht⟩ := List.exists_mem_of_ne_nil _ hne
      have hplaced := (tables_fromItems_perm h.ids).mem_iff.2 ht
      obtain ⟨item, hitem, -⟩ := List.mem_flatMap.1 hplaced
      exact List.ne_nil_of_mem (List.mem_map_of_mem hitem)
    · right
      exact List.ne_nil_of_mem (List.mem_map_of_mem (mem_subqueriesIn.2 ⟨hs, hrole⟩))

theorem writtenAs_selectForm (h : b.Canonical) (hsource : b.hasNoSource = false)
    (hcalls : (calls.map fun a => aliased (call a.function a.argument.text) a.aliasName) =
      b.aggregates.map fun a => aliased (call a.function a.expression) a.aliasName)
    (hgroups : groups.map (·.text) = b.groupBy.map (·.column))
    (hhavings : (havings.map fun k => (k.1.text, k.2)) =
      b.having.map fun k => (havingText k, k.connector))
    (hterms : terms.map (·.text) = b.orderBy.map fun o => o.column ++ " " ++ o.direction.sql)
    (hconditions : (conditions.map fun c => (c.1.text g, c.2)) =
      b.filters.map fun f => (filterText (nestedTexts b g) f, f.connector)) :
    WrittenAs b (nestedTexts b g) (selectForm b calls conditions groups havings terms) g := by
  refine ⟨hsource, ?_, ?_, hconditions.symm, hgroups.symm, hhavings.symm, hterms.symm, rfl⟩
  · rw [nestedItems_nestedTexts, selectForm, List.map_append, List.map_append, text_chosenResults,
      ← hcalls, scalarResults, List.map_map, List.map_map]
    rfl
  · rw [nestedItems_nestedTexts, selectForm, List.map_map, List.map_map]
    congr 1
    exact List.map_congr_left fun item hitem => fromItem_itemForm (h.plain_item hitem)

/-- **A canonical block is written as a select.** -/
theorem exists_written (h : b.Canonical) (hsource : b.hasNoSource = false) :
    ∃ x : WrittenSelect Block, x.Plain ∧ x.Arranged ∧
      (∀ q ∈ x.nested, ∃ s ∈ b.subqueries, s.block = q) ∧
        ∀ g, WrittenAs b (nestedTexts b g) x g := by
  obtain ⟨calls, hcalls, hcallsPlain⟩ := exists_map_eq (l := b.aggregates)
    (f := fun a => aliased (call a.function a.expression) a.aliasName)
    (h := fun c : WrittenCall => aliased (call c.function c.argument.text) c.aliasName)
    (P := fun c => (∀ a ∈ c.argument, a.Plain) ∧ PlainAlias c.aliasName) fun a ha => by
      obtain ⟨hexpression, halias⟩ := h.aggregates a ha
      obtain ⟨argument, hargument, hplain⟩ := h.exists_argument hexpression
      exact ⟨⟨a.function, argument, a.aliasName⟩, by rw [hargument], hplain, halias⟩
  obtain ⟨conditions, hconditions, hconditionsPlain⟩ := exists_map_eq (l := b.filters)
    (f := fun f => ((fun g => filterText (nestedTexts b g) f), f.connector))
    (h := fun c : WrittenCondition Block × Connector => ((fun g => c.1.text g), c.2))
    (P := fun c => c.1.column.Plain ∧ ∀ q ∈ c.1.test.nested, ∃ s ∈ b.subqueries, s.block = q)
    fun f hf => by
      obtain ⟨c, hc, hP⟩ := h.exists_condition (h.filters f hf)
      exact ⟨(c, f.connector), by rw [hc], hP⟩
  obtain ⟨groups, hgroups, hgroupsPlain⟩ := exists_map_eq (l := b.groupBy) (f := (·.column))
    (h := TableColumn.text) (P := TableColumn.Plain) fun k hk => h.exists_column (h.groupBy k hk)
  obtain ⟨havings, hhavings, hhavingsPlain⟩ := exists_map_eq (l := b.having)
    (f := fun k => (havingText k, k.connector))
    (h := fun w : WrittenHaving × Connector => (w.1.text, w.2))
    (P := fun w => ∀ c ∈ w.1.argument, c.Plain) fun k hk => by
      obtain ⟨w, hw, hplain⟩ := h.exists_having hk
      exact ⟨(w, k.connector), by rw [hw], hplain⟩
  obtain ⟨terms, hterms, htermsPlain⟩ := exists_map_eq (l := b.orderBy)
    (f := fun o => o.column ++ " " ++ o.direction.sql) (h := WrittenTerm.text)
    (P := fun t => t.column.Plain) fun o ho => by
      obtain ⟨c, hc, hplain⟩ := h.exists_column (h.orderBy o ho)
      exact ⟨⟨c, o.direction⟩, by rw [WrittenTerm.text, hc], hplain⟩
  refine ⟨selectForm b calls conditions groups havings terms, ?_, h.arranged_selectForm, ?_,
    fun g => ?_⟩
  · exact h.plain_selectForm hsource hcallsPlain (fun c hc => (hconditionsPlain c hc).1)
      hgroupsPlain hhavingsPlain htermsPlain
  · exact nested_selectForm fun c hc => (hconditionsPlain c hc).2
  · refine h.writtenAs_selectForm hsource hcalls hgroups hhavings hterms ?_
    have happlied := congrArg (List.map fun p : (((Block → String) → String) × Connector) =>
      (p.1 g, p.2)) hconditions
    simpa only [List.map_map, Function.comp_def] using happlied

end Block.Canonical

end QueryCanvas
