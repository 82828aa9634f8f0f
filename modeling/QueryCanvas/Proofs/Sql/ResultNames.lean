import Mathlib.Data.List.Induction
import Mathlib.Data.List.Pairwise
import QueryCanvas.Proofs.Canvas.Results
import QueryCanvas.Proofs.Reading.Drawn
import QueryCanvas.Proofs.Sql.WrittenParameters

/-!
# The names of results

A query exposes a chosen column under its own name, and an aggregate or a nested query under its
alias, if it has one.  A block offers these names to the queries around it, each once and in the
order in which the results are written.  There is one exception: a column with an aggregate around
it is offered under its own name if the aggregate has no alias, though the query exposes no such
name.  This cannot happen to a block that is read off a text.
-/

set_option autoImplicit false

namespace QueryCanvas.Sql

open Block (addNew mem_addNew)

/-- An item of a list of results. -/
inductive ResultItem where
  /-- A chosen column of a table. -/
  | column (table column : String)
  /-- A chosen column with an aggregate around it. -/
  | applied (function : AggregateFunction) (table column : String) (aliasName : Option String)
  | aggregate (a : SelectAggregate)
  /-- A nested query, with its text. -/
  | scalar (text : String) (aliasName : Option String)

namespace ResultItem

/-- The item as it is written. -/
def text : ResultItem → String
  | column t c => columnRef t c
  | applied f t c a => aliased (call f (columnRef t c)) a
  | aggregate a => aliased (call a.function a.expression) a.aliasName
  | scalar text a => aliased text a

/-- The name under which a query exposes the item. -/
def name? : ResultItem → Option String
  | column _ c => some c
  | applied _ _ _ a => a
  | aggregate a => a.aliasName
  | scalar _ a => a

/-- The column that has an aggregate without an alias around it. -/
def unnamed? : ResultItem → Option String
  | applied _ _ c none => some c
  | _ => none

/-- The name under which a block offers the item. -/
def offered? (item : ResultItem) : Option String := item.name?.or item.unnamed?

theorem name?_of_unnamed? {item : ResultItem} {c : String} (h : item.unnamed? = some c) :
    item.name? = none := by
  cases item with
  | applied f t c a =>
    cases a with
    | none => rfl
    | some name => cases h
  | _ => cases h

end ResultItem

/-- The items that a table adds to the results. -/
def tableItems (t : Table) : List ResultItem :=
  t.orderedSelection.map fun column =>
    match t.aggregates.find? column with
    | some a => .applied a.function t.name column a.aliasName
    | none => .column t.name column

/-- The items of the results of a block, given the texts of its nested queries. -/
def resultItems (b : Block) (nested : List (SubqueryOf String)) : List ResultItem :=
  b.tables.flatMap tableItems ++ b.aggregates.map .aggregate
    ++ (nested.filter (·.role = .selectList)).map fun s => .scalar s.block s.aliasName

/-- The items of the results of a block as they are written in a layout. -/
def results (l : Layout) (b : Block) : List ResultItem :=
  resultItems b (renderNested l b.subqueries)

/-- The list of results as it is written. -/
def resultList (items : List ResultItem) : String :=
  if items.isEmpty then noColumns else commaList (items.map ResultItem.text)

/-- The names under which a query exposes its results. -/
def resultNames (items : List ResultItem) : List String := items.filterMap ResultItem.name?

/-- The columns that have an aggregate without an alias around them. -/
def unnamedColumns (items : List ResultItem) : List String := items.filterMap ResultItem.unnamed?

/-- The names under which a block offers its results: those that they have, and the columns with
unnamed aggregates around them. -/
def offeredNames (items : List ResultItem) : List String := items.filterMap ResultItem.offered?

/-- Each column with an unnamed aggregate around it is also the name of a result, and no other name
comes up for the first time between the two. -/
def NamedInPlace (items : List ResultItem) : Prop :=
  ∀ k < items.length, ∀ c ∈ items[k]?.bind ResultItem.unnamed?,
    ∃ j < items.length, items[j]?.bind ResultItem.name? = some c ∧
      ∀ y ∈ resultNames (items.take j), y = c ∨ y ∈ offeredNames (items.take k)

instance (items : List ResultItem) : Decidable (NamedInPlace items) :=
  inferInstanceAs (Decidable (∀ k < items.length, ∀ c ∈ items[k]?.bind ResultItem.unnamed?,
    ∃ j < items.length, items[j]?.bind ResultItem.name? = some c ∧
      ∀ y ∈ resultNames (items.take j), y = c ∨ y ∈ offeredNames (items.take k)))

variable {b : Block} {items : List ResultItem} {x : String}

/-! ## The text of the results -/

theorem map_text_tableItems (t : Table) : (tableItems t).map ResultItem.text = chosenColumns t := by
  rw [tableItems, List.map_map, chosenColumns]
  refine List.map_congr_left fun c _ => ?_
  cases hfound : t.aggregates.find? c <;> simp only [Function.comp_apply, hfound] <;> rfl

/-- The list of results is written item by item. -/
theorem selectList_eq_resultList (b : Block) (nested : List (SubqueryOf String)) :
    selectList b nested = resultList (resultItems b nested) := by
  have htexts : (resultItems b nested).map ResultItem.text =
      b.tables.flatMap chosenColumns
        ++ b.aggregates.map (fun a => aliased (call a.function a.expression) a.aliasName)
        ++ nestedItems nested .selectList := by
    rw [resultItems, List.map_append, List.map_append, List.map_flatMap, List.map_map,
      List.map_map]
    simp only [map_text_tableItems]
    rfl
  rw [resultList, htexts, ← List.isEmpty_map (f := ResultItem.text), htexts]
  rfl

/-- The query of a block that reads from something begins with its results. -/
theorem renderBlock_results (l : Layout) (h : b.hasNoSource = false) :
    ∃ rest, renderBlock l b =
      "SELECT " ++ resultList (results l b) ++ l.clauseBreak
        ++ rest := by
  rw [renderBlock_eq, blockText, h, results, ← selectList_eq_resultList]
  simp only [Bool.false_eq_true, if_false, List.cons_append, List.nil_append,
    String.intercalate_cons_cons]
  exact ⟨_, rfl⟩

/-! ## The names that a block offers -/

theorem addNew_append (known names names' : List String) :
    addNew known (names ++ names') = addNew (addNew known names) names' := List.foldl_append

theorem addNew_singleton_of_mem {known : List String} {name : String} (h : name ∈ known) :
    addNew known [name] = known := if_pos (List.contains_iff_mem.2 h)

theorem nodup_addNew {known : List String} (h : known.Nodup) (names : List String) :
    (addNew known names).Nodup := by
  induction names generalizing known with
  | nil => exact h
  | cons name rest ih =>
    change (addNew (addNew known [name]) rest).Nodup
    refine ih ?_
    rw [addNew, List.foldl_cons, List.foldl_nil]
    split
    · exact h
    · rename_i hnew
      have hnot : name ∉ known := fun hmem => hnew (List.contains_iff_mem.2 hmem)
      exact List.nodup_append.2 ⟨h, List.nodup_singleton name, fun a ha c hc heq =>
        hnot (List.mem_singleton.1 hc ▸ heq ▸ ha)⟩

theorem filterMap_offered_tableItems (t : Table) :
    (tableItems t).filterMap ResultItem.offered? = t.outputs := by
  rw [tableItems, List.filterMap_map, Table.outputs, ← List.filterMap_eq_map]
  refine List.filterMap_congr fun c _ => ?_
  cases hfound : t.aggregates.find? c with
  | none => simp [hfound, ResultItem.offered?, ResultItem.name?]
  | some a =>
    cases halias : a.aliasName <;>
      simp [hfound, halias, ResultItem.offered?, ResultItem.name?, ResultItem.unnamed?]

/-- A block offers its results in the order in which they are written. -/
theorem outputColumns_eq_offered (l : Layout) (b : Block) :
    b.outputColumns =
      addNew [] (offeredNames (results l b)) := by
  have haggregates : (b.aggregates.map ResultItem.aggregate).filterMap ResultItem.offered? =
      b.aggregates.filterMap (·.aliasName) := by
    rw [List.filterMap_map]
    refine List.filterMap_congr fun a _ => ?_
    exact Option.or_none
  have hscalars : (((renderNested l b.subqueries).filter (·.role = .selectList)).map fun s =>
        ResultItem.scalar s.block s.aliasName).filterMap ResultItem.offered? =
      (b.subqueriesIn .selectList).filterMap (·.aliasName) := by
    rw [renderNested_eq, List.filterMap_map, List.filter_map, List.filterMap_map]
    refine List.filterMap_congr fun s _ => ?_
    exact Option.or_none
  rw [offeredNames, results, resultItems, List.filterMap_append, List.filterMap_append, haggregates,
    hscalars, List.filterMap_flatMap]
  simp only [filterMap_offered_tableItems, List.append_assoc]
  rfl

theorem mem_offeredNames : x ∈ offeredNames items ↔
    x ∈ resultNames items ∨ x ∈ unnamedColumns items := by
  simp only [offeredNames, resultNames, unnamedColumns, List.mem_filterMap]
  constructor
  · rintro ⟨item, hitem, hoffered⟩
    rcases Option.or_eq_some_iff.1 hoffered with hname | ⟨-, hunnamed⟩
    · exact .inl ⟨item, hitem, hname⟩
    · exact .inr ⟨item, hitem, hunnamed⟩
  · rintro (⟨item, hitem, hname⟩ | ⟨item, hitem, hunnamed⟩)
    · exact ⟨item, hitem, Option.or_eq_some_iff.2 (.inl hname)⟩
    · exact ⟨item, hitem,
        Option.or_eq_some_iff.2 (.inr ⟨ResultItem.name?_of_unnamed? hunnamed, hunnamed⟩)⟩

/-! ## The order of the names -/

/-- One name comes up among the items before another one does. -/
def Earlier (f : ResultItem → Option String) (items : List ResultItem) (y z : String) : Prop :=
  ∃ k, y ∈ (items.take k).filterMap f ∧ z ∉ (items.take k).filterMap f

section Earlier

variable {f : ResultItem → Option String} {y z : String}

theorem mem_filterMap_take {j k : Nat} (h : j ≤ k) (hy : y ∈ (items.take j).filterMap f) :
    y ∈ (items.take k).filterMap f :=
  ((List.take_prefix_take_left h).filterMap f).subset hy

theorem Earlier.asymm (h : Earlier f items y z) : ¬Earlier f items z y := by
  rintro ⟨k', hz', hy'⟩
  obtain ⟨k, hy, hz⟩ := h
  rcases Nat.le_total k k' with hle | hle
  · exact hy' (mem_filterMap_take hle hy)
  · exact hz (mem_filterMap_take hle hz')

/-- Names that are kept once come in the order in which they come up. -/
theorem addNew_pairwise (f : ResultItem → Option String) (items : List ResultItem) :
    (addNew [] (items.filterMap f)).Pairwise (Earlier f items) := by
  induction items using List.reverseRecOn with
  | nil => exact .nil
  | append_singleton items item ih =>
    have hmono {y z : String} (h : Earlier f items y z) : Earlier f (items ++ [item]) y z := by
      obtain ⟨k, hy, hz⟩ := h
      refine ⟨min k items.length, ?_⟩
      rw [List.take_append_of_le_length (Nat.min_le_right _ _), ← List.take_eq_take_min]
      exact ⟨hy, hz⟩
    have hold := ih.imp hmono
    rw [List.filterMap_append, addNew_append]
    cases hname : f item with
    | none => simpa [hname, addNew] using hold
    | some name =>
      have hlast : [item].filterMap f = [name] := by simp [hname]
      rw [hlast]
      by_cases hmem : name ∈ addNew [] (items.filterMap f)
      · rwa [addNew_singleton_of_mem hmem]
      · have hnew : addNew (addNew [] (items.filterMap f)) [name] =
            addNew [] (items.filterMap f) ++ [name] :=
          if_neg fun hcontains => hmem (List.contains_iff_mem.1 hcontains)
        rw [hnew]
        refine List.pairwise_append.2 ⟨hold, List.pairwise_singleton _ _, fun y hy z hz => ?_⟩
        rw [List.mem_singleton.1 hz]
        refine ⟨items.length, ?_⟩
        rw [List.take_left' rfl]
        simp only [mem_addNew, List.not_mem_nil, false_or] at hy hmem
        exact ⟨hy, hmem⟩

end Earlier

/-- Two members of a list are in order, one way or the other. -/
theorem of_pairwise {α : Type} {R : α → α → Prop} {l : List α} (h : l.Pairwise R) {y z : α}
    (hy : y ∈ l) (hz : z ∈ l) (hne : y ≠ z) : R y z ∨ R z y :=
  have : Std.Symm fun y z => R y z ∨ R z y := ⟨fun _ _ => Or.symm⟩
  (h.imp (S := fun y z => R y z ∨ R z y) .inl).forall hy hz hne

theorem names_subset_offered (h : x ∈ resultNames items) : x ∈ offeredNames items :=
  mem_offeredNames.2 (.inl h)

/-- What comes up among the items comes up in one of them for the first time. -/
theorem exists_first {f : ResultItem → Option String} (h : x ∈ items.filterMap f) :
    ∃ j < items.length, items[j]?.bind f = some x ∧ x ∉ (items.take j).filterMap f := by
  induction items with
  | nil => cases h
  | cons item rest ih =>
    by_cases hitem : f item = some x
    · exact ⟨0, Nat.zero_lt_succ _, by simpa using hitem, by simp⟩
    · have hrest : x ∈ rest.filterMap f := by
        obtain ⟨other, hother, hname⟩ := List.mem_filterMap.1 h
        rcases List.mem_cons.1 hother with rfl | hother
        · exact absurd hname hitem
        · exact List.mem_filterMap.2 ⟨other, hother, hname⟩
      obtain ⟨j, hj, hname, hnew⟩ := ih hrest
      refine ⟨j + 1, Nat.succ_lt_succ hj, by simpa using hname, fun hmem => ?_⟩
      obtain ⟨other, hother, hname'⟩ := List.mem_filterMap.1 hmem
      rw [List.take_succ_cons] at hother
      rcases List.mem_cons.1 hother with rfl | hother
      · exact hitem hname'
      · exact hnew (List.mem_filterMap.2 ⟨other, hother, hname'⟩)

/-- The names that are offered are the names of the results, in their order, exactly if unnamed
aggregates are in place. -/
theorem addNew_offeredNames_iff :
    addNew [] (offeredNames items) = addNew [] (resultNames items) ↔ NamedInPlace items := by
  have hoffered : (addNew [] (offeredNames items)).Pairwise (Earlier ResultItem.offered? items) :=
    addNew_pairwise ResultItem.offered? items
  have hnames : (addNew [] (resultNames items)).Pairwise (Earlier ResultItem.name? items) :=
    addNew_pairwise ResultItem.name? items
  have hmem {names : List String} {y : String} : y ∈ addNew [] names ↔ y ∈ names := by
    rw [mem_addNew, or_iff_right List.not_mem_nil]
  constructor
  · intro heq k hk c hc
    obtain ⟨item, hitem, hunnamed⟩ := Option.bind_eq_some_iff.1 hc
    have hitem? : item.offered? = some c := by
      rw [ResultItem.offered?, ResultItem.name?_of_unnamed? hunnamed, Option.none_or, hunnamed]
    have hthen : offeredNames (items.take (k + 1)) = offeredNames (items.take k) ++ [c] := by
      rw [offeredNames, List.take_add_one, hitem, List.filterMap_append, Option.toList_some]
      simp [hitem?, offeredNames]
    have hthere : c ∈ offeredNames (items.take (k + 1)) := by
      rw [hthen]
      exact List.mem_append_right _ (List.mem_singleton_self c)
    have hkept : c ∈ addNew [] (resultNames items) := by
      rw [← heq, hmem, ← List.take_length (l := items)]
      exact mem_filterMap_take (f := ResultItem.offered?) hk hthere
    obtain ⟨j, hj, hname, hnew⟩ := exists_first (hmem.1 hkept)
    refine ⟨j, hj, hname, fun y hy => ?_⟩
    by_contra hnot
    obtain ⟨hne, hlater⟩ := not_or.1 hnot
    -- the name would come up behind the column among all names, but before it among the results
    have hcolumn : Earlier ResultItem.offered? items c y := by
      refine ⟨k + 1, hthere, fun hmem : y ∈ offeredNames (items.take (k + 1)) => ?_⟩
      rw [hthen] at hmem
      exact (List.mem_append.1 hmem).elim hlater fun hlast => hne (List.mem_singleton.1 hlast)
    have hresult : Earlier ResultItem.name? items y c := ⟨j, hy, hnew⟩
    have hykept : y ∈ addNew [] (resultNames items) := by
      rw [hmem, ← List.take_length (l := items)]
      exact mem_filterMap_take (f := ResultItem.name?) (Nat.le_of_lt hj) hy
    rw [heq] at hoffered
    rcases of_pairwise (hoffered.and hnames) hkept hykept (Ne.symm hne) with ⟨-, h⟩ | ⟨h, -⟩
    · exact hresult.asymm h
    · exact hcolumn.asymm h
  · intro h
    have hsame : ∀ y, y ∈ offeredNames items ↔ y ∈ resultNames items := by
      refine fun y => ⟨fun hy => ?_, names_subset_offered⟩
      refine (mem_offeredNames.1 hy).elim id fun hunnamed => ?_
      obtain ⟨item, hitem, hc⟩ := List.mem_filterMap.1 hunnamed
      obtain ⟨k, hk⟩ := List.mem_iff_getElem?.1 hitem
      obtain ⟨j, -, hname, -⟩ := h k (List.getElem?_eq_some_iff.1 hk).1 y (by rw [hk]; exact hc)
      obtain ⟨other, hother, hname⟩ := Option.bind_eq_some_iff.1 hname
      exact List.mem_filterMap.2 ⟨other, List.mem_of_getElem? hother, hname⟩
    -- what comes up earlier among the results does so among all names
    have hkept {y z : String} (hyz : Earlier ResultItem.name? items y z) :
        ¬Earlier ResultItem.offered? items z y := by
      rintro ⟨k', hz', hy'⟩
      obtain ⟨k, hy, hz⟩ := hyz
      have hlt : k' < k := by
        by_contra hle
        exact hy' (names_subset_offered (mem_filterMap_take (Nat.le_of_not_lt hle) hy))
      have hunnamed : z ∈ unnamedColumns (items.take k') :=
        (mem_offeredNames.1 hz').resolve_left fun hname => hz (mem_filterMap_take hlt.le hname)
      obtain ⟨item, hitem, hc⟩ := List.mem_filterMap.1 hunnamed
      obtain ⟨i, hi⟩ := List.mem_iff_getElem?.1 hitem
      obtain ⟨hik, hitem⟩ : i < k' ∧ items[i]? = some item := by
        rw [List.getElem?_take] at hi
        split at hi
        · exact ⟨‹_›, hi⟩
        · cases hi
      obtain ⟨j, hj, hname, hbetween⟩ := h i (List.getElem?_eq_some_iff.1 hitem).1 z
        (by rw [hitem]; exact hc)
      have hkj : k ≤ j := by
        by_contra hlt
        obtain ⟨other, hother, hname⟩ := Option.bind_eq_some_iff.1 hname
        refine hz (List.mem_filterMap.2 ⟨other, ?_, hname⟩)
        exact List.mem_of_getElem? (i := j) (by rw [List.getElem?_take_of_lt (by omega), hother])
      rcases hbetween y (mem_filterMap_take hkj hy) with rfl | hearlier
      · exact hz hy
      · exact hy' (mem_filterMap_take (f := ResultItem.offered?) hik.le hearlier)
    have hbefore : (addNew [] (offeredNames items)).Pairwise
        fun y z => ¬Earlier ResultItem.offered? items z y := hoffered.imp Earlier.asymm
    refine List.Perm.eq_of_pairwise ?_ hbefore (hnames.imp hkept) ?_
    · intro y z hy hz hyz hzy
      by_contra hne
      exact (of_pairwise hoffered hy (hmem.2 ((hsame z).2 (hmem.1 hz))) hne).elim hzy hyz
    · refine (List.perm_ext_iff_of_nodup (nodup_addNew .nil _) (nodup_addNew .nil _)).2 fun y => ?_
      rw [hmem, hmem, hsame]

theorem mem_outputColumns_iff (l : Layout) (b : Block) : x ∈ b.outputColumns ↔
    x ∈ resultNames (results l b) ∨ x ∈ unnamedColumns (results l b) := by
  rw [outputColumns_eq_offered l, mem_addNew, ← mem_offeredNames, or_iff_right List.not_mem_nil]

/-- Where there are no aggregates around columns, none is unnamed. -/
theorem unnamedColumns_of_plain (l : Layout) (h : ∀ t ∈ b.tables, t.aggregates = .empty) :
    unnamedColumns (results l b) = [] := by
  refine List.filterMap_eq_nil_iff.2 fun item hitem => ?_
  rw [results, resultItems, List.mem_append, List.mem_append] at hitem
  rcases hitem with (hitem | hitem) | hitem
  · obtain ⟨t, ht, hitem⟩ := List.mem_flatMap.1 hitem
    obtain ⟨c, -, rfl⟩ := List.mem_map.1 hitem
    rw [h t ht]
    rfl
  · obtain ⟨a, -, rfl⟩ := List.mem_map.1 hitem
    rfl
  · obtain ⟨s, -, rfl⟩ := List.mem_map.1 hitem
    rfl

theorem namedInPlace_of_nil (h : unnamedColumns items = []) : NamedInPlace items := by
  intro k hk c hc
  rw [List.getElem?_eq_getElem hk, Option.bind_some,
    List.filterMap_eq_nil_iff.1 h _ (List.getElem_mem hk)] at hc
  cases hc

/-- **A block offers the names that its query exposes, but for columns with unnamed aggregates.**
The query of a block begins with its results.  All names that it exposes are offered, each once.
They are all that is offered exactly if each column with an unnamed aggregate around it is also the
name of a result, and they are offered in their order exactly if no other name comes up between the
two.  A block that is read off a query offers just the names that it exposes, so a drawn block with
results of the same names offers the same. -/
theorem outputColumns_exposed_iff (l : Layout) (b : Block) :
    (b.hasNoSource = false → ∃ rest,
        renderBlock l b = "SELECT " ++ resultList (results l b) ++ l.clauseBreak ++ rest) ∧
      b.outputColumns.Nodup ∧
      (∀ x ∈ resultNames (results l b), x ∈ b.outputColumns) ∧
      ((∀ x ∈ b.outputColumns, x ∈ resultNames (results l b)) ↔
        ∀ c ∈ unnamedColumns (results l b), c ∈ resultNames (results l b)) ∧
      (b.outputColumns = addNew [] (resultNames (results l b)) ↔ NamedInPlace (results l b)) ∧
      ∀ s deep q n b' n', (readBlock s deep q).run n = (.ok b', n') →
        b'.outputColumns = addNew [] (resultNames (results l b')) ∧
          ((∀ c ∈ unnamedColumns (results l b), c ∈ resultNames (results l b)) →
            (∀ x, x ∈ resultNames (results l b) ↔ x ∈ resultNames (results l b')) →
              ∀ x, x ∈ b.outputColumns ↔ x ∈ b'.outputColumns) := by
  refine ⟨renderBlock_results l, ?_, fun x hx => (mem_outputColumns_iff l b).2 (.inl hx), ?_, ?_,
    ?_⟩
  · rw [outputColumns_eq_offered l]
    exact nodup_addNew List.nodup_nil _
  · simp only [mem_outputColumns_iff l b]
    exact ⟨fun h c hc => h c (.inr hc), fun h x hx => hx.elim id (h x)⟩
  · rw [outputColumns_eq_offered l, addNew_offeredNames_iff]
  · intro s deep q n b' n' hread
    have hdrawn := (Block.everywhere_iff.1 ((readBlock_drawn s deep q n).result b' n' hread)).1
    have hplain := unnamedColumns_of_plain l hdrawn.plain
    refine ⟨?_, fun hunnamed hsame x => ?_⟩
    · rw [outputColumns_eq_offered l, addNew_offeredNames_iff]
      exact namedInPlace_of_nil hplain
    · rw [mem_outputColumns_iff l, mem_outputColumns_iff l, hplain,
        or_iff_left List.not_mem_nil, or_iff_left_of_imp (hunnamed x)]
      exact hsame x

/-- The results `t.x`, `AVG(u.y) AS mean`, `SUM(u.x)`, `COUNT(*) AS n` and `MAX(t.x)`. -/
def summed : Block :=
  { Block.empty with
    tables := [{ Table.create (EntityId.minted 0) "t" ["x"] default with selected := ["x"] },
      { Table.create (EntityId.minted 1) "u" ["y", "x"] default with
        selected := ["x", "y"]
        aggregates := .ofList [("x", ⟨.sum, none⟩), ("y", ⟨.avg, some "mean"⟩)] }]
    aggregates := [⟨EntityId.minted 2, .count, "*", some "n"⟩,
      ⟨EntityId.minted 3, .max, "t.x", none⟩] }

/-- The sum without an alias is offered as the column in front of it. -/
theorem outputColumns_exposed_summed : NamedInPlace (results .compact summed) ∧
    summed.outputColumns = ["x", "mean", "n"] := by
  have hnamed : NamedInPlace (results .compact summed) := by decide +kernel
  obtain ⟨-, -, -, -, hoffered, -⟩ := outputColumns_exposed_iff .compact summed
  refine ⟨hnamed, ?_⟩
  rw [hoffered.2 hnamed]
  decide +kernel

/-- A table of which nothing but the sum of a column is chosen. -/
def sumOnly : Block :=
  { Block.empty with
    tables := [{ Table.create (EntityId.minted 0) "t" ["x"] default with
      selected := ["x"], aggregates := .ofList [("x", ⟨.sum, none⟩)] }] }

/-- The column is offered, though the query exposes no name. -/
theorem column_not_exposed :
    sumOnly.outputColumns = ["x"] ∧ renderBlock .compact sumOnly = "SELECT SUM(t.x) FROM t" ∧
      resultNames (results .compact sumOnly) = [] := by
  decide +kernel

end QueryCanvas.Sql
