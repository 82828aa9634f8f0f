import QueryCanvas.Proofs.CarryOver.Nested

/-!
# What a block says after it took over identities

Names, conditions, joins, grouping, sorting and limit of a block are what they were before it took
over identities from another block.  Chosen columns and aggregates are so exactly where the
aggregates that go back around columns are in place, and nested queries where this holds of them
in turn.
-/

set_option autoImplicit false

namespace QueryCanvas

namespace Block

/-! ## Shapes by the members of lists -/

/-- A nested query with the shape of its block. -/
def shaped (s : Subquery) : SubqueryOf BlockShape :=
  ⟨s.id, s.role, s.aliasName, s.linkedFilter, s.frame, s.block.shape⟩

theorem nestedShapes_eq (subs : List Subquery) : nestedShapes subs = subs.map shaped := by
  induction subs with
  | nil => rfl
  | cons s rest ih => rw [nestedShapes, ih, List.map_cons]; rfl

theorem shape_eq (b : Block) : b.shape = b.shapeWith (b.subqueries.map shaped) := by
  rw [← nestedShapes_eq]
  cases b
  rfl

/-- Identifiers of tables and nested queries are different, and none of them is still to be given
out. -/
structure Identified (n : Nat) (b : Block) : Prop where
  tables : (b.tables.map (·.id)).Nodup
  nested : (b.subqueries.map (·.id)).Nodup
  before : ∀ id ∈ b.tables.map (·.id) ++ b.subqueries.map (·.id), ∀ k, n ≤ k →
    id ≠ EntityId.minted k

variable {n n' : Nat} {ctes : List EntityId} {old b : Block}

theorem Identified.apart {ids : List EntityId} (hold : old.Identified n) (h : Serial n n' ids) :
    ∀ id ∈ old.tables.map (·.id) ++ old.subqueries.map (·.id), id ∉ ids := by
  intro id hid hmem
  obtain ⟨k, hk, -, rfl⟩ := h.between id hmem
  exact hold.before _ hid k hk rfl

/-! ## Tables and joins -/

theorem Drawn.matchingTables (hb : b.Drawn n n' ctes) (hold : old.Identified n) :
    Matching (tableMatches old b.tables) :=
  matching_tables hold.tables hb.tableIds.nodup hb.names fun id hid =>
    hold.apart hb.tableIds id (List.mem_append_left _ hid)

theorem sameBox_carriedTable (old b : Block) (t : Table) :
    (carryTable old t).SameBox (carriedTable old b t) := by
  unfold carriedTable
  refine List.foldlRecOn (motive := (carryTable old t).SameBox) _ _ ⟨rfl, rfl⟩ fun u hu p _ => ?_
  have hput := Table.sameBox_setAggregate u p.column (some p.aggregate)
  exact ⟨hput.1.trans hu.1, hput.2.trans hu.2⟩

theorem carriedTable_id (old b : Block) (t : Table) :
    (carriedTable old b t).id = (carryTable old t).id :=
  (sameBox_carriedTable old b t).1

theorem carriedTable_cte (old b : Block) (t : Table) : (carriedTable old b t).cte = t.cte := by
  rw [(sameBox_carriedTable old b t).2]
  unfold carryTable
  split <;> rfl

theorem carriedTable_name (old b : Block) (t : Table) : (carriedTable old b t).name = t.name :=
  (Table.name_foldl_put _ _).trans (name_carryTable old t)

/-- A table is found by its identifier, and afterwards by that it has taken over. -/
theorem table?_carryOver (hb : b.Drawn n n' ctes) (hold : old.Identified n) {id : EntityId}
    (hid : id ∈ b.tables.map (·.id)) :
    ∃ t, b.table? id = some t ∧
      (old.carryOver b).table? ((tableRenaming old b.tables).apply id) =
        some (carriedTable old b t) := by
  obtain ⟨t, ht, rfl⟩ := List.mem_map.1 hid
  have hmatching := hb.matchingTables hold
  refine ⟨t, find?_of_nodup hb.tableIds.nodup ht, ?_⟩
  have happly : (tableRenaming old b.tables).apply t.id = (carriedTable old b t).id := by
    rw [carriedTable_id, carryTable_id, tableRenaming_eq]
    exact Renaming.apply_ofMatches hmatching.news (List.mem_map_of_mem ht)
  have hids : ((old.carryOver b).tables.map (·.id)).Nodup := by
    rw [carryOver_tables old b hb.nodup_names, List.map_map]
    have hsame : ((fun t : Table => t.id) ∘ carriedTable old b) = (·.id) ∘ carryTable old := by
      funext t
      exact carriedTable_id old b t
    rw [hsame, ← List.map_map, map_carryTable_id]
    exact hmatching.nodup_kept
  rw [happly]
  refine find?_of_nodup hids ?_
  rw [carryOver_tables old b hb.nodup_names]
  exact List.mem_map_of_mem ht

/-- What is carried over of a block, up to its tables and aggregates. -/
theorem carryOver_eq_renamed (old b : Block) :
    ∃ tables aggregates, old.carryOver b = { renamed old b with
      tables, aggregates
      filters := (carryFilters old.filters b.filters).map
        (relinkFilter (subqueryRenaming old.subqueries b.subqueries))
      subqueries := (carryNested old.subqueries b.subqueries).map fun s =>
        { s with
          linkedFilter := s.linkedFilter.map (filterRenaming old.filters b.filters).apply } } := by
  obtain ⟨tables, aggregates, h⟩ := foldl_putBack (takenBack old b) (renamed old b)
  rw [← restoreAggregates_renamed] at h
  unfold renamed at h
  refine ⟨tables, aggregates, ?_⟩
  rw [carryOver_eq, carryWith, h]
  rfl

theorem carryOver_joins (old b : Block) :
    (old.carryOver b).joins = b.joins.map (carryJoin old (tableRenaming old b.tables)) := by
  obtain ⟨tables, aggregates, h⟩ := carryOver_eq_renamed old b
  rw [h]
  rfl

/-- Joins say the same. -/
theorem joins_carryOver (hb : b.Drawn n n' ctes) (hold : old.Identified n) :
    (old.carryOver b).joins.filterMap (Join.shape? (old.carryOver b)) =
      b.joins.filterMap (Join.shape? b) := by
  rw [carryOver_joins, List.filterMap_map]
  refine List.filterMap_congr fun j hj => ?_
  obtain ⟨hsource, htarget, -⟩ := hb.joins j hj
  obtain ⟨s, hs, hs'⟩ := table?_carryOver hb hold hsource
  obtain ⟨t, ht, ht'⟩ := table?_carryOver hb hold htarget
  simp only [Function.comp_apply, Join.shape?, carryJoin, hs, hs', ht, ht', carriedTable_name]

/-! ## Nested queries and filters -/

/-- A matched nested query says what it said before. -/
def SaysSame (p : Subquery × Option Subquery) : Prop :=
  (carriedSubquery p).block.shape = p.1.block.shape

/-- A carried nested query with its shape; the link to a filter follows the filter. -/
def shapedPair (old b : Block) (p : Subquery × Option Subquery) : SubqueryOf BlockShape :=
  shaped { carriedSubquery p with
    linkedFilter :=
      (carriedSubquery p).linkedFilter.map (filterRenaming old.filters b.filters).apply }

theorem carryOver_subqueries (old b : Block) :
    (old.carryOver b).subqueries.map shaped =
      (paired old.subqueries b.subqueries).map (shapedPair old b) := by
  obtain ⟨tables, aggregates, h⟩ := carryOver_eq_renamed old b
  rw [h]
  show List.map shaped (List.map _ (carryNested _ _)) = _
  rw [carryNested_eq, List.map_map, List.map_map]
  rfl

theorem map_shaped_paired (old b : Block) :
    b.subqueries.map shaped = (paired old.subqueries b.subqueries).map fun p => shaped p.1 := by
  rw [← map_fst_paired old.subqueries b.subqueries, List.map_map, map_fst_paired]
  rfl

theorem Drawn.matchingNested (hb : b.Drawn n n' ctes) (hold : old.Identified n) :
    Matching (subqueryMatches old.subqueries b.subqueries) :=
  matching_subqueries hold.nested hb.nestedIds.nodup fun id hid =>
    hold.apart hb.nestedIds id (List.mem_append_right _ hid)

/-- A nested query is found by its identifier, and afterwards by that it has taken over. -/
theorem find?_shapedPair (hb : b.Drawn n n' ctes) (hold : old.Identified n)
    {p : Subquery × Option Subquery} (hp : p ∈ paired old.subqueries b.subqueries) :
    ((old.carryOver b).subqueries.map shaped).find?
        (·.id = (subqueryRenaming old.subqueries b.subqueries).apply p.1.id) =
      some (shapedPair old b p) := by
  have hmatching := hb.matchingNested hold
  have happly : (subqueryRenaming old.subqueries b.subqueries).apply p.1.id =
      (shapedPair old b p).id := by
    show _ = (carriedSubquery p).id
    rw [subqueryRenaming_eq, carriedSubquery_id]
    exact Renaming.apply_ofMatches hmatching.news (List.mem_map_of_mem hp)
  rw [happly, carryOver_subqueries]
  refine find?_of_nodup ?_ (List.mem_map_of_mem hp)
  rw [List.map_map]
  have hids := hmatching.nodup_kept
  rw [← map_carriedSubquery_id, carryNested_eq, List.map_map] at hids
  exact hids

theorem carryFilters_map {γ : Type} (g : Filter → γ) (hg : ∀ f id, g { f with id } = g f)
    (olds filters : List Filter) : (carryFilters olds filters).map g = filters.map g := by
  induction filters generalizing olds with
  | nil => cases olds <;> rfl
  | cons f rest ih =>
    cases olds with
    | nil => rfl
    | cons old olds =>
      rw [carryFilters, List.map_cons, List.map_cons, ih]
      split
      · rw [hg]
      · rfl

theorem carryOver_filters (old b : Block) :
    (old.carryOver b).filters = (carryFilters old.filters b.filters).map
      (relinkFilter (subqueryRenaming old.subqueries b.subqueries)) := by
  obtain ⟨tables, aggregates, h⟩ := carryOver_eq_renamed old b
  rw [h]

/-- A filter on a written value says the same. -/
theorem shape_relinkFilter_value {nested nested' : List (SubqueryOf BlockShape)} (r : Renaming)
    {f : Filter} (hf : f.operand.subquery? = none) :
    Filter.shape nested' (relinkFilter r f) = Filter.shape nested f := by
  unfold relinkFilter
  split
  · rename_i id hop
    rw [hop] at hf
    cases hf
  · simp only [Filter.shape, hf, Option.bind_none]

/-- A filter on a nested query says what that nested query says. -/
theorem shape_filter_linked {nested : List (SubqueryOf BlockShape)} {f : Filter} {id : EntityId}
    {s : SubqueryOf BlockShape} (hf : f.operand = .subquery id)
    (hs : nested.find? (·.id = id) = some s) :
    Filter.shape nested f = ⟨f.column, f.operator, "", some s.block, f.connector⟩ := by
  simp [Filter.shape, hf, Operand.subquery?, hs]

/-- A filter on a nested query, with the nested query that it is on. -/
theorem shape_filter_carryOver (hb : b.Drawn n n' ctes) (hold : old.Identified n) {f : Filter}
    (hf : f ∈ b.filters) {id : EntityId} (hop : f.operand = .subquery id) :
    ∃ p ∈ paired old.subqueries b.subqueries, p.1.id = id ∧
      Filter.shape (b.subqueries.map shaped) f =
        ⟨f.column, f.operator, "", some p.1.block.shape, f.connector⟩ ∧
      Filter.shape ((old.carryOver b).subqueries.map shaped)
          (relinkFilter (subqueryRenaming old.subqueries b.subqueries) f) =
        ⟨f.column, f.operator, "", some (carriedSubquery p).block.shape, f.connector⟩ := by
  obtain ⟨s, hs, rfl⟩ := List.mem_map.1 (hb.operands f hf id hop)
  obtain ⟨p, hp, hfst⟩ := exists_paired old.subqueries hs
  have hnodup : ((b.subqueries.map shaped).map (·.id)).Nodup := by
    rw [List.map_map]
    exact hb.nestedIds.nodup
  refine ⟨p, hp, by rw [hfst], ?_, ?_⟩
  · rw [hfst]
    exact shape_filter_linked hop (find?_of_nodup hnodup (List.mem_map_of_mem hs))
  · have hrelinked : (relinkFilter (subqueryRenaming old.subqueries b.subqueries) f).operand =
        .subquery ((subqueryRenaming old.subqueries b.subqueries).apply p.1.id) := by
      rw [hfst, relinkFilter, hop]
    rw [shape_filter_linked hrelinked (find?_shapedPair hb hold hp)]
    unfold relinkFilter
    split <;> rfl

/-- The filters of a block by the nested queries that they are on. -/
theorem filters_carryOver (old b : Block) :
    (old.carryOver b).shape.filters = updateLast ({ · with connector := .and })
      (b.filters.map fun f => Filter.shape ((old.carryOver b).subqueries.map shaped)
        (relinkFilter (subqueryRenaming old.subqueries b.subqueries) f)) := by
  rw [shape_eq]
  show updateLast _ ((old.carryOver b).filters.map _) = _
  rw [carryOver_filters, List.map_map, carryFilters_map]
  · rfl
  · intro f id
    simp only [Function.comp_apply, relinkFilter]
    split <;> rfl

theorem map_updateLast {α β : Type} {f : α → α} {g : α → β} (h : ∀ a, g (f a) = g a)
    (l : List α) : (updateLast f l).map g = l.map g := by
  induction l with
  | nil => rfl
  | cons a rest ih =>
    cases rest with
    | nil => simp [updateLast, h]
    | cons b rest => exact congrArg (g a :: ·) ih

/-- The filters say the same if the nested queries do. -/
theorem filters_of_says_same (hb : b.Drawn n n' ctes) (hold : old.Identified n)
    (h : ∀ p ∈ paired old.subqueries b.subqueries, SaysSame p) :
    (old.carryOver b).shape.filters = b.shape.filters := by
  rw [filters_carryOver, shape_eq b]
  refine congrArg _ (List.map_congr_left fun f hf => ?_)
  cases hop : f.operand with
  | value v => exact shape_relinkFilter_value _ (by rw [hop]; rfl)
  | subquery id =>
    obtain ⟨p, hp, -, hbefore, hafter⟩ := shape_filter_carryOver hb hold hf hop
    rw [hbefore, hafter, h p hp]

/-- Filters that say the same are on nested queries that do. -/
theorem says_same_of_filters (hb : b.Drawn n n' ctes) (hold : old.Identified n)
    (h : (old.carryOver b).shape.filters = b.shape.filters)
    {p : Subquery × Option Subquery} (hp : p ∈ paired old.subqueries b.subqueries)
    (hrole : p.1.role = .whereClause) : SaysSame p := by
  obtain ⟨f, hf, hop⟩ := hb.compared p.1 (mem_paired hp).1 hrole
  rw [filters_carryOver, shape_eq b] at h
  have hkeeps : ∀ fs : List (FilterShapeOf BlockShape),
      (updateLast ({ · with connector := .and }) fs).map (·.subquery) = fs.map (·.subquery) :=
    map_updateLast fun _ => rfl
  have hoperands := congrArg (List.map (·.subquery)) h
  simp only [shapeWith] at hoperands
  rw [hkeeps, hkeeps, List.map_map, List.map_map, List.map_inj_left] at hoperands
  obtain ⟨q, hq, hid, hbefore, hafter⟩ := shape_filter_carryOver hb hold hf hop
  have hsame : q.1 = p.1 :=
    List.inj_on_of_nodup_map hb.nestedIds.nodup (mem_paired hq).1 (mem_paired hp).1 hid
  have hblock := hoperands f hf
  simp only [Function.comp_apply, hbefore, hafter] at hblock
  have hpq : q = p := by
    refine List.inj_on_of_nodup_map (f := fun p : Subquery × Option Subquery => p.1.id) ?_ hq hp hid
    have hids := hb.nestedIds.nodup
    rw [← subqueryMatches_news old.subqueries, subqueryMatches, List.map_map] at hids
    exact hids
  rw [← hpq]
  exact Option.some.inj hblock

/-- The nested queries of a role that are no operands, by the pairs that they are in. -/
theorem subqueryShapes_map {ps : List (Subquery × Option Subquery)}
    {g : Subquery × Option Subquery → SubqueryOf BlockShape}
    (hg : ∀ p, (g p).role = p.1.role ∧ (g p).aliasName = p.1.aliasName) (role : SubqueryRole) :
    subqueryShapes (ps.map g) role =
      (ps.filter (·.1.role = role)).map fun p => ⟨p.1.role, p.1.aliasName, (g p).block⟩ := by
  rw [subqueryShapes, List.filter_map, List.map_map]
  have hrole : ((fun s : SubqueryOf BlockShape => decide (s.role = role)) ∘ g) =
      fun p => decide (p.1.role = role) := by
    funext p
    rw [Function.comp_apply, (hg p).1]
  rw [hrole]
  refine List.map_congr_left fun p _ => ?_
  rw [Function.comp_apply, (hg p).1, (hg p).2]

/-- The nested queries of a role stay the same exactly if each of them says the same. -/
theorem subqueryShapes_carryOver_iff (old b : Block) (role : SubqueryRole) :
    subqueryShapes ((old.carryOver b).subqueries.map shaped) role =
        subqueryShapes (b.subqueries.map shaped) role ↔
      ∀ p ∈ paired old.subqueries b.subqueries, p.1.role = role → SaysSame p := by
  rw [carryOver_subqueries, map_shaped_paired old b,
    subqueryShapes_map (fun p => carriedSubquery_role p),
    subqueryShapes_map (fun p => ⟨rfl, rfl⟩), List.map_inj_left]
  simp only [List.mem_filter, decide_eq_true_eq, and_imp]
  refine forall_congr' fun p => forall_congr' fun _ => forall_congr' fun _ => ?_
  constructor
  · intro h
    exact congrArg SubqueryShapeOf.block h
  · intro h
    have hblock : (shapedPair old b p).block = (shaped p.1).block := h
    rw [hblock]

theorem length_subqueryShapes_carryOver (old b : Block) (role : SubqueryRole) :
    (subqueryShapes ((old.carryOver b).subqueries.map shaped) role).length =
      (subqueryShapes (b.subqueries.map shaped) role).length := by
  rw [carryOver_subqueries, map_shaped_paired old b,
    subqueryShapes_map (fun p => carriedSubquery_role p),
    subqueryShapes_map (fun p => ⟨rfl, rfl⟩), List.length_map, List.length_map]

theorem subqueries_carryOver_iff (old b : Block) :
    (old.carryOver b).shape.subqueries = b.shape.subqueries ↔
      ∀ p ∈ paired old.subqueries b.subqueries, p.1.role ≠ .whereClause → SaysSame p := by
  rw [shape_eq, shape_eq b]
  constructor
  · intro h p hp hrole
    obtain ⟨hfrom, hselect⟩ := List.append_inj h (length_subqueryShapes_carryOver old b _)
    cases hr : p.1.role with
    | whereClause => exact absurd hr hrole
    | fromClause => exact (subqueryShapes_carryOver_iff old b _).1 hfrom p hp hr
    | selectList => exact (subqueryShapes_carryOver_iff old b _).1 hselect p hp hr
  · intro h
    have hrole : ∀ role, role ≠ .whereClause →
        subqueryShapes ((old.carryOver b).subqueries.map shaped) role =
          subqueryShapes (b.subqueries.map shaped) role := fun role hne =>
      (subqueryShapes_carryOver_iff old b role).2 fun p hp hr => h p hp (hr ▸ hne)
    exact congrArg₂ _ (hrole _ nofun) (hrole _ nofun)

/-! ## The whole shape -/

/-- Groups, conditions on groups, order and limit stay what they are. -/
theorem carryOver_rest (old b : Block) :
    (old.carryOver b).groupBy = b.groupBy ∧ (old.carryOver b).having = b.having ∧
      (old.carryOver b).orderBy = b.orderBy ∧ (old.carryOver b).limit = b.limit := by
  obtain ⟨tables, aggregates, h⟩ := carryOver_eq_renamed old b
  rw [h]
  exact ⟨rfl, rfl, rfl, rfl⟩

theorem carryOver_names (old : Block) (hb : b.Drawn n n' ctes) :
    (old.carryOver b).tables.map (·.name) = b.tables.map (·.name) := by
  rw [carryOver_tables old b hb.nodup_names, List.map_map]
  exact List.map_congr_left fun t _ => carriedTable_name old b t

/-- A block says the same after it took over from another one exactly if the aggregates that went
back are in place, and its nested queries say the same. -/
theorem shape_carryOver_iff (hb : b.Drawn n n' ctes) (hold : old.Identified n) :
    (old.carryOver b).shape = b.shape ↔
      AggregatesInPlace old b ∧ ∀ p ∈ paired old.subqueries b.subqueries, SaysSame p := by
  have hcolumns := columns_carryOver_iff old hb
  have haggregates := aggregates_carryOver_iff old hb
  obtain ⟨hgroup, hhaving, horder, hlimit⟩ := carryOver_rest old b
  have hjoins := joins_carryOver hb hold
  have hnames := carryOver_names old hb
  constructor
  · intro h
    have hsame := fun p hp => (Decidable.em (p.1.role = SubqueryRole.whereClause)).elim
      (says_same_of_filters hb hold (congrArg BlockShape.filters h) (p := p) hp)
      ((subqueries_carryOver_iff old b).1 (congrArg BlockShape.subqueries h) p hp)
    rw [shape_eq, shape_eq b] at h
    obtain ⟨honce, hfirst⟩ := haggregates.1 (congrArg BlockShape.aggregates h)
    exact ⟨⟨hcolumns.1 (congrArg BlockShape.columns h), honce, hfirst⟩, hsame⟩
  · rintro ⟨⟨hunchosen, honce, hfirst⟩, hsame⟩
    have hfilters := filters_of_says_same hb hold hsame
    have hnested := (subqueries_carryOver_iff old b).2 fun p hp _ => hsame p hp
    rw [shape_eq, shape_eq b] at hfilters hnested ⊢
    simp only [shapeWith, BlockShape.mk.injEq]
    exact ⟨by rw [hnames], hcolumns.2 hunchosen, by rw [hjoins], hfilters, by rw [hgroup],
      by rw [hhaving], by rw [horder], by rw [hlimit], haggregates.2 ⟨honce, hfirst⟩, hnested⟩

end Block

end QueryCanvas
