import QueryCanvas.Proofs.Canvas.Relabelled
import QueryCanvas.Proofs.CarryOver.Numbered

/-!
# What stands in the place of what after identities were taken over

A block keeps its tables, joins, filters and nested queries in their order when it takes over from
another block.  Here it is said what each of them is afterwards: filters by the filters at the same
place before, nested queries by those at the same place among those of their role.  From the empty
block nothing is taken over, so a block that is matched with none is one that takes over from this.
-/

set_option autoImplicit false

namespace QueryCanvas

namespace Block

/-! ## Filters -/

/-- The identifiers of filters with those of the filters at the same place before, where these are
on the same column. -/
def filterMatches : List Filter → List Filter → List (EntityId × Option EntityId)
  | old :: olds, f :: rest =>
    (f.id, if f.column = old.column then some old.id else none) :: filterMatches olds rest
  | _, filters => filters.map fun f => (f.id, none)

theorem filterMatches_news (olds filters : List Filter) :
    (filterMatches olds filters).map (·.1) = filters.map (·.id) := by
  induction filters generalizing olds with
  | nil => cases olds <;> rfl
  | cons f rest ih =>
    cases olds with
    | nil => simp [filterMatches]
    | cons old olds => rw [filterMatches, List.map_cons, List.map_cons, ih]

theorem filterMatches_olds (olds filters : List Filter) :
    ((filterMatches olds filters).filterMap (·.2)).Sublist (olds.map (·.id)) := by
  induction filters generalizing olds with
  | nil => cases olds <;> exact List.nil_sublist _
  | cons f rest ih =>
    cases olds with
    | nil => simp [filterMatches]
    | cons old olds =>
      rw [filterMatches, List.map_cons]
      split
      · exact (ih olds).cons_cons old.id
      · exact (ih olds).cons old.id

theorem carryFilters_id (olds filters : List Filter) :
    (carryFilters olds filters).map (·.id) =
      (filterMatches olds filters).map Renaming.kept := by
  induction filters generalizing olds with
  | nil => cases olds <;> rfl
  | cons f rest ih =>
    cases olds with
    | nil => simp [carryFilters, filterMatches, Renaming.kept]
    | cons old olds =>
      rw [carryFilters, filterMatches, List.map_cons, List.map_cons, ih]
      split <;> rfl

theorem filterRenaming_eq (olds filters : List Filter) :
    filterRenaming olds filters = Renaming.ofMatches (filterMatches olds filters) := by
  induction filters generalizing olds with
  | nil => cases olds <;> rfl
  | cons f rest ih =>
    cases olds with
    | nil =>
      have hnone : Renaming.ofMatches (filterMatches [] (f :: rest)) = [] :=
        List.filterMap_eq_nil_iff.2 (by simp [filterMatches])
      rw [hnone]
      rfl
    | cons old olds =>
      have hrest := ih olds
      unfold filterRenaming Renaming.ofMatches at hrest ⊢
      rw [filterMatches, List.zip_cons_cons, List.filterMap_cons]
      by_cases hcolumn : f.column = old.column
      · simp [hcolumn, hrest]
      · simp [hcolumn, hrest]

/-- Filters of different identifiers are matched with different ones. -/
theorem matching_filters {olds filters : List Filter} (hold : (olds.map (·.id)).Nodup)
    (hnew : (filters.map (·.id)).Nodup)
    (hapart : ∀ id ∈ olds.map (·.id), id ∉ filters.map (·.id)) :
    Matching (filterMatches olds filters) := by
  have hsub := filterMatches_olds olds filters
  refine ⟨?_, hold.sublist hsub, fun id hid => ?_⟩
  · rw [filterMatches_news]
    exact hnew
  · rw [filterMatches_news]
    exact hapart id (hsub.subset hid)

/-! ## Nested queries by their roles -/

theorem filter_eraseP_of_ne {olds : List Subquery} {r role : SubqueryRole} (hne : r ≠ role) :
    (olds.eraseP (·.role = r)).filter (·.role = role) = olds.filter (·.role = role) := by
  induction olds with
  | nil => rfl
  | cons old rest ih =>
    rw [List.eraseP_cons]
    by_cases hold : old.role = r
    · simp [hold, hne]
    · simp [hold, List.filter_cons, ih]

theorem filter_of_find? {olds : List Subquery} {role : SubqueryRole} {old : Subquery}
    (h : olds.find? (·.role = role) = some old) :
    olds.filter (·.role = role) = old :: (olds.eraseP (·.role = role)).filter (·.role = role) := by
  induction olds with
  | nil => cases h
  | cons first rest ih =>
    rw [List.find?_cons] at h
    by_cases hfirst : first.role = role
    · simp only [hfirst, decide_true, Option.some.injEq] at h
      obtain rfl := h
      rw [List.filter_cons_of_pos (by simpa using hfirst),
        List.eraseP_cons_of_pos (by simpa using hfirst)]
    · simp only [hfirst, decide_false] at h
      simp [hfirst, ih h]

/-- Nested queries are paired with those at the same place among those of their role. -/
theorem getElem?_paired (role : SubqueryRole) (olds subs : List Subquery) (k : Nat) :
    ((paired olds subs).filter (·.1.role = role))[k]? =
      (subs.filter (·.role = role))[k]?.map fun s =>
        (s, (olds.filter (·.role = role))[k]?) := by
  induction subs generalizing olds k with
  | nil => rfl
  | cons s rest ih =>
    rw [paired]
    by_cases hs : s.role = role
    · cases hfind : olds.find? (·.role = s.role) with
      | none =>
        have holds : olds.filter (·.role = role) = [] := by
          rw [List.filter_eq_nil_iff, ← hs]
          exact List.find?_eq_none.1 hfind
        cases k with
        | zero => simp [hs, holds]
        | succ k => simp [hs, holds, ih]
      | some old =>
        rw [hs] at hfind ⊢
        rw [filter_of_find? hfind]
        cases k with
        | zero => simp [hs]
        | succ k => simp [hs, ih]
    · cases hfind : olds.find? (·.role = s.role) with
      | none => simp [hs, ih]
      | some old => simp [hs, ih, filter_eraseP_of_ne hs]

/-! ## Blocks in their places -/

/-- A block with all that it takes over from another one, and with links that follow a renaming of
the named queries. -/
def inPlace (r : Renaming) (o b : Block) : Block := (o.carryOver b).mapBlocks (relinked r)

/-- A nested query with what it takes over, and with links that follow. -/
def nestedInPlace (r : Renaming) (o b : Block) (p : Subquery × Option Subquery) : Subquery :=
  { carriedSubquery p with
    linkedFilter := (carriedSubquery p).linkedFilter.map (filterRenaming o.filters b.filters).apply
    block := (carriedSubquery p).block.mapBlocks (relinked r) }

variable {r : Renaming} {o b : Block}

theorem position_carriedTable (o b : Block) (t : Table) :
    (carriedTable o b t).position = (carryTable o t).position := by
  unfold carriedTable
  refine List.foldlRecOn (motive := fun u : Table => u.position = (carryTable o t).position) _ _
    rfl ?_
  intro u hu p _
  rw [← hu]
  show (u.select p.column).position = u.position
  unfold Table.select
  split <;> rfl

theorem position_carryTable (o : Block) (t : Table) :
    (carryTable o t).position = ((o.tableNamed? t.name).map (·.position)).getD t.position := by
  unfold carryTable
  cases o.tableNamed? t.name <;> rfl

theorem tables_inPlace (hnames : b.tableNames.Nodup) :
    (inPlace r o b).tables =
      b.tables.map fun t => { carriedTable o b t with cte := t.cte.map r.apply } := by
  rw [inPlace, mapBlocks_eq]
  show ((o.carryOver b).tables.map _) = _
  rw [carryOver_tables o b hnames, List.map_map]
  refine List.map_congr_left fun t _ => ?_
  rw [Function.comp_apply, carriedTable_cte]

theorem joins_inPlace :
    (inPlace r o b).joins = b.joins.map (carryJoin o (tableRenaming o b.tables)) := by
  rw [inPlace, mapBlocks_eq]
  exact carryOver_joins o b

theorem filters_inPlace :
    (inPlace r o b).filters = (carryFilters o.filters b.filters).map
      (relinkFilter (subqueryRenaming o.subqueries b.subqueries)) := by
  rw [inPlace, mapBlocks_eq]
  exact carryOver_filters o b

theorem subqueries_inPlace :
    (inPlace r o b).subqueries = (paired o.subqueries b.subqueries).map (nestedInPlace r o b) := by
  obtain ⟨tables, aggregates, h⟩ := carryOver_eq_renamed o b
  rw [inPlace, mapBlocks_eq, h]
  show List.map _ (List.map _ (carryNested _ _)) = _
  rw [carryNested_eq, List.map_map, List.map_map]
  rfl

theorem carryNested_nil (subs : List Subquery) : carryNested [] subs = subs := by
  induction subs with
  | nil => rfl
  | cons s rest ih => simp [carryNested, ih]

theorem subqueryRenaming_nil (subs : List Subquery) : subqueryRenaming [] subs = [] := by
  induction subs with
  | nil => rfl
  | cons s rest ih => simpa [subqueryRenaming] using ih

theorem relinkFilter_nil (f : Filter) : relinkFilter [] f = f := by
  unfold relinkFilter
  split
  · rename_i id hoperand
    show { f with operand := .subquery id } = f
    rw [← hoperand]
  · rfl

/-- Nothing is taken over from the empty block. -/
theorem empty_carryOver (b : Block) : Block.empty.carryOver b = b := by
  have htables : tableRenaming Block.empty b.tables = [] :=
    List.filterMap_eq_nil_iff.2 fun _ _ => rfl
  have hjoins : ∀ j, carryJoin Block.empty [] j = j := fun _ => rfl
  have hfilters : carryFilters [] b.filters = b.filters := by
    cases b.filters <;> rfl
  have hlinks : ∀ s : Subquery,
      { s with linkedFilter := s.linkedFilter.map (Renaming.apply []) } = s := by
    intro s
    show { s with linkedFilter := s.linkedFilter.map id } = s
    rw [Option.map_id_fun, id_eq]
  rw [carryOver_eq]
  show { b with
    tables := b.tables.map id
    joins := b.joins.map (carryJoin Block.empty (tableRenaming Block.empty b.tables))
    filters := (carryFilters [] b.filters).map (relinkFilter (subqueryRenaming [] b.subqueries))
    subqueries := (carryNested [] b.subqueries).map fun s =>
      { s with linkedFilter := s.linkedFilter.map (Renaming.apply []) } } = b
  rw [htables, hfilters, subqueryRenaming_nil, carryNested_nil, List.map_id,
    map_eq_of_fixed fun j _ => hjoins j, map_eq_of_fixed fun f _ => relinkFilter_nil f,
    map_eq_of_fixed fun s _ => hlinks s]
  cases b
  rfl

theorem subquery?_relinkFilter (r : Renaming) (f : Filter) :
    (relinkFilter r f).operand.subquery? = f.operand.subquery?.map r.apply := by
  unfold relinkFilter
  cases h : f.operand with
  | value text => simp [h, Operand.subquery?]
  | subquery id => simp [Operand.subquery?]

theorem column_relinkFilter (r : Renaming) (f : Filter) :
    (relinkFilter r f).column = f.column := by
  unfold relinkFilter
  split <;> rfl

/-- A nested query in its place, by its role and where it stands among those of its role. -/
theorem getElem?_subqueriesIn_inPlace (role : SubqueryRole) (k : Nat) :
    ((inPlace r o b).subqueriesIn role)[k]? =
      (b.subqueriesIn role)[k]?.map fun s =>
        nestedInPlace r o b (s, (o.subqueriesIn role)[k]?) := by
  have hrole : (fun s : Subquery => decide (s.role = role)) ∘ nestedInPlace r o b =
      fun p => decide (p.1.role = role) := by
    funext p
    show decide ((carriedSubquery p).role = role) = decide (p.1.role = role)
    rw [(carriedSubquery_role p).1]
  rw [subqueriesIn, subqueries_inPlace, List.filter_map, hrole, List.getElem?_map,
    getElem?_paired, Option.map_map]
  rfl

end Block

end QueryCanvas
