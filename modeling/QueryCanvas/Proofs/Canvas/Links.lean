import Mathlib.Data.List.Nodup
import QueryCanvas.Canvas.Edit
import QueryCanvas.Proofs.Canvas.Anchored

/-!
# Links between filters and nested queries

The link between a filter and the nested query that it compares with is kept twice: as the operand
of the filter, and as the linked filter of the nested query.  Every step keeps one half of the
agreement: the filter to which a nested query is linked compares with it.  The other half is kept
by every step that takes no nested query away from another filter, and is lost by each one that
does.
-/

set_option autoImplicit false

namespace QueryCanvas

universe u

/-! ## Lists with different identifiers -/

/-- Where keys are different, taking away the first member with a key takes away all of them. -/
theorem eraseP_eq_filter_of_nodup {α : Type u} {key : α → EntityId} {l : List α}
    (h : (l.map key).Nodup) (id : EntityId) :
    l.eraseP (key · = id) = l.filter (key · ≠ id) := by
  induction l with
  | nil => rfl
  | cons a rest ih =>
    obtain ⟨hnot, hrest⟩ := List.nodup_cons.1 h
    by_cases hkey : key a = id
    · rw [List.eraseP_cons_of_pos (by simpa using hkey),
        List.filter_cons_of_neg (by simpa using hkey)]
      refine (List.filter_eq_self.2 fun c hc => ?_).symm
      refine decide_eq_true fun hck => hnot ?_
      exact List.mem_map.2 ⟨c, hc, hck.trans hkey.symm⟩
    · rw [List.eraseP_cons_of_neg (by simpa using hkey),
        List.filter_cons_of_pos (by simpa using hkey),
        ih hrest]

/-- Where keys are different, changing the first member with a key changes all of them. -/
theorem updateFirst_eq_map_of_nodup {α : Type u} {key : α → EntityId} {l : List α}
    (h : (l.map key).Nodup) (id : EntityId) (f : α → α) :
    updateFirst (key · = id) f l = l.map fun a => if key a = id then f a else a := by
  induction l with
  | nil => rfl
  | cons a rest ih =>
    obtain ⟨hnot, hrest⟩ := List.nodup_cons.1 h
    rw [updateFirst, List.map_cons]
    by_cases hkey : key a = id
    · simp only [hkey, decide_true, if_true]
      congr 1
      refine (List.map_id' rest).symm.trans (List.map_congr_left fun c hc => ?_)
      exact (if_neg fun hck => hnot (List.mem_map.2 ⟨c, hc, hck.trans hkey.symm⟩)).symm
    · simp only [hkey, decide_false, if_false, Bool.false_eq_true, ih hrest]

/-! ## Both ends of a link -/

/-- The end of a link that a filter holds. -/
def Filter.link (f : Filter) : EntityId × Operand := (f.id, f.operand)

/-- The end of a link that a nested query holds. -/
def SubqueryOf.link {β : Type} (s : SubqueryOf β) : EntityId × SubqueryRole × Option EntityId :=
  (s.id, s.role, s.linkedFilter)

namespace Block

variable {b b' : Block} {f g i s : EntityId}

/-- The filter compares with the nested query. -/
def Compares (b : Block) (f s : EntityId) : Prop :=
  ∃ g ∈ b.filters, g.id = f ∧ g.operand = .subquery s

/-- The nested query stands in the `WHERE` clause and is linked to the filter. -/
def Serves (b : Block) (s f : EntityId) : Prop :=
  ∃ q ∈ b.subqueries, q.id = s ∧ q.role = .whereClause ∧ q.linkedFilter = some f

instance : Decidable (b.Compares f s) :=
  inferInstanceAs (Decidable (∃ g ∈ b.filters, g.id = f ∧ g.operand = .subquery s))

instance : Decidable (b.Serves s f) :=
  inferInstanceAs (Decidable (∃ q ∈ b.subqueries, q.id = s ∧ q.role = .whereClause ∧
    q.linkedFilter = some f))

/-- Both ends of every link agree: a filter compares with a nested query exactly if that stands in
the `WHERE` clause and is linked to the filter.  Hence no two filters share a nested query, and
removing a filter leaves the links of all others as they are. -/
structure LinksMutual (b : Block) : Prop where
  agree : ∀ f s, b.Compares f s ↔ b.Serves s f
  unshared : ∀ f g s, b.Compares f s → b.Compares g s → f = g
  kept : ∀ i f s, f ≠ i → b.Compares f s →
    (b.removeFilter i).Compares f s ∧ (b.removeFilter i).Serves s f

theorem compares_iff : b.Compares f s ↔ (f, Operand.subquery s) ∈ b.filters.map Filter.link := by
  simp [Compares, Filter.link]

theorem serves_iff : b.Serves s f ↔
    (s, SubqueryRole.whereClause, some f) ∈ b.subqueries.map SubqueryOf.link := by
  simp [Serves, SubqueryOf.link]

/-- Filters have different identifiers out of `used`, so have nested queries, and the filter to
which a nested query is linked compares with it. -/
structure Tidy (used : List EntityId) (b : Block) : Prop where
  filterIds : (b.filters.map (·.id)).Nodup
  nestedIds : (b.subqueries.map (·.id)).Nodup
  filtersUsed : b.filters.map (·.id) ⊆ used
  nestedUsed : b.subqueries.map (·.id) ⊆ used
  serves : ∀ s f, b.Serves s f → b.Compares f s

/-- The other half of the agreement: a nested query is linked to each filter that compares with
it. -/
def Answered (b : Block) : Prop := ∀ f s, b.Compares f s → b.Serves s f

theorem tidy_empty (used : List EntityId) : Block.empty.Tidy used :=
  ⟨List.nodup_nil, List.nodup_nil, by simp [Block.empty], by simp [Block.empty],
    by simp [Serves, Block.empty]⟩

theorem answered_empty : Block.empty.Answered := by simp [Answered, Compares, Block.empty]

namespace Tidy

variable {used : List EntityId}

theorem mono {used' : List EntityId} (h : b.Tidy used) (hused : used ⊆ used') : b.Tidy used' :=
  ⟨h.filterIds, h.nestedIds, List.Subset.trans h.filtersUsed hused,
    List.Subset.trans h.nestedUsed hused, h.serves⟩

/-- A nested query is linked to one filter at most. -/
theorem serves_unique (h : b.Tidy used) (hf : b.Serves s f) (hg : b.Serves s g) : f = g := by
  obtain ⟨p, hp, rfl, -, hlink⟩ := hf
  obtain ⟨q, hq, hid, -, hlink'⟩ := hg
  obtain rfl := List.inj_on_of_nodup_map h.nestedIds hq hp hid
  exact Option.some.inj (hlink.symm.trans hlink')

/-- The filter of an identifier holds the end of the link that the identifier has. -/
theorem compares_iff_of_filter? (h : b.Tidy used) {p : Filter} (hp : b.filter? i = some p) :
    b.Compares i s ↔ p.operand = .subquery s := by
  have hmem := List.mem_of_find?_eq_some hp
  have hid : p.id = i := of_decide_eq_true (List.find?_some hp :)
  constructor
  · rintro ⟨q, hq, hqid, hop⟩
    obtain rfl := List.inj_on_of_nodup_map h.filterIds hq hmem (hqid.trans hid.symm)
    exact hop
  · exact fun hop => ⟨p, hmem, hid, hop⟩

end Tidy

/-- The links of a block, and the identifiers of its filters and nested queries, are those of
another one. -/
def SameLinks (b b' : Block) : Prop :=
  b'.filters.map Filter.link = b.filters.map Filter.link ∧
    b'.subqueries.map SubqueryOf.link = b.subqueries.map SubqueryOf.link

theorem SameLinks.compares (h : SameLinks b b') : b'.Compares f s ↔ b.Compares f s := by
  rw [compares_iff, compares_iff, h.1]

theorem SameLinks.serves (h : SameLinks b b') : b'.Serves s f ↔ b.Serves s f := by
  rw [serves_iff, serves_iff, h.2]

theorem SameLinks.filterIds (h : SameLinks b b') :
    b'.filters.map (·.id) = b.filters.map (·.id) := by
  have hids := congrArg (List.map Prod.fst) h.1
  simpa [Filter.link, Function.comp_def] using hids

theorem SameLinks.nestedIds (h : SameLinks b b') :
    b'.subqueries.map (·.id) = b.subqueries.map (·.id) := by
  have hids := congrArg (List.map Prod.fst) h.2
  simpa [SubqueryOf.link, Function.comp_def] using hids

/-! ## What a step does to the links -/

/-- A step that leaves a tidy block tidy and, where nested queries answer to all filters that
compare with them, leaves that so too. -/
structure Keeps (used used' : List EntityId) (b b' : Block) : Prop where
  tidy : b'.Tidy used'
  answered : b.Answered → b'.Answered

variable {used used' : List EntityId}

theorem Keeps.trans {b'' : Block} {used'' : List EntityId} (h : Keeps used used' b b')
    (h' : Keeps used' used'' b' b'') : Keeps used used'' b b'' :=
  ⟨h'.tidy, fun hb => h'.answered (h.answered hb)⟩

theorem SameLinks.keeps (hsame : SameLinks b b') (h : b.Tidy used) (hused : used ⊆ used') :
    Keeps used used' b b' := by
  refine ⟨⟨?_, ?_, ?_, ?_, fun s f hs => ?_⟩, fun hb f s hf => ?_⟩
  · rw [hsame.filterIds]
    exact h.filterIds
  · rw [hsame.nestedIds]
    exact h.nestedIds
  · rw [hsame.filterIds]
    exact List.Subset.trans h.filtersUsed hused
  · rw [hsame.nestedIds]
    exact List.Subset.trans h.nestedUsed hused
  · exact hsame.compares.2 (h.serves s f (hsame.serves.1 hs))
  · exact hsame.serves.2 (hb f s (hsame.compares.1 hf))

/-- A filter lets go of the nested query that it compares with, which is dropped. -/
structure Releases (i : EntityId) (b b' : Block) : Prop where
  filterIds : (b'.filters.map (·.id)).Sublist (b.filters.map (·.id))
  nestedIds : (b'.subqueries.map (·.id)).Sublist (b.subqueries.map (·.id))
  compares : ∀ f s, b'.Compares f s ↔ b.Compares f s ∧ f ≠ i
  serves : ∀ f s, b'.Serves s f ↔ b.Serves s f ∧ ¬b.Compares i s

theorem Releases.keeps (hrel : Releases i b b') (h : b.Tidy used) : Keeps used used b b' := by
  refine ⟨⟨h.filterIds.sublist hrel.filterIds, h.nestedIds.sublist hrel.nestedIds,
    List.Subset.trans hrel.filterIds.subset h.filtersUsed,
    List.Subset.trans hrel.nestedIds.subset h.nestedUsed,
    fun s f hs => ?_⟩, fun hb f s hf => ?_⟩
  · obtain ⟨hserves, hnot⟩ := (hrel.serves f s).1 hs
    have hcompares := h.serves s f hserves
    refine (hrel.compares f s).2 ⟨hcompares, ?_⟩
    rintro rfl
    exact hnot hcompares
  · obtain ⟨hcompares, hne⟩ := (hrel.compares f s).1 hf
    have hserves := hb f s hcompares
    exact (hrel.serves f s).2 ⟨hserves, fun hi => hne (h.serves_unique hserves (hb i s hi))⟩

/-- Dropping what the operand of a filter links leaves all other nested queries. -/
theorem subqueries_dropLinked (b : Block) (operand : Operand) :
    (b.dropLinked operand).subqueries = b.subqueries.filter (operand ≠ .subquery ·.id) := by
  cases operand with
  | value text => simp [dropLinked, Operand.subquery?, List.filter_true]
  | subquery id =>
    simp only [dropLinked, Operand.subquery?, dropSubquery]
    exact List.filter_congr fun q _ => by simp [eq_comm]

theorem filters_dropLinked (b : Block) (operand : Operand) :
    (b.dropLinked operand).filters = b.filters := by
  unfold dropLinked
  split <;> rfl

theorem serves_dropLinked {operand : Operand} :
    (b.dropLinked operand).Serves s f ↔ b.Serves s f ∧ operand ≠ .subquery s := by
  simp only [Serves, subqueries_dropLinked, List.mem_filter, decide_eq_true_eq]
  constructor
  · rintro ⟨q, ⟨hq, hne⟩, rfl, hrole, hlink⟩
    exact ⟨⟨q, hq, rfl, hrole, hlink⟩, hne⟩
  · rintro ⟨⟨q, hq, rfl, hrole, hlink⟩, hne⟩
    exact ⟨q, ⟨hq, hne⟩, rfl, hrole, hlink⟩

theorem releases_dropLinked (h : b.Tidy used) {p : Filter} (hp : b.filter? i = some p)
    {filters : List Filter} (hids : (filters.map (·.id)).Sublist (b.filters.map (·.id)))
    (hcompares : ∀ f s, (f, Operand.subquery s) ∈ filters.map Filter.link ↔
      b.Compares f s ∧ f ≠ i) :
    Releases i b ({ b with filters := filters }.dropLinked p.operand) := by
  refine ⟨?_, ?_, fun f s => ?_, fun f s => ?_⟩
  · rw [filters_dropLinked]
    exact hids
  · rw [subqueries_dropLinked]
    exact List.filter_sublist.map _
  · rw [compares_iff, filters_dropLinked]
    exact hcompares f s
  · rw [serves_dropLinked, ne_eq, h.compares_iff_of_filter? hp]
    exact Iff.rfl

theorem mem_of_filter? {p : Filter} (hp : b.filter? i = some p) : p ∈ b.filters ∧ p.id = i :=
  ⟨List.mem_of_find?_eq_some hp, of_decide_eq_true (List.find?_some hp :)⟩

theorem releases_removeFilter (h : b.Tidy used) {p : Filter} (hp : b.filter? i = some p) :
    Releases i b (b.removeFilter i) := by
  unfold removeFilter
  rw [hp]
  refine releases_dropLinked h hp (List.eraseP_sublist.map _) fun f s => ?_
  rw [eraseP_eq_filter_of_nodup h.filterIds, compares_iff]
  simp only [List.mem_map, List.mem_filter, Filter.link, Prod.mk.injEq, decide_eq_true_eq]
  constructor
  · rintro ⟨q, ⟨hq, hne⟩, rfl, hop⟩
    exact ⟨⟨q, hq, rfl, hop⟩, hne⟩
  · rintro ⟨⟨q, hq, rfl, hop⟩, hne⟩
    exact ⟨q, ⟨hq, hne⟩, rfl, hop⟩

theorem keeps_removeFilter (h : b.Tidy used) (i : EntityId) :
    Keeps used used b (b.removeFilter i) := by
  cases hp : b.filter? i with
  | none =>
    unfold removeFilter
    rw [hp]
    exact ⟨h, id⟩
  | some p => exact (releases_removeFilter h hp).keeps h

theorem keeps_updateFilter (h : b.Tidy used) (i : EntityId) (u : FilterUpdate) :
    Keeps used used b (b.updateFilter i u) := by
  unfold updateFilter
  cases hp : b.filter? i with
  | none => exact ⟨h, id⟩
  | some p =>
    obtain ⟨column, operator, value, connector⟩ := u
    cases value with
    | none =>
      refine SameLinks.keeps ⟨?_, rfl⟩ h (List.Subset.refl _)
      refine map_updateFirst (g := Filter.link) ?_ b.filters
      exact fun _ => rfl
    | some v =>
      refine Releases.keeps (i := i) ?_ h
      refine releases_dropLinked h hp ?_ fun f s => ?_
      · refine (map_updateFirst (g := Filter.id) ?_ b.filters) ▸ List.Sublist.refl _
        exact fun _ => rfl
      · rw [updateFirst_eq_map_of_nodup h.filterIds, compares_iff]
        simp only [List.map_map, List.mem_map, Function.comp_apply, Filter.link]
        constructor
        · rintro ⟨q, hq, heq⟩
          by_cases hid : q.id = i
          · simp [hid] at heq
          · simp only [hid, if_false, Prod.mk.injEq] at heq
            exact ⟨⟨q, hq, by simp [heq]⟩, heq.1 ▸ hid⟩
        · rintro ⟨⟨q, hq, heq⟩, hne⟩
          obtain ⟨rfl, hop⟩ := Prod.mk.inj heq
          exact ⟨q, hq, by simp [hne, hop]⟩

/-- Removing what names the columns of a table removes filters, one after the other. -/
theorem keeps_removeReferences (h : b.Tidy used) (name : String) :
    Keeps used used b (b.removeReferences name) := by
  have hfold : ∀ (ids : List EntityId) (b : Block), b.Tidy used →
      Keeps used used b (ids.foldl removeFilter b) := by
    intro ids
    induction ids with
    | nil => exact fun b h => ⟨h, id⟩
    | cons i rest ih =>
      intro b h
      have hfirst := keeps_removeFilter h i
      exact hfirst.trans (ih _ hfirst.tidy)
  have hremoved := hfold ((b.filters.filter (refersTo ·.column name)).map (·.id)) b h
  exact hremoved.trans (SameLinks.keeps ⟨rfl, rfl⟩ hremoved.tidy (List.Subset.refl _))

theorem keeps_removeTable (h : b.Tidy used) (id : EntityId) :
    Keeps used used b (b.removeTable id) := by
  unfold removeTable
  cases b.table? id with
  | none => exact ⟨h, fun hb => hb⟩
  | some t =>
    have hcut : Keeps used used b { b with
        tables := b.tables.eraseP (·.id = id)
        joins := b.joins.filter fun j => j.sourceTable ≠ id && j.targetTable ≠ id } :=
      SameLinks.keeps ⟨rfl, rfl⟩ h (List.Subset.refl _)
    dsimp only
    split
    · exact hcut.trans (keeps_removeReferences hcut.tidy _)
    · exact hcut

theorem keeps_removeSubquery (h : b.Tidy used) (id : EntityId) :
    Keeps used used b (b.removeSubquery id) := by
  unfold removeSubquery
  split
  · exact ⟨h, fun hb => hb⟩
  · set b' : Block := { b with
      subqueries := b.subqueries.eraseP (·.id = id)
      filters := b.filters.map fun f =>
        if f.operand.subquery? = some id then { f with operand := .value "" } else f } with hb'
    have hsub : b'.subqueries.Sublist b.subqueries := List.eraseP_sublist
    have hids : b'.filters.map (·.id) = b.filters.map (·.id) := by
      simp only [hb', List.map_map]
      refine List.map_congr_left fun f _ => ?_
      simp only [Function.comp_apply]
      split <;> rfl
    have hcompares : ∀ f s, b'.Compares f s ↔ b.Compares f s ∧ s ≠ id := by
      intro f s
      simp only [Compares, hb', List.mem_map]
      constructor
      · rintro ⟨q, ⟨p, hp, rfl⟩, hid, hop⟩
        split at hop
        · cases hop
        · rename_i hne
          rw [if_neg hne] at hid
          refine ⟨⟨p, hp, hid, hop⟩, ?_⟩
          rintro rfl
          exact hne (by rw [hop]; rfl)
      · rintro ⟨⟨p, hp, hid, hop⟩, hne⟩
        have hkept : ¬p.operand.subquery? = some id := by
          rw [hop]
          exact fun heq => hne (Option.some.inj heq)
        exact ⟨p, ⟨p, hp, if_neg hkept⟩, hid, hop⟩
    have hserves : ∀ s f, b'.Serves s f ↔ b.Serves s f ∧ s ≠ id := by
      intro s f
      simp only [Serves, hb', eraseP_eq_filter_of_nodup h.nestedIds, List.mem_filter,
        decide_eq_true_eq]
      constructor
      · rintro ⟨q, ⟨hq, hne⟩, rfl, hrest⟩
        exact ⟨⟨q, hq, rfl, hrest⟩, hne⟩
      · rintro ⟨⟨q, hq, rfl, hrest⟩, hne⟩
        exact ⟨q, ⟨hq, hne⟩, rfl, hrest⟩
    refine ⟨⟨?_, h.nestedIds.sublist (hsub.map _), ?_,
      List.Subset.trans (hsub.map _).subset h.nestedUsed,
      fun s f hs => ?_⟩, fun hb f s hf => ?_⟩
    · rw [hids]
      exact h.filterIds
    · rw [hids]
      exact h.filtersUsed
    · obtain ⟨hs, hne⟩ := (hserves s f).1 hs
      exact (hcompares f s).2 ⟨h.serves s f hs, hne⟩
    · obtain ⟨hf, hne⟩ := (hcompares f s).1 hf
      exact (hserves s f).2 ⟨hb f s hf, hne⟩

/-! ## Linking -/

/-- A filter is made to compare with a nested query of the `WHERE` clause; the nested query that it
compared with before loses its link. -/
theorem links_linkFilter (hfilters : (b.filters.map (·.id)).Nodup) {p : Filter}
    (hp : b.filter? i = some p) {j : EntityId}
    (hj : (b.subquery? j).any (·.role = .whereClause)) :
    (∀ f s, (b.linkFilter i j).Compares f s ↔
      (f = i ∧ s = j) ∨ (f ≠ i ∧ b.Compares f s)) ∧
    (∀ s f, (b.linkFilter i j).Serves s f ↔
      (s = j ∧ f = i) ∨ (s ≠ j ∧ p.operand ≠ .subquery s ∧ b.Serves s f)) := by
  obtain ⟨hmem, hid⟩ := mem_of_filter? hp
  obtain ⟨q, hq, hrole⟩ := Option.any_eq_true _ _ |>.1 hj
  have hqmem := List.mem_of_find?_eq_some hq
  have hqid : q.id = j := of_decide_eq_true (List.find?_some hq :)
  rw [decide_eq_true_eq] at hrole
  have hsubquery : ∀ {o : Operand} {s}, o.subquery? = some s ↔ o = .subquery s := by
    intro o s
    cases o <;> simp [Operand.subquery?]
  simp only [linkFilter, hj, Bool.not_true, Bool.false_eq_true, if_false, hp,
    updateFirst_eq_map_of_nodup hfilters, Compares, Serves, List.mem_map]
  refine ⟨fun f s => ⟨?_, ?_⟩, fun s f => ⟨?_, ?_⟩⟩
  · rintro ⟨_, ⟨r, hr, rfl⟩, rfl, hop⟩
    by_cases hri : r.id = i
    · simp only [hri, if_true, Operand.subquery.injEq] at hop
      simp [hri, hop]
    · simp only [hri, if_false] at hop ⊢
      exact .inr ⟨hri, r, hr, rfl, hop⟩
  · rintro (⟨rfl, rfl⟩ | ⟨hne, r, hr, rfl, hop⟩)
    · exact ⟨_, ⟨p, hmem, rfl⟩, by simp [hid]⟩
    · exact ⟨_, ⟨r, hr, rfl⟩, by simp [hne, hop]⟩
  · rintro ⟨_, ⟨r, hr, rfl⟩, rfl, hrole, hlink⟩
    by_cases hrj : r.id = j
    · simp only [hrj, if_true, Option.some.injEq] at hlink ⊢
      exact .inl ⟨trivial, hlink.symm⟩
    · simp only [hrj, if_false, hsubquery] at hrole hlink ⊢
      split at hlink
      · cases hlink
      · rename_i hne
        rw [if_neg hne] at hrole ⊢
        exact .inr ⟨hrj, hne, r, hr, rfl, hrole, hlink⟩
  · rintro (⟨rfl, rfl⟩ | ⟨hne, hop, r, hr, rfl, hrole', hlink⟩)
    · exact ⟨_, ⟨q, hqmem, rfl⟩, by simp [hqid, hrole]⟩
    · refine ⟨_, ⟨r, hr, rfl⟩, ?_⟩
      simp [hne, hsubquery, hop, hrole', hlink]

/-- The identifiers of filters and nested queries stay when a filter is linked. -/
theorem ids_linkFilter (b : Block) (i j : EntityId) :
    (b.linkFilter i j).filters.map (·.id) = b.filters.map (·.id) ∧
      (b.linkFilter i j).subqueries.map (·.id) = b.subqueries.map (·.id) := by
  unfold linkFilter
  split
  · exact ⟨rfl, rfl⟩
  · split
    · exact ⟨rfl, rfl⟩
    · refine ⟨map_updateFirst (g := Filter.id) ?_ b.filters, ?_⟩
      · exact fun _ => rfl
      dsimp only
      rw [List.map_map]
      refine List.map_congr_left fun q _ => ?_
      simp only [Function.comp_apply]
      repeat' split
      all_goals rfl

/-- The links after a filter is made to compare with a nested query `j`.  Other than at `j` itself
the links before were those of a tidy block. -/
theorem keeps_relinked {c : Block} (h : b.Tidy used) {p : Filter} (hp : b.filter? i = some p)
    {j : EntityId} (hfilterIds : c.filters.map (·.id) = b.filters.map (·.id))
    (hnestedIds : (c.subqueries.map (·.id)).Nodup) (hnestedUsed : c.subqueries.map (·.id) ⊆ used')
    (hused : used ⊆ used')
    (hcompares : ∀ f s, c.Compares f s ↔ (f = i ∧ s = j) ∨ (f ≠ i ∧ b.Compares f s))
    (hserves : ∀ s f, c.Serves s f ↔
      (s = j ∧ f = i) ∨ (s ≠ j ∧ p.operand ≠ .subquery s ∧ b.Serves s f)) :
    c.Tidy used' ∧ (b.Answered → (c.Answered ↔ ∀ f, f ≠ i → ¬b.Compares f j)) := by
  have hold : ∀ s, b.Compares i s ↔ p.operand = .subquery s := fun s =>
    h.compares_iff_of_filter? hp
  refine ⟨⟨?_, hnestedIds, ?_, hnestedUsed, fun s f hs => ?_⟩, fun hb => ⟨fun hb' f hf hj => ?_,
    fun hnone f s hf => ?_⟩⟩
  · rw [hfilterIds]
    exact h.filterIds
  · rw [hfilterIds]
    exact List.Subset.trans h.filtersUsed hused
  · rcases (hserves s f).1 hs with ⟨rfl, rfl⟩ | ⟨-, hop, hs⟩
    · exact (hcompares f s).2 (.inl ⟨rfl, rfl⟩)
    · have hf := h.serves s f hs
      refine (hcompares f s).2 (.inr ⟨?_, hf⟩)
      rintro rfl
      exact hop ((hold s).1 hf)
  · rcases (hserves j f).1 (hb' f j ((hcompares f j).2 (.inr ⟨hf, hj⟩))) with ⟨-, rfl⟩ | ⟨hne, -⟩
    · exact hf rfl
    · exact hne rfl
  · rcases (hcompares f s).1 hf with ⟨rfl, rfl⟩ | ⟨hne, hf⟩
    · exact (hserves s f).2 (.inl ⟨rfl, rfl⟩)
    · refine (hserves s f).2 (.inr ⟨?_, fun hop => ?_, hb f s hf⟩)
      · rintro rfl
        exact hnone f hne hf
      · exact hne (h.serves_unique (hb f s hf) (hb i s ((hold s).2 hop)))

/-- Linking a filter takes a nested query away from another filter that compares with it. -/
def TakesAway (b : Block) (filter subquery : EntityId) : Prop :=
  (b.filter? filter).isSome ∧ ∃ f, f ≠ filter ∧ b.Compares f subquery

/-- A nested query that a filter is linked to stands in the `WHERE` clause. -/
theorem Answered.role (hb : b.Answered) (h : b.Tidy used) (hf : b.Compares f s) :
    (b.subquery? s).any (·.role = .whereClause) := by
  obtain ⟨q, hq, rfl, hrole, -⟩ := hb f s hf
  have hfound : b.subquery? q.id = some q := by
    refine (List.find?_eq_some_iff_append.2 ?_)
    obtain ⟨before, after, heq⟩ := List.append_of_mem hq
    refine ⟨by simp, before, after, heq, fun r hr => ?_⟩
    have hnodup := h.nestedIds
    rw [heq, List.map_append, List.map_cons] at hnodup
    have hdisjoint := (List.nodup_append.1 hnodup).2.2
    simpa using hdisjoint r.id (List.mem_map_of_mem hr) q.id List.mem_cons_self
  simp [hfound, hrole]

/-- Linking a filter keeps nested queries answering exactly if it takes none away. -/
theorem keeps_linkFilter (h : b.Tidy used) (i j : EntityId) :
    (b.linkFilter i j).Tidy used ∧
      (b.Answered → ((b.linkFilter i j).Answered ↔ ¬b.TakesAway i j)) := by
  cases hp : b.filter? i with
  | none =>
    have hsame : b.linkFilter i j = b := by
      unfold linkFilter
      split
      · rfl
      · rw [hp]
    rw [hsame]
    exact ⟨h, fun hb => ⟨fun _ htakes => by simp [TakesAway, hp] at htakes, fun _ => hb⟩⟩
  | some p =>
    by_cases hj : (b.subquery? j).any (·.role = .whereClause)
    · obtain ⟨hcompares, hserves⟩ := links_linkFilter h.filterIds hp hj
      obtain ⟨hfilterIds, hnestedIds⟩ := ids_linkFilter b i j
      obtain ⟨htidy, hanswered⟩ := keeps_relinked (c := b.linkFilter i j) h hp hfilterIds
        (hnestedIds ▸ h.nestedIds) (hnestedIds ▸ h.nestedUsed) (List.Subset.refl _) hcompares
        hserves
      refine ⟨htidy, fun hb => (hanswered hb).trans ?_⟩
      simp [TakesAway, hp]
    · have hsame : b.linkFilter i j = b := by
        unfold linkFilter
        rw [if_pos (by simpa using hj)]
      rw [hsame]
      refine ⟨h, fun hb => ⟨fun _ => ?_, fun _ => hb⟩⟩
      rintro ⟨-, f, -, hf⟩
      exact hj (hb.role h hf)

/-- A new nested query, linked or not. -/
theorem keeps_addSubquery (h : b.Tidy used) {new : EntityId} (hnew : new ∉ used)
    (role : SubqueryRole) (filter : Option EntityId) (frame : Frame) :
    Keeps used (new :: used) b (b.addSubquery new role filter frame) := by
  have hused : used ⊆ new :: used := List.subset_cons_self new used
  unfold addSubquery
  split
  · exact ⟨h.mono hused, id⟩
  · rename_i hcan
    set nested : Subquery :=
      { id := new, role := role, aliasName := none, linkedFilter := filter, frame := frame
        block := Block.empty } with hnested
    set c : Block := { b with subqueries := b.subqueries ++ [nested] } with hc
    have hfresh : new ∉ b.subqueries.map (·.id) := fun hmem => hnew (h.nestedUsed hmem)
    have hids : (c.subqueries.map (·.id)).Nodup := by
      simp only [hc, List.map_append, List.map_cons, List.map_nil]
      exact List.nodup_append.2 ⟨h.nestedIds, List.nodup_singleton _, fun a ha x hx => by
        rw [List.mem_singleton.1 hx]
        rintro rfl
        exact hfresh ha⟩
    have hidsUsed : c.subqueries.map (·.id) ⊆ new :: used := by
      intro id hid
      simp only [hc, List.map_append, List.mem_append, List.map_cons, List.map_nil,
        List.mem_singleton] at hid
      rcases hid with hid | rfl
      · exact List.mem_cons_of_mem _ (h.nestedUsed hid)
      · exact List.mem_cons_self
    have hserves : ∀ s f, c.Serves s f ↔ b.Serves s f ∨
        (s = new ∧ role = .whereClause ∧ filter = some f) := by
      intro s f
      simp only [Serves, hc, List.mem_append, List.mem_singleton]
      constructor
      · rintro ⟨q, hq | rfl, rfl, hrole, hlink⟩
        · exact .inl ⟨q, hq, rfl, hrole, hlink⟩
        · exact .inr ⟨rfl, hrole, hlink⟩
      · rintro (⟨q, hq, rfl, hrole, hlink⟩ | ⟨rfl, hrole, hlink⟩)
        · exact ⟨q, .inl hq, rfl, hrole, hlink⟩
        · exact ⟨nested, .inr rfl, rfl, hrole, hlink⟩
    cases filter with
    | none =>
      refine ⟨⟨h.filterIds, hids, List.Subset.trans h.filtersUsed hused, hidsUsed,
        fun s f hs => ?_⟩, fun hb f s hf => (hserves s f).2 (.inl (hb f s hf))⟩
      rcases (hserves s f).1 hs with hs | ⟨-, -, hlink⟩
      · exact h.serves s f hs
      · cases hlink
    | some i =>
      simp only [canNest, Option.all_some, Bool.not_eq_true, Bool.not_eq_false', Bool.and_eq_true,
        decide_eq_true_eq] at hcan
      obtain ⟨rfl, hi⟩ := hcan
      obtain ⟨p, hp⟩ := Option.isSome_iff_exists.1 hi
      have hfound : (c.subquery? new).any (·.role = .whereClause) := by
        have hskip : b.subqueries.find? (·.id = new) = none :=
          List.find?_eq_none.2 fun q hq => by
            simpa using fun hid : q.id = new => hfresh (hid ▸ List.mem_map_of_mem hq)
        simp [subquery?, hc, List.find?_append, hskip, hnested]
      obtain ⟨hcompares, hlinked⟩ := links_linkFilter (b := c) h.filterIds hp hfound
      obtain ⟨hfilterIds, hnestedIds⟩ := ids_linkFilter c i new
      obtain ⟨htidy, hanswered⟩ := keeps_relinked (c := c.linkFilter i new) h hp hfilterIds
        (hnestedIds ▸ hids) (hnestedIds ▸ hidsUsed) hused hcompares fun s f => by
          rw [hlinked, hserves]
          -- the link with which the nested query is added is the one that it gets
          constructor
          · rintro (hnew | ⟨hne, hop, hs | ⟨rfl, -⟩⟩)
            · exact .inl hnew
            · exact .inr ⟨hne, hop, hs⟩
            · exact (hne rfl).elim
          · rintro (hnew | ⟨hne, hop, hs⟩)
            · exact .inl hnew
            · exact .inr ⟨hne, hop, .inl hs⟩
      refine ⟨htidy, fun hb => (hanswered hb).2 fun f _ hf => ?_⟩
      obtain ⟨q, hq, hid, -⟩ := hb f new hf
      exact hfresh (hid ▸ List.mem_map_of_mem hq)

/-! ## Edits -/

/-- The edit makes a filter compare with a nested query that another filter compares with. -/
def TakenBy (b : Block) : BlockEdit → Prop
  | .linkFilter filter subquery => b.TakesAway filter subquery
  | _ => False

theorem keeps_addFilter (h : b.Tidy used) {new : EntityId} (hnew : new ∉ used) {p : Filter}
    (hid : p.id = new) {v : String} (hvalue : p.operand = .value v) :
    Keeps used (new :: used) b (b.addFilter p) := by
  have hcompares : ∀ f s, (b.addFilter p).Compares f s ↔ b.Compares f s := by
    intro f s
    simp [compares_iff, addFilter, Filter.link, hvalue]
  have hused : used ⊆ new :: used := List.subset_cons_self new used
  refine ⟨⟨?_, h.nestedIds, ?_, List.Subset.trans h.nestedUsed hused, fun s f hs => ?_⟩,
    fun hb f s hf => ?_⟩
  · simp only [addFilter, List.map_append, List.map_cons, List.map_nil, hid]
    refine List.nodup_append.2 ⟨h.filterIds, List.nodup_singleton _, fun a ha x hx => ?_⟩
    rw [List.mem_singleton.1 hx]
    rintro rfl
    exact hnew (h.filtersUsed ha)
  · intro id hmem
    simp only [addFilter, List.map_append, List.mem_append, List.map_cons, List.map_nil,
      List.mem_singleton, hid] at hmem
    rcases hmem with hmem | rfl
    · exact hused (h.filtersUsed hmem)
    · exact List.mem_cons_self
  · exact (hcompares f s).2 (h.serves s f hs)
  · exact hb f s ((hcompares f s).1 hf)

/-- An edit leaves a tidy block tidy, and nested queries answering exactly if it takes none away. -/
theorem keeps_edit (h : b.Tidy used) {new : EntityId} (hnew : new ∉ used) (edit : BlockEdit) :
    (edit.apply new b).Tidy (new :: used) ∧
      (b.Answered → ((edit.apply new b).Answered ↔ ¬b.TakenBy edit)) := by
  have hused : used ⊆ new :: used := List.subset_cons_self new used
  have hplain : ∀ {b' : Block}, Keeps used (new :: used) b b' →
      b'.Tidy (new :: used) ∧ (b.Answered → (b'.Answered ↔ ¬False)) :=
    fun hkeeps => ⟨hkeeps.tidy, fun hb => ⟨fun _ => id, fun _ => hkeeps.answered hb⟩⟩
  have hwider : ∀ {b' : Block}, Keeps used used b b' → Keeps used (new :: used) b b' :=
    fun hkeeps => ⟨hkeeps.tidy.mono hused, hkeeps.answered⟩
  cases edit with
  | removeTable id => exact hplain (hwider (keeps_removeTable h id))
  | addJoin source sourceColumn target targetColumn kind =>
    refine hplain (SameLinks.keeps ?_ h hused)
    simp only [BlockEdit.apply, addJoin]
    split <;> exact ⟨rfl, rfl⟩
  | addFilter column operator value => exact hplain (keeps_addFilter h hnew rfl rfl)
  | updateFilter id update => exact hplain (hwider (keeps_updateFilter h id update))
  | removeFilter id => exact hplain (hwider (keeps_removeFilter h id))
  | addSubquery role filter frame => exact hplain (keeps_addSubquery h hnew role filter frame)
  | linkFilter filter subquery =>
    obtain ⟨htidy, hanswered⟩ := keeps_linkFilter h filter subquery
    exact ⟨htidy.mono hused, hanswered⟩
  | removeSubquery id => exact hplain (hwider (keeps_removeSubquery h id))
  | setSubqueryAlias id aliasName =>
    refine hplain (SameLinks.keeps ⟨rfl, ?_⟩ h hused)
    refine map_updateFirst (g := SubqueryOf.link) ?_ b.subqueries
    exact fun _ => rfl
  | _ => exact hplain (SameLinks.keeps ⟨rfl, rfl⟩ h hused)

/-! ## Whole runs -/

/-- What can be done to a block. -/
inductive Act where
  | here (e : BlockEdit)
  /-- Puts in a table that was made elsewhere. -/
  | insert (t : Table)
  /-- Edits the block of a nested query at any depth. -/
  | below (id : EntityId) (e : BlockEdit)
  /-- Removes a nested query from the block that owns it, at any depth. -/
  | removeNested (id : EntityId)

/-- The block after an act that may use the identifier `new`. -/
def Act.apply (new : EntityId) (b : Block) : Act → Block
  | here e => e.apply new b
  | insert t => b.addTable t
  | below id e => (b.updateNested? id fun c => e.apply new c).getD b
  | removeNested id => (b.removeNested? id).getD b

/-- The act takes a nested query of the block away from a filter. -/
def Act.Takes (b : Block) : Act → Prop
  | here e => b.TakenBy e
  | _ => False

/-- What a change below a block leaves of the block. -/
theorem sameLinks_of_shells {subs : List Subquery}
    (hshell : subs.map SubqueryOf.shell = b.subqueries.map SubqueryOf.shell) :
    SameLinks b { b with subqueries := subs } := by
  refine ⟨rfl, ?_⟩
  have hlinks := congrArg (List.map SubqueryOf.link) hshell
  rw [List.map_map, List.map_map] at hlinks
  exact hlinks

theorem keeps_act (h : b.Tidy used) {new : EntityId} (hnew : new ∉ used) (act : Act) :
    (act.apply new b).Tidy (new :: used) ∧
      (b.Answered → ((act.apply new b).Answered ↔ ¬act.Takes b)) := by
  have hused : used ⊆ new :: used := List.subset_cons_self new used
  have hplain : ∀ {b' : Block}, Keeps used (new :: used) b b' →
      b'.Tidy (new :: used) ∧ (b.Answered → (b'.Answered ↔ ¬False)) :=
    fun hkeeps => ⟨hkeeps.tidy, fun hb => ⟨fun _ => id, fun _ => hkeeps.answered hb⟩⟩
  cases act with
  | here e => exact keeps_edit h hnew e
  | insert t => exact hplain (SameLinks.keeps ⟨rfl, rfl⟩ h hused)
  | below id e =>
    refine hplain ?_
    rw [Act.apply]
    cases hupdate : b.updateNested? id fun c => e.apply new c with
    | none => exact SameLinks.keeps ⟨rfl, rfl⟩ h hused
    | some b' =>
      obtain ⟨subs, rfl, hone⟩ := updateNested?_eq_some hupdate
      exact (sameLinks_of_shells hone.map_shell).keeps h hused
  | removeNested id =>
    refine hplain ?_
    rw [Act.apply]
    cases hremove : b.removeNested? id with
    | none => exact SameLinks.keeps ⟨rfl, rfl⟩ h hused
    | some b' =>
      rcases removeNested?_eq_some hremove with rfl | ⟨subs, rfl, hone⟩
      · have hkeeps := keeps_removeSubquery h id
        exact ⟨hkeeps.tidy.mono hused, hkeeps.answered⟩
      · exact (sameLinks_of_shells hone.map_shell).keeps h hused

/-- The block at the start of a run and after each of its acts.  Each act comes with the identifier
that it may use for something new. -/
def states (b : Block) : List (EntityId × Act) → List Block
  | [] => [b]
  | (new, act) :: rest => b :: (act.apply new b).states rest

/-- No act of the run takes a nested query away from a filter that compares with it. -/
def TakesNone (b : Block) : List (EntityId × Act) → Prop
  | [] => True
  | (new, act) :: rest => ¬act.Takes b ∧ (act.apply new b).TakesNone rest

theorem Tidy.linksMutual_iff (h : b.Tidy used) : b.LinksMutual ↔ b.Answered := by
  refine ⟨fun hmutual f s => (hmutual.agree f s).1, fun hb => ⟨fun f s => ⟨hb f s, h.serves s f⟩,
    fun f g s hf hg => h.serves_unique (hb f s hf) (hb g s hg), fun i f s hne hf => ?_⟩⟩
  have hkeeps := keeps_removeFilter h i
  cases hp : b.filter? i with
  | none =>
    have hsame : b.removeFilter i = b := by
      unfold removeFilter
      rw [hp]
    rw [hsame]
    exact ⟨hf, hb f s hf⟩
  | some p =>
    have hleft := ((releases_removeFilter h hp).compares f s).2 ⟨hf, hne⟩
    exact ⟨hleft, hkeeps.answered hb f s hleft⟩

theorem states_tidy (steps : List (EntityId × Act)) :
    ∀ (b : Block) (used : List EntityId), b.Tidy used → (steps.map (·.1)).Nodup →
      (∀ id ∈ steps.map (·.1), id ∉ used) → ∀ c ∈ b.states steps, ∃ used', c.Tidy used' := by
  induction steps with
  | nil =>
    intro b used h _ _ c hc
    rw [List.mem_singleton.1 hc]
    exact ⟨used, h⟩
  | cons step rest ih =>
    obtain ⟨new, act⟩ := step
    intro b used h hnodup hfresh c hc
    obtain ⟨hnot, hrest⟩ := List.nodup_cons.1 hnodup
    rcases List.mem_cons.1 hc with rfl | hc
    · exact ⟨used, h⟩
    · refine ih _ (new :: used) (keeps_act h (hfresh new List.mem_cons_self) act).1 hrest ?_ c hc
      intro id hid hmem
      rcases List.mem_cons.1 hmem with rfl | hmem
      · exact hnot hid
      · exact hfresh id (List.mem_cons_of_mem _ hid) hmem

theorem states_answered_iff (steps : List (EntityId × Act)) :
    ∀ (b : Block) (used : List EntityId), b.Tidy used → b.Answered → (steps.map (·.1)).Nodup →
      (∀ id ∈ steps.map (·.1), id ∉ used) →
      ((∀ c ∈ b.states steps, c.Answered) ↔ b.TakesNone steps) := by
  induction steps with
  | nil =>
    intro b used _ hb _ _
    simpa [states, TakesNone] using hb
  | cons step rest ih =>
    obtain ⟨new, act⟩ := step
    intro b used h hb hnodup hfresh
    obtain ⟨hnot, hrest⟩ := List.nodup_cons.1 hnodup
    obtain ⟨htidy, hstep⟩ := keeps_act h (hfresh new List.mem_cons_self) act
    have hfresh' : ∀ id ∈ rest.map (·.1), id ∉ new :: used := by
      intro id hid hmem
      rcases List.mem_cons.1 hmem with rfl | hmem
      · exact hnot hid
      · exact hfresh id (List.mem_cons_of_mem _ hid) hmem
    have hself : act.apply new b ∈ (act.apply new b).states rest := by
      cases rest <;> exact List.mem_cons_self
    rw [states, List.forall_mem_cons, TakesNone, ← hstep hb]
    constructor
    · rintro ⟨-, hall⟩
      have hnext := hall _ hself
      exact ⟨hnext, (ih _ _ htidy hnext hrest hfresh').1 hall⟩
    · rintro ⟨hnext, hnone⟩
      exact ⟨hb, (ih _ _ htidy hnext hrest hfresh').2 hnone⟩

/-- In every run from the empty block, with identifiers that never repeat: the filter to which a
nested query is linked always compares with it; and all links agree at both ends all the time
exactly if no filter is linked to a nested query that another filter compares with. -/
theorem links_mutual_iff (steps : List (EntityId × Act)) (hnew : (steps.map (·.1)).Nodup) :
    (∀ b ∈ Block.empty.states steps, ∀ s f, b.Serves s f → b.Compares f s) ∧
      ((∀ b ∈ Block.empty.states steps, b.LinksMutual) ↔ Block.empty.TakesNone steps) := by
  have htidy := states_tidy steps Block.empty [] (tidy_empty []) hnew (by simp)
  refine ⟨fun b hb => ?_, ?_⟩
  · obtain ⟨used, h⟩ := htidy b hb
    exact h.serves
  · rw [← states_answered_iff steps Block.empty [] (tidy_empty []) answered_empty hnew (by simp)]
    refine forall₂_congr fun b hb => ?_
    obtain ⟨used, h⟩ := htidy b hb
    exact h.linksMutual_iff

/-- Of two filters the first gets a nested query, and the second one another. -/
theorem links_mutual_two_filters :
    let steps : List (EntityId × Act) :=
      [(⟨"f"⟩, .here (.addFilter "orders.id" .isIn "")),
       (⟨"g"⟩, .here (.addFilter "orders.total" .isIn "")),
       (⟨"s"⟩, .here (.addSubquery .whereClause (some ⟨"f"⟩) default)),
       (⟨"t"⟩, .here (.addSubquery .whereClause none default)),
       (⟨"u"⟩, .here (.linkFilter ⟨"g"⟩ ⟨"t"⟩)),
       (⟨"v"⟩, .here (.removeFilter ⟨"f"⟩))]
    (steps.map (·.1)).Nodup ∧ ∀ b ∈ Block.empty.states steps, b.LinksMutual := by
  intro steps
  have hnew : (steps.map (·.1)).Nodup := by decide
  have hnone : Block.empty.TakesNone steps := by
    refine ⟨id, id, id, id, ?_, id, trivial⟩
    rintro ⟨-, f, -, p, hp, -, hop⟩
    revert p
    decide
  exact ⟨hnew, (links_mutual_iff steps hnew).2.2 hnone⟩

/-- A second filter is linked to the nested query of a first one, which keeps it as its operand:
both ends of that link disagree from then on.  Removing the first filter then takes away what the
second one compares with. -/
theorem link_shared_after_relinking :
    let steps : List (EntityId × Act) :=
      [(⟨"f"⟩, .here (.addFilter "orders.id" .isIn "")),
       (⟨"g"⟩, .here (.addFilter "orders.total" .isIn "")),
       (⟨"s"⟩, .here (.addSubquery .whereClause (some ⟨"f"⟩) default)),
       (⟨"u"⟩, .here (.linkFilter ⟨"g"⟩ ⟨"s"⟩)),
       (⟨"v"⟩, .here (.removeFilter ⟨"f"⟩))]
    (steps.map (·.1)).Nodup ∧
      (∃ b ∈ Block.empty.states steps, b.Compares ⟨"f"⟩ ⟨"s"⟩ ∧ b.Compares ⟨"g"⟩ ⟨"s"⟩ ∧
        ¬b.Serves ⟨"s"⟩ ⟨"f"⟩) ∧
      ∃ b ∈ Block.empty.states steps, b.Compares ⟨"g"⟩ ⟨"s"⟩ ∧ b.subqueries = [] := by
  decide

end Block

end QueryCanvas
