import Mathlib.Data.List.Forall2
import QueryCanvas.Proofs.CarryOver.InPlace
import QueryCanvas.Proofs.Reading.WellFormed

/-!
# References follow the identities that are taken over

Four kinds of things are matched with what was there before: tables and named queries by name,
filters by position and column, nested queries by role and position.  Each kind has a renaming of
its own, which is applied where this kind is referred to: in the ends of joins, in links to named
queries, in links to filters, in the operands of filters.  Here it is said that nothing is
forgotten: at every depth, what is matched has the old identifier and the old place, and every
reference leads to what it led to before.

One lemma serves all four kinds: a renaming along a matching takes the identifier of a member of a
list to the identifier that the member at the same place has afterwards.
-/

set_option autoImplicit false

namespace QueryCanvas

/-! ## Where references lead -/

/-- Two identifiers, looked up in two lists, lead to the two members of one pair. -/
def LeadAlike {α : Type} (find find' : EntityId → Option α) (pairs : List (α × α))
    (id id' : EntityId) : Prop :=
  ∃ p ∈ pairs, find id = some p.1 ∧ find' id' = some p.2

/-- Identifiers do not repeat among the tables, the filters and the nested queries of a block. -/
structure Block.Distinct (b : Block) : Prop where
  tables : (b.tables.map (·.id)).Nodup
  filters : (b.filters.map (·.id)).Nodup
  nested : (b.subqueries.map (·.id)).Nodup

/-- Identifiers do not repeat among the named queries, nor within a block. -/
structure Canvas.Distinct (c : Canvas) : Prop where
  ctes : c.cteIds.Nodup
  blocks : c.Everywhere Block.Distinct

/-- The block `b'` of the canvas `c'` stands where `b` stands in `c`, with what it takes over from
the block `o`.  What is matched has the identifier and the place from there, and what refers to
something leads to the thing at the same place as before. -/
structure Block.Followed (c c' : Canvas) (o b b' : Block) : Prop where
  /-- Tables have the identifiers and places of the tables of their names. -/
  tables : List.Forall₂ (fun t t' : Table => t'.name = t.name ∧
      t'.id = ((o.tableNamed? t.name).map (·.id)).getD t.id ∧
      t'.position = ((o.tableNamed? t.name).map (·.position)).getD t.position) b.tables b'.tables
  roles : b'.subqueries.map (·.role) = b.subqueries.map (·.role)
  /-- Nested queries have the identifiers and frames of those that come at the same place among
  those of their role. -/
  nested : ∀ (role : SubqueryRole) (k : Nat) (s s' : Subquery),
    (b.subqueriesIn role)[k]? = some s → (b'.subqueriesIn role)[k]? = some s' →
      s'.id = ((o.subqueriesIn role)[k]?.map (·.id)).getD s.id ∧
        s'.frame = ((o.subqueriesIn role)[k]?.map (·.frame)).getD s.frame
  joins : List.Forall₂ (fun j j' : Join =>
      LeadAlike b.table? b'.table? (b.tables.zip b'.tables) j.sourceTable j'.sourceTable ∧
      LeadAlike b.table? b'.table? (b.tables.zip b'.tables) j.targetTable j'.targetTable)
    b.joins b'.joins
  operands : List.Forall₂ (fun f f' : Filter => f'.column = f.column ∧ Option.Rel
      (LeadAlike b.subquery? b'.subquery? (b.subqueries.zip b'.subqueries))
      f.operand.subquery? f'.operand.subquery?) b.filters b'.filters
  linkedFilters : List.Forall₂ (fun s s' : Subquery => Option.Rel
      (LeadAlike b.filter? b'.filter? (b.filters.zip b'.filters)) s.linkedFilter s'.linkedFilter)
    b.subqueries b'.subqueries
  links : List.Forall₂ (fun t t' : Table => Option.Rel
      (LeadAlike c.cte? c'.cte? (c.ctes.zip c'.ctes)) t.cte t'.cte) b.tables b'.tables

namespace Canvas

/-- A block of `c` at any depth with the block at the same place of `c'`, and before them the block
of `old` that they are matched with: that of the named query of the same name, or of the nested
query at the same place among those of its role.  Where nothing is matched, it is the empty one. -/
inductive Facing (old c c' : Canvas) : Block → Block → Block → Prop
  | root : Facing old c c' old.root c.root c'.root
  | cte {i : Nat} {q q' : Cte} (hq : c.ctes[i]? = some q) (hq' : c'.ctes[i]? = some q') :
    Facing old c c' ((old.cteNamed? q.name).elim Block.empty (·.block)) q.block q'.block
  | nested {o b b' : Block} (h : Facing old c c' o b b') {role : SubqueryRole} {k : Nat}
      {s s' : Subquery} (hs : (b.subqueriesIn role)[k]? = some s)
      (hs' : (b'.subqueriesIn role)[k]? = some s') :
    Facing old c c' ((o.subqueriesIn role)[k]?.elim Block.empty (·.block)) s.block s'.block

/-- The canvas `c'` is the canvas `c` with the identities of `old`.  Named queries have the
identifiers and frames of those of their names, and references are followed in all blocks. -/
structure Followed (old c c' : Canvas) : Prop where
  ctes : List.Forall₂ (fun q q' : Cte => q'.name = q.name ∧
      q'.id = ((old.cteNamed? q.name).map (·.id)).getD q.id ∧
      q'.frame = ((old.cteNamed? q.name).map (·.frame)).getD q.frame) c.ctes c'.ctes
  blocks : ∀ o b b', Facing old c c' o b b' → Block.Followed c c' o b b'

end Canvas

/-! ## Renamed references -/

/-- A renaming along a matching leads from each member of a list to the member at the same place
afterwards. -/
theorem Matching.leadAlike {α : Type} {key : α → EntityId} {m : List (EntityId × Option EntityId)}
    (h : Matching m) {l l' : List α} (hl : m.map (·.1) = l.map key)
    (hl' : m.map Renaming.kept = l'.map key) {id : EntityId} (hid : id ∈ l.map key) :
    LeadAlike (fun id => l.find? fun a => key a = id) (fun id => l'.find? fun a => key a = id)
      (l.zip l') id ((Renaming.ofMatches m).apply id) := by
  have hnews : (l.map key).Nodup := hl ▸ h.news
  have hafter : (l'.map key).Nodup := hl' ▸ h.nodup_kept
  have hlength : m.length = l.length := by simpa using congrArg List.length hl
  have hlength' : m.length = l'.length := by simpa using congrArg List.length hl'
  obtain ⟨_, hmem, rfl⟩ := List.mem_map.1 hid
  obtain ⟨i, hi, rfl⟩ := List.getElem_of_mem hmem
  have him : i < m.length := hlength ▸ hi
  have hi' : i < l'.length := hlength' ▸ him
  have hkey : m[i].1 = key l[i] := by simpa [him, hi] using congrArg (·[i]?) hl
  have hkept : Renaming.kept m[i] = key l'[i] := by simpa [him, hi'] using congrArg (·[i]?) hl'
  have happly : (Renaming.ofMatches m).apply (key l[i]) = key l'[i] := by
    rw [← hkey, Renaming.apply_ofMatches h.news (List.getElem_mem him), hkept]
  refine ⟨(l[i], l'[i]), ?_, find?_of_nodup hnews hmem, ?_⟩
  · exact List.mem_iff_getElem.2 ⟨i, by simp [hi, hi'], by simp⟩
  · rw [happly]
    exact find?_of_nodup hafter (List.getElem_mem hi')

/-- References of the members of a list, in the order of the members, lead where they should. -/
theorem forall₂_of_map_eq {α β γ : Type} {R : α → γ → Prop} {l : List α} {l' : List β} {f : α → γ}
    {g : β → γ} (hmap : l'.map g = l.map f) (hR : ∀ a ∈ l, R a (f a)) :
    List.Forall₂ (fun a b => R a (g b)) l l' := by
  have hrefl : List.Forall₂ (fun a a' => R a (f a')) l l := List.forall₂_same.2 hR
  rw [← List.forall₂_map_right_iff, ← hmap] at hrefl
  exact List.forall₂_map_right_iff.1 hrefl

theorem rel_map {r : EntityId → EntityId → Prop} {f : EntityId → EntityId} {o : Option EntityId}
    (h : ∀ id, o = some id → r id (f id)) : Option.Rel r o (o.map f) := by
  cases o with
  | none => exact .none
  | some id => exact .some (h id rfl)

namespace Block

variable {r : Renaming} {o b : Block}

/-! ## References of one block -/

/-- The identifiers of a block do not repeat, its tables have different names, and what it refers to
is there. -/
structure Closed (ctes : List EntityId) (b : Block) : Prop extends b.Distinct where
  names : (b.tables.map (·.name)).Pairwise fun name name' => ¬Text.sameName name name'
  joins : ∀ j ∈ b.joins,
    j.sourceTable ∈ b.tables.map (·.id) ∧ j.targetTable ∈ b.tables.map (·.id)
  operands : ∀ f ∈ b.filters, ∀ id, f.operand.subquery? = some id → id ∈ b.subqueries.map (·.id)
  linkedFilters : ∀ s ∈ b.subqueries, ∀ id, s.linkedFilter = some id → id ∈ b.filters.map (·.id)
  links : ∀ t ∈ b.tables, ∀ id, t.cte = some id → id ∈ ctes

/-- No identifier of a table, of a filter or of a nested query is in both blocks. -/
structure Unshared (o b : Block) : Prop where
  tables : ∀ id ∈ o.tables.map (·.id), id ∉ b.tables.map (·.id)
  filters : ∀ id ∈ o.filters.map (·.id), id ∉ b.filters.map (·.id)
  nested : ∀ id ∈ o.subqueries.map (·.id), id ∉ b.subqueries.map (·.id)

/-- Blocks share no identifier of a table, a filter or a nested query if they share none at all. -/
theorem unshared_of_ownIds (h : ∀ id ∈ b.ownIds, id ∉ o.ownIds) : Unshared o b := by
  have htables : ∀ {d : Block} {id}, id ∈ d.tables.map (·.id) → id ∈ d.ownIds := by
    intro d id hid
    obtain ⟨t, ht, rfl⟩ := List.mem_map.1 hid
    have hmem : t.id ∈ d.tables.flatMap fun t => t.id :: t.cte.toList :=
      List.mem_flatMap.2 ⟨t, ht, List.mem_cons_self⟩
    simp only [ownIds, List.mem_append, hmem, true_or]
  have hfilters : ∀ {d : Block} {id}, id ∈ d.filters.map (·.id) → id ∈ d.ownIds := by
    intro d id hid
    obtain ⟨f, hf, rfl⟩ := List.mem_map.1 hid
    have hmem : f.id ∈ d.filters.flatMap fun f => f.id :: f.operand.subquery?.toList :=
      List.mem_flatMap.2 ⟨f, hf, List.mem_cons_self⟩
    simp only [ownIds, List.mem_append, hmem, true_or, or_true]
  have hnested : ∀ {d : Block} {id}, id ∈ d.subqueries.map (·.id) → id ∈ d.ownIds := by
    intro d id hid
    obtain ⟨s, hs, rfl⟩ := List.mem_map.1 hid
    have hmem : s.id ∈ d.subqueries.flatMap fun s => s.id :: s.linkedFilter.toList :=
      List.mem_flatMap.2 ⟨s, hs, List.mem_cons_self⟩
    simp only [ownIds, List.mem_append, hmem, or_true]
  exact ⟨fun id ho hb => h id (htables hb) (htables ho),
    fun id ho hb => h id (hfilters hb) (hfilters ho),
    fun id ho hb => h id (hnested hb) (hnested ho)⟩

theorem Closed.nodup_names {ctes : List EntityId} (h : b.Closed ctes) : b.tableNames.Nodup := by
  refine h.names.imp ?_
  rintro name _ hne rfl
  exact hne (Text.sameName_refl name)

variable {c c' : Canvas}

/-- Tables are followed by the ends of joins. -/
theorem leadAlike_table (hb : b.Closed c.cteIds) (ho : o.Distinct) (hunshared : Unshared o b)
    {id : EntityId} (hid : id ∈ b.tables.map (·.id)) :
    LeadAlike b.table? (inPlace r o b).table? (b.tables.zip (inPlace r o b).tables) id
      ((tableRenaming o b.tables).apply id) := by
  have hmatching := Block.matching_tables ho.tables hb.tables hb.names hunshared.tables
  have hafter : (tableMatches o b.tables).map Renaming.kept =
      (inPlace r o b).tables.map (·.id) := by
    rw [tables_inPlace hb.nodup_names, List.map_map, ← map_carryTable_id, List.map_map]
    exact List.map_congr_left fun t _ => (carriedTable_id o b t).symm
  rw [tableRenaming_eq]
  exact hmatching.leadAlike (tableMatches_news o b.tables) hafter hid

/-- Nested queries are followed by the operands of filters. -/
theorem leadAlike_subquery (hb : b.Closed c.cteIds) (ho : o.Distinct) (hunshared : Unshared o b)
    {id : EntityId} (hid : id ∈ b.subqueries.map (·.id)) :
    LeadAlike b.subquery? (inPlace r o b).subquery? (b.subqueries.zip (inPlace r o b).subqueries) id
      ((subqueryRenaming o.subqueries b.subqueries).apply id) := by
  have hmatching := Block.matching_subqueries ho.nested hb.nested hunshared.nested
  have hafter : (subqueryMatches o.subqueries b.subqueries).map Renaming.kept =
      (inPlace r o b).subqueries.map (·.id) := by
    rw [subqueries_inPlace, ← map_carriedSubquery_id, carryNested_eq, List.map_map, List.map_map]
    rfl
  rw [subqueryRenaming_eq]
  exact hmatching.leadAlike (subqueryMatches_news o.subqueries b.subqueries) hafter hid

/-- Filters are followed by the links of nested queries. -/
theorem leadAlike_filter (hb : b.Closed c.cteIds) (ho : o.Distinct) (hunshared : Unshared o b)
    {id : EntityId} (hid : id ∈ b.filters.map (·.id)) :
    LeadAlike b.filter? (inPlace r o b).filter? (b.filters.zip (inPlace r o b).filters) id
      ((filterRenaming o.filters b.filters).apply id) := by
  have hmatching := Block.matching_filters ho.filters hb.filters hunshared.filters
  have hafter : (filterMatches o.filters b.filters).map Renaming.kept =
      (inPlace r o b).filters.map (·.id) := by
    rw [filters_inPlace, List.map_map, ← carryFilters_id]
    exact List.map_congr_left fun f _ => (relinkFilter_id _ f).symm
  rw [filterRenaming_eq]
  exact hmatching.leadAlike (filterMatches_news o.filters b.filters) hafter hid

/-- In a block in its place, everything matched has the old identifier and place, and every
reference is followed, if links to named queries are. -/
theorem Closed.followed (hb : b.Closed c.cteIds) (ho : o.Distinct) (hunshared : Unshared o b)
    (hctes : ∀ id ∈ c.cteIds, LeadAlike c.cte? c'.cte? (c.ctes.zip c'.ctes) id (r.apply id)) :
    Followed c c' o b (inPlace r o b) where
  tables := by
    rw [tables_inPlace hb.nodup_names, List.forall₂_map_right_iff]
    refine List.forall₂_same.2 fun t _ => ⟨carriedTable_name o b t, ?_, ?_⟩
    · exact (carriedTable_id o b t).trans (carryTable_id o t)
    · exact (position_carriedTable o b t).trans (position_carryTable o t)
  roles := by
    rw [subqueries_inPlace, List.map_map]
    have hroles : (paired o.subqueries b.subqueries).map (fun p => p.1.role) =
        b.subqueries.map (·.role) := by
      conv_rhs => rw [← map_fst_paired o.subqueries b.subqueries, List.map_map]
      rfl
    rw [← hroles]
    exact List.map_congr_left fun p _ => (carriedSubquery_role p).1
  nested := by
    intro role k s s' hs hs'
    rw [getElem?_subqueriesIn_inPlace, hs] at hs'
    obtain rfl := Option.some.inj hs'
    cases (o.subqueriesIn role)[k]? with
    | none => exact ⟨rfl, rfl⟩
    | some old => exact ⟨rfl, rfl⟩
  joins := by
    rw [joins_inPlace, List.forall₂_map_right_iff]
    refine List.forall₂_same.2 fun j hj => ?_
    obtain ⟨hsource, htarget⟩ := hb.joins j hj
    exact ⟨leadAlike_table hb ho hunshared hsource, leadAlike_table hb ho hunshared htarget⟩
  operands := by
    have hmap : (inPlace r o b).filters.map (fun f => (f.column, f.operand.subquery?)) =
        b.filters.map fun f => (f.column,
          f.operand.subquery?.map (subqueryRenaming o.subqueries b.subqueries).apply) := by
      rw [filters_inPlace, List.map_map, ← carryFilters_map (fun f : Filter => (f.column,
        f.operand.subquery?.map (subqueryRenaming o.subqueries b.subqueries).apply))
        (fun _ _ => rfl) o.filters]
      refine List.map_congr_left fun f _ => ?_
      rw [Function.comp_apply, column_relinkFilter, subquery?_relinkFilter]
    refine forall₂_of_map_eq (R := fun (f : Filter) (p : String × Option EntityId) =>
      p.1 = f.column ∧ Option.Rel _ f.operand.subquery? p.2) hmap fun f hf => ⟨rfl, ?_⟩
    exact rel_map fun id hid => leadAlike_subquery hb ho hunshared (hb.operands f hf id hid)
  linkedFilters := by
    have hmap : (inPlace r o b).subqueries.map (·.linkedFilter) =
        b.subqueries.map fun s =>
          s.linkedFilter.map (filterRenaming o.filters b.filters).apply := by
      conv_rhs => rw [← map_fst_paired o.subqueries b.subqueries, List.map_map]
      rw [subqueries_inPlace, List.map_map]
      refine List.map_congr_left fun p _ => ?_
      obtain ⟨s, _ | old⟩ := p <;> rfl
    refine forall₂_of_map_eq (R := fun (s : Subquery) link => Option.Rel _ s.linkedFilter link)
      hmap fun s hs => ?_
    exact rel_map fun id hid => leadAlike_filter hb ho hunshared (hb.linkedFilters s hs id hid)
  links := by
    rw [tables_inPlace hb.nodup_names, List.forall₂_map_right_iff]
    refine List.forall₂_same.2 fun t ht => ?_
    exact rel_map fun id hid => hctes id (hb.links t ht id hid)

end Block

namespace Canvas

variable {old c : Canvas} {o b b' : Block}

/-! ## Blocks that face each other -/

/-- What holds throughout a canvas holds throughout its blocks that face others, and the block at
the same place afterwards is the block with what it takes over. -/
theorem Facing.inPlace {P Q : Block → Prop} (hc : c.Everywhere P) (hold : old.Everywhere Q)
    (hempty : Q Block.empty) (h : Facing old c (old.carryOver c) o b b') :
    b.Everywhere P ∧ o.Everywhere Q ∧ b' = Block.inPlace (cteRenaming old c.ctes) o b := by
  have hnothing : Block.empty.Everywhere Q :=
    Block.everywhere_iff.2 ⟨hempty, by simp [Block.empty]⟩
  induction h with
  | root => exact ⟨hc.1, hold.1, rfl⟩
  | @cte i q q' hq hq' =>
    rw [ctes_carryOver, List.getElem?_map, hq] at hq'
    obtain rfl := Option.some.inj hq'
    refine ⟨hc.2 q (List.mem_of_getElem? hq), ?_, ?_⟩
    · cases hname : old.cteNamed? q.name with
      | none => exact hnothing
      | some before => exact hold.2 before (List.mem_of_find?_eq_some hname)
    · show (carryCte old q).block.mapBlocks _ = _
      unfold carryCte Block.inPlace
      cases old.cteNamed? q.name with
      | none =>
        show q.block.mapBlocks _ = (Block.empty.carryOver q.block).mapBlocks _
        rw [Block.empty_carryOver]
      | some before => rfl
  | @nested o b b' h role k s s' hs hs' ih =>
    obtain ⟨hb, ho, rfl⟩ := ih
    rw [Block.getElem?_subqueriesIn_inPlace, hs] at hs'
    obtain rfl := Option.some.inj hs'
    have hmem : s ∈ b.subqueries := (List.mem_filter.1 (List.mem_of_getElem? hs)).1
    refine ⟨(Block.everywhere_iff.1 hb).2 s hmem, ?_, ?_⟩
    · cases hbefore : (o.subqueriesIn role)[k]? with
      | none => exact hnothing
      | some before =>
        have hmem : before ∈ o.subqueries := (List.mem_filter.1 (List.mem_of_getElem? hbefore)).1
        exact (Block.everywhere_iff.1 ho).2 before hmem
    · unfold Block.inPlace
      cases (o.subqueriesIn role)[k]? with
      | none =>
        show s.block.mapBlocks _ = (Block.empty.carryOver s.block).mapBlocks _
        rw [Block.empty_carryOver]
      | some before => rfl

/-! ## Named queries -/

theorem frame_carryCte (old : Canvas) (q : Cte) :
    (carryCte old q).frame = ((old.cteNamed? q.name).map (·.frame)).getD q.frame := by
  unfold carryCte
  cases old.cteNamed? q.name <;> rfl

theorem map_id_ctes_carryOver (old c : Canvas) :
    (old.carryOver c).ctes.map (·.id) = (cteMatches old c.ctes).map Renaming.kept := by
  rw [ctes_carryOver, ← map_carryCte_id, List.map_map, List.map_map]
  rfl

/-- Named queries are followed by links. -/
theorem leadAlike_cte (hmatching : Matching (cteMatches old c.ctes)) {id : EntityId}
    (hid : id ∈ c.cteIds) :
    LeadAlike c.cte? (old.carryOver c).cte? (c.ctes.zip (old.carryOver c).ctes) id
      ((cteRenaming old c.ctes).apply id) := by
  have hnews : (cteMatches old c.ctes).map (·.1) = c.ctes.map (·.id) := by
    rw [cteMatches, List.map_map]
    rfl
  rw [cteRenaming_eq]
  exact hmatching.leadAlike hnews (map_id_ctes_carryOver old c).symm hid

/-! ## Canvases -/

theorem mem_ids_of_ownIds {c : Canvas} {b : Block} (hb : b ∈ c.blocks) {id : EntityId}
    (hid : id ∈ b.ownIds) : id ∈ c.ids :=
  List.mem_append_right _ (List.mem_flatMap.2 ⟨b, hb, hid⟩)

/-- Whatever a canvas without repeated identifiers was, a canvas whose references lead somewhere
takes its identities over such that they are followed. -/
theorem followed_carryOver (hold : old.Distinct) (hids : c.cteIds.Nodup)
    (hnames : (c.ctes.map (·.name)).Pairwise fun name name' => ¬Text.sameName name name')
    (hclosed : c.Everywhere (Block.Closed c.cteIds)) (hnew : ∀ id ∈ c.ids, id ∉ old.ids) :
    Followed old c (old.carryOver c) := by
  have hapart : ∀ id ∈ old.cteIds, id ∉ c.cteIds :=
    fun id hid hid' => hnew id (List.mem_append_left _ hid') (List.mem_append_left _ hid)
  have hmatching := matching_ctes hold.ctes hids hnames hapart
  refine ⟨?_, fun o b b' h => ?_⟩
  · rw [ctes_carryOver, List.forall₂_map_right_iff]
    refine List.forall₂_same.2 fun q _ => ⟨carriedCte_name old c q, ?_, ?_⟩
    · exact carryCte_id old q
    · exact frame_carryCte old q
  · have hblocks : c.Everywhere fun b => b.Closed c.cteIds ∧ ∀ id ∈ b.ownIds, id ∈ c.ids :=
      everywhere_iff_blocks.2 fun b hb =>
        ⟨everywhere_iff_blocks.1 hclosed b hb, fun _ hid => mem_ids_of_ownIds hb hid⟩
    have holds : old.Everywhere fun o => o.Distinct ∧ ∀ id ∈ o.ownIds, id ∈ old.ids :=
      everywhere_iff_blocks.2 fun o ho =>
        ⟨everywhere_iff_blocks.1 hold.blocks o ho, fun _ hid => mem_ids_of_ownIds ho hid⟩
    have hempty : Block.empty.Distinct ∧ ∀ id ∈ Block.empty.ownIds, id ∈ old.ids :=
      ⟨⟨List.nodup_nil, List.nodup_nil, List.nodup_nil⟩, nofun⟩
    obtain ⟨hb, ho, rfl⟩ := h.inPlace hblocks holds hempty
    obtain ⟨hclosed, hb⟩ := (Block.everywhere_iff.1 hb).1
    obtain ⟨hdistinct, ho⟩ := (Block.everywhere_iff.1 ho).1
    have hunshared : Block.Unshared o b :=
      Block.unshared_of_ownIds fun id hid hid' => hnew id (hb id hid) (ho id hid')
    exact hclosed.followed hdistinct hunshared fun id hid => leadAlike_cte hmatching hid

end Canvas

namespace Sql

/-! ## What is read -/

/-- In what is read, the filters that nested queries are linked to are there. -/
theorem Scope.Reaches.linkedFilters {s : Scope} {lo n : Nat} {b : Block} (h : s.Reaches lo n b) :
    b.Everywhere fun d =>
      ∀ q ∈ d.subqueries, ∀ id, q.linkedFilter = some id → id ∈ d.filters.map (·.id) := by
  induction h with
  | empty n => exact Block.everywhere_iff.2 ⟨by simp [Block.empty], by simp [Block.empty]⟩
  | @join lo n b h j hid ih =>
    have hself := (Block.everywhere_iff.1 ih).1
    unfold Block.addJoin
    split
    · exact ih.change hself rfl
    · exact ih
  | @filter lo n b h f hid hvalue ih =>
    have hself := (Block.everywhere_iff.1 ih).1
    refine ih.change (fun q hq id hlink => ?_) rfl
    exact List.map_subset _ (List.subset_append_left _ _) (hself q hq id hlink)
  | @nest lo n m b h q hinner hid hrole hlink ih ihinner =>
    have hself := (Block.everywhere_iff.1 ih).1
    refine ih.push ihinner (fun r hr id hr' => ?_) rfl
    rcases List.mem_append.1 hr with hr | hr
    · exact hself r hr id hr'
    · rw [List.mem_singleton.1 hr, hlink] at hr'
      cases hr'
  | @compare lo n m b h q hinner f hfilter hid hrole hoperand hlink ih ihinner =>
    have hself := (Block.everywhere_iff.1 ih).1
    refine ih.push ihinner (fun r hr id hr' => ?_) rfl
    rcases List.mem_append.1 hr with hr | hr
    · exact List.map_subset _ (List.subset_append_left _ _) (hself r hr id hr')
    · rw [List.mem_singleton.1 hr, hlink] at hr'
      obtain rfl := Option.some.inj hr'
      exact List.mem_map_of_mem (List.mem_append_right _ (List.mem_singleton.2 rfl))
  | table | choose | aggregate | grouping | having | sortTerm | limit =>
    rename_i ih
    have hself := (Block.everywhere_iff.1 ih).1
    exact ih.change (fun q hq id hlink => hself q hq id hlink) rfl

variable {catalog : Catalog} {lo n n' : Nat}

theorem CanvasReached.linkedFilters {c : Canvas} (h : CanvasReached catalog lo n c) :
    c.Everywhere fun d =>
      ∀ q ∈ d.subqueries, ∀ id, q.linkedFilter = some id → id ∈ d.filters.map (·.id) := by
  obtain ⟨m, hctes, hroot⟩ := h
  refine ⟨hroot.linkedFilters, fun q hq => ?_⟩
  obtain ⟨before, after, hsplit⟩ := List.append_of_mem hq
  obtain ⟨_, _, hblock⟩ := hctes.block hsplit
  exact hblock.linkedFilters

/-- In what is read, identifiers do not repeat and references lead somewhere. -/
theorem CanvasReached.closed {c : Canvas} (h : CanvasReached catalog lo n c) :
    c.Everywhere (Block.Closed c.cteIds) := by
  refine Canvas.everywhere_iff_blocks.2 fun b hb => ?_
  have hdrawn := Canvas.everywhere_iff_blocks.1 h.drawn.blocks b hb
  have hapart := Canvas.everywhere_iff_blocks.1 h.fresh.blocks b hb
  have hlinked := Canvas.everywhere_iff_blocks.1 h.linkedFilters b hb
  refine ⟨⟨hdrawn.tableIds.nodup, hapart.1.filters.nodup, hdrawn.nestedIds.nodup⟩, hdrawn.names,
    fun j hj => ?_, fun f hf id hid => ?_, hlinked, hdrawn.links⟩
  · exact ⟨(hdrawn.joins j hj).source, (hdrawn.joins j hj).target⟩
  · refine hdrawn.operands f hf id ?_
    cases hoperand : f.operand with
    | value text =>
      rw [hoperand] at hid
      cases hid
    | subquery id' =>
      rw [hoperand] at hid
      exact congrArg Operand.subquery (Option.some.inj hid)

/-- Whatever the canvas was before, if identifiers do not repeat in it, and whatever canvas is read
off a query with other identifiers: what the new canvas has in common with the old one has the old
identifiers and places afterwards, and at every depth every reference leads to what it led to. -/
theorem identities_are_followed (catalog : Catalog) (q : Query) (n n' : Nat) (old c : Canvas)
    (hread : (readCanvas catalog q).run n = (.ok c, n')) (hold : old.Distinct)
    (hnew : ∀ id ∈ c.ids, id ∉ old.ids) : Canvas.Followed old c (old.carryOver c) := by
  have hreached := (readCanvas_reached catalog q n).result c n' hread
  exact Canvas.followed_carryOver hold hreached.drawn.cteIds.nodup hreached.cteNames
    hreached.closed hnew

/-- A canvas whose root reads a named query and a table, and compares it with a nested query. -/
def remembered : Canvas :=
  let nested : Subquery :=
    { id := EntityId.minted 6, role := .whereClause, aliasName := none
      linkedFilter := some (EntityId.minted 5), frame := default
      block := { Block.empty with tables := [.create (EntityId.minted 4) "p" [] default] } }
  let compared : Filter :=
    { id := EntityId.minted 5, column := "u.a", operator := .isIn
      operand := .subquery (EntityId.minted 6), connector := .and }
  let reading : Table :=
    { Table.create (EntityId.minted 2) "w" ["b"] default with cte := some (EntityId.minted 1) }
  let named : Cte :=
    { id := EntityId.minted 1, name := "w", frame := default
      block := { Block.empty with tables := [.create (EntityId.minted 0) "o" [] default] } }
  { ctes := [named]
    root := { Block.empty with
      tables := [reading, .create (EntityId.minted 3) "u" [] default]
      filters := [compared], subqueries := [nested] } }

theorem distinct_remembered : remembered.Distinct := by
  refine ⟨by decide +kernel, Canvas.everywhere_iff_blocks.2 fun b hb => ?_⟩
  have hnodup : ∀ b ∈ remembered.blocks, (b.tables.map (·.id)).Nodup ∧
      (b.filters.map (·.id)).Nodup ∧ (b.subqueries.map (·.id)).Nodup := by decide +kernel
  obtain ⟨htables, hfilters, hnested⟩ := hnodup b hb
  exact ⟨htables, hfilters, hnested⟩

/-- A text with a table in front, and with the named query written in another case.  The table is
new, and everything else has the identifiers that it had. -/
theorem identities_are_followed_behind_a_table :
    let text := "WITH W AS (SELECT b FROM o) SELECT v.a FROM v, u, W WHERE u.a IN (SELECT b FROM p)"
    ∃ q c n', Query.parse .generic text = .ok q ∧ (readCanvas .empty q).run 32 = (.ok c, n') ∧
      remembered.Distinct ∧ (∀ id ∈ c.ids, id ∉ remembered.ids) ∧
      c.root.tables.map (·.name) = ["v", "u", "W"] ∧
      Canvas.Followed remembered c (remembered.carryOver c) := by
  intro text
  have hread : ((Query.parse .generic text).toOption.map fun q =>
      ((readCanvas .empty q).run 32).1.toOption.map fun c : Canvas =>
        (c.ids, c.root.tables.map (·.name))) =
      some (some ([33, 34, 35, 36, 33, 38, 39, 39, 38, 37, 32].map EntityId.minted,
        ["v", "u", "W"])) := by
    decide +kernel
  obtain ⟨q, hq, hcanvas⟩ := Option.map_eq_some_iff.1 hread
  obtain ⟨c, n', hrun, hfound⟩ := gives_of_toOption hcanvas
  obtain ⟨hids, htables⟩ := Prod.mk.inj hfound
  have hold : remembered.ids = [1, 2, 1, 3, 5, 6, 6, 5, 4, 0].map EntityId.minted := rfl
  have hnew : ∀ id ∈ c.ids, id ∉ remembered.ids := by
    rw [hids, hold, List.forall_mem_map]
    intro k hk hmem
    rw [List.mem_map_of_injective fun _ _ => EntityId.minted_injective] at hmem
    revert k
    decide
  refine ⟨q, c, n', ?_, hrun, distinct_remembered, hnew, htables,
    identities_are_followed .empty q 32 n' remembered c hrun distinct_remembered hnew⟩
  cases hparse : Query.parse .generic text with
  | error e =>
    rw [hparse] at hq
    cases hq
  | ok q' =>
    rw [hparse] at hq
    exact congrArg Except.ok (Option.some.inj hq)

end Sql

end QueryCanvas
