import QueryCanvas.Proofs.CarryOver.Kept
import QueryCanvas.Proofs.Reading.Numbered

/-!
# Identifiers of a canvas that takes over identities

Tables, filters, named queries and nested queries each take over the identifier of another one at
most once, so identifiers that did not repeat before do not repeat afterwards.  Of a join it is only
said here that its identifier was given out.
-/

set_option autoImplicit false

namespace QueryCanvas

/-- What is yielded by members that each take something over is what the things taken over yielded,
and what the members yielded before. -/
theorem subperm_flatMap_taken {α β γ : Type} {l : List α} {olds : List β} {taken : α → Option β}
    {after before : α → List γ} {yield : β → List γ}
    (htaken : (l.filterMap taken).Subperm olds)
    (hafter : ∀ a ∈ l, (after a).Subperm ((taken a).toList.flatMap yield ++ before a)) :
    (l.flatMap after).Subperm (olds.flatMap yield ++ l.flatMap before) := by
  have hsplit : (l.flatMap fun a => (taken a).toList.flatMap yield ++ before a).Perm
      ((l.filterMap taken).flatMap yield ++ l.flatMap before) := by
    refine (List.flatMap_append_perm l _ _).symm.trans (List.Perm.of_eq ?_)
    rw [← List.flatMap_assoc, List.filterMap_eq_flatMap_toList]
  refine (subperm_flatMap hafter).trans (hsplit.subperm.trans ?_)
  obtain ⟨some?, hperm, hsub⟩ := htaken
  refine (List.subperm_append_right _).2 ?_
  exact (hperm.symm.flatMap_right yield).subperm.trans (hsub.flatMap yield).subperm

/-- What a join connects. -/
def Join.tie (j : Join) : EntityId × String × EntityId × String :=
  (j.sourceTable, j.sourceColumn, j.targetTable, j.targetColumn)

namespace Block

variable {n n' : Nat} {ctes : List EntityId} {old b : Block}

/-! ## Filters and aggregates -/

theorem carryFilters_ids (olds filters : List Filter) :
    ((carryFilters olds filters).map (·.id)).Subperm
      (olds.map (·.id) ++ filters.map (·.id)) := by
  induction filters generalizing olds with
  | nil => cases olds <;> exact List.nil_subperm
  | cons f rest ih =>
    cases olds with
    | nil => exact List.Subperm.refl _
    | cons old olds =>
      rw [carryFilters, List.map_cons, List.map_cons, List.map_cons, List.cons_append]
      have hmid : (olds.map (·.id) ++ f.id :: rest.map (·.id)).Perm
          (f.id :: (olds.map (·.id) ++ rest.map (·.id))) := List.perm_middle
      split
      · refine (List.subperm_cons old.id).2 ((ih olds).trans ?_)
        exact ((List.sublist_cons_self f.id _).subperm.trans hmid.symm.subperm)
      · refine .trans ?_ (List.sublist_cons_self old.id _).subperm
        exact ((List.subperm_cons f.id).2 (ih olds)).trans hmid.symm.subperm

theorem relinkFilter_id (r : Renaming) (f : Filter) : (relinkFilter r f).id = f.id := by
  unfold relinkFilter
  split <;> rfl

theorem grows_restoreAggregates (old b : Block) : Grows [] b (restoreAggregates old b) := by
  have hstep : ∀ (table column : String) (a : ColumnAggregate) (b : Block),
      Grows [] b (b.restoreAggregate table column a) := by
    intro table column a b
    unfold restoreAggregate
    dsimp only
    split
    · exact { Grows.refl [] b with
        aggregates := keys_of_sublist List.eraseP_sublist
        tables := keys_updateFirst fun t => (Table.sameBox_setAggregate t column (some a)).1 }
    · exact Grows.refl [] b
  unfold restoreAggregates
  refine List.foldlRecOn _ _ (Grows.refl [] b) fun b' hb' t _ => ?_
  exact List.foldlRecOn _ _ hb' fun b'' hb'' e _ => hb''.before (hstep _ _ _ b'')

/-! ## Joins -/

/-- The join that connects the given. -/
def joinTying? (b : Block) (tie : EntityId × String × EntityId × String) : Option Join :=
  b.joins.find? fun j => j.tie = tie

theorem joinTying?_mem {tie : EntityId × String × EntityId × String} {j : Join}
    (h : b.joinTying? tie = some j) : j ∈ b.joins ∧ j.tie = tie := by
  unfold joinTying? at h
  refine ⟨List.mem_of_find?_eq_some h, ?_⟩
  simpa using List.find?_some h

theorem carryJoin_id (old : Block) (r : Renaming) (j : Join) :
    (carryJoin old r j).id =
      Renaming.kept (j.id, (old.joinTying? (carryJoin old r j).tie).map (·.id)) := by
  have hsame : old.joinTying? (carryJoin old r j).tie = old.joins.find? fun before =>
      before.sourceTable = r.apply j.sourceTable && before.targetTable = r.apply j.targetTable
        && before.sourceColumn = j.sourceColumn && before.targetColumn = j.targetColumn := by
    refine congrArg (old.joins.find? ·) (funext fun before => ?_)
    rw [Bool.eq_iff_iff]
    simp only [Join.tie, carryJoin, Prod.mk.injEq, decide_eq_true_eq, Bool.and_eq_true]
    tauto
  rw [hsame]
  rfl

/-! ## Blocks -/

/-- Identifiers do not repeat in a block that took over from one in which they did not, joins
apart. -/
theorem Drawn.numbered_carryOver (hb : b.Drawn n n' ctes) (hnew : b.Numbered n n')
    (hold : old.Numbered 0 n) (hn : n ≤ n') : (old.carryOver b).Numbered 0 n' := by
  have hlater : ∀ {ids}, Serial n n' ids → Serial 0 n' ids :=
    fun h => h.mono (Nat.zero_le n) (Nat.le_refl n')
  have hrenamed : Numbered 0 n' { b with
      tables := b.tables.map (carryTable old)
      joins := b.joins.map (carryJoin old (tableRenaming old b.tables)) } := by
    refine ⟨hb.carriedIds hold.tables hn, fun id hid => ?_, hlater hnew.filters,
      hlater hnew.groupBy, hlater hnew.having, hlater hnew.orderBy, hlater hnew.aggregates⟩
    obtain ⟨_, hcarried, rfl⟩ := List.mem_map.1 hid
    obtain ⟨j, hj, rfl⟩ := List.mem_map.1 hcarried
    rw [carryJoin_id]
    cases ho : old.joinTying? (carryJoin old (tableRenaming old b.tables) j).tie with
    | none =>
      exact (hnew.joins _ (List.mem_map_of_mem hj)).mono (Nat.zero_le n) (Nat.le_refl n')
    | some o =>
      have hbefore := hold.joins _ (List.mem_map_of_mem (joinTying?_mem ho).1)
      exact hbefore.mono (Nat.le_refl 0) hn
  have hrestored := hrenamed.grow (grows_restoreAggregates old _) Serial.nil (Nat.zero_le n')
    (Nat.le_refl n')
  rw [carryOver_eq]
  refine ⟨hrestored.tables, hrestored.joins, ?_, hrestored.groupBy, hrestored.having,
    hrestored.orderBy, hrestored.aggregates⟩
  have hfilters : (carryWith old b (carryNested old.subqueries b.subqueries)).filters.map (·.id) =
      (carryFilters old.filters b.filters).map (·.id) := by
    rw [← carryOver_eq, carryOver_filters, List.map_map]
    exact List.map_congr_left fun f _ => relinkFilter_id _ f
  rw [hfilters]
  exact (hold.filters.append hnew.filters (Nat.zero_le n) hn).subperm (carryFilters_ids _ _)

/-! ## Nested queries -/

theorem nodes_carryOver (old b : Block) :
    (old.carryOver b).subqueries.map (·.node) =
      (paired old.subqueries b.subqueries).map fun p => (carriedSubquery p).node := by
  obtain ⟨tables, aggregates, h⟩ := carryOver_eq_renamed old b
  rw [h]
  show List.map SubqueryOf.node (List.map _ (carryNested _ _)) = _
  rw [carryNested_eq, List.map_map, List.map_map]
  rfl

/-- The nested queries of a tree after it took over from another one are nested queries of
either. -/
theorem nestedIds_carryOver : ∀ b old : Block,
    (old.carryOver b).nestedIds.Subperm (old.nestedIds ++ b.nestedIds) := by
  refine tree_induction fun b ih old => ?_
  have hbefore : (b.subqueries.map (·.node)).flatMap nodeIds =
      (paired old.subqueries b.subqueries).flatMap fun p => nodeIds p.1.node := by
    rw [← map_fst_paired old.subqueries b.subqueries, List.map_map, List.flatMap_map,
      map_fst_paired]
    rfl
  refine (nestedIds_perm _).subperm.trans (.trans ?_
    (old.nestedIds_perm.symm.append b.nestedIds_perm.symm).subperm)
  rw [nodes_carryOver, hbefore, List.flatMap_map, List.flatMap_map]
  refine subperm_flatMap_taken (paired_olds_subperm old.subqueries b.subqueries) fun p hp => ?_
  obtain ⟨s, _ | o⟩ := p
  · exact List.Subperm.refl _
  · have hbelow := ih s (mem_paired hp).1 o.block
    have hskip : (o.block.nestedIds ++ s.block.nestedIds).Sublist
        (o.block.nestedIds ++ s.id :: s.block.nestedIds) :=
      List.Sublist.append_left (List.sublist_cons_self _ _) _
    show (o.id :: (o.block.carryOver s.block).nestedIds).Subperm _
    simp only [Option.toList_some, List.flatMap_singleton]
    exact (List.subperm_cons o.id).2 (hbelow.trans hskip.subperm)

/-! ## Links to named queries -/

theorem grows_relinked (r : Renaming) (b : Block) : Grows [] b (b.relinked r) := by
  refine { Grows.refl [] b with tables := ?_ }
  rw [relinked, List.map_map, List.append_nil]
  exact List.Sublist.refl _

end Block

namespace Canvas

variable {n n' : Nat} {old c : Canvas} {focus : Focus}

/-! ## Canvases -/

/-- No named query is taken over from twice. -/
theorem ctes_taken_subperm (old : Canvas) {ctes : List Cte}
    (hnames : (ctes.map (·.name)).Pairwise fun name name' => ¬Text.sameName name name') :
    (ctes.filterMap fun q => old.cteNamed? q.name).Subperm old.ctes := by
  refine List.subperm_of_subset ?_ fun q hq => ?_
  · refine List.pairwise_filterMap.2 ((Matching.pairwise_found old.ctes hnames).imp ?_)
    intro q r hne x hx y hy
    exact hne x hx y hy
  · obtain ⟨r, -, hr⟩ := List.mem_filterMap.1 hq
    exact List.mem_of_find?_eq_some hr

variable {catalog : Catalog}

theorem nestedIds_carryOver (h : Sql.CanvasReached catalog n n' c) (old : Canvas) :
    (old.carryOver c).nestedIds.Subperm (old.nestedIds ++ c.nestedIds) := by
  have hctes : ((c.ctes.map (carryCte old)).flatMap (·.block.nestedIds)).Subperm
      (old.ctes.flatMap (·.block.nestedIds) ++ c.ctes.flatMap (·.block.nestedIds)) := by
    rw [List.flatMap_map]
    refine subperm_flatMap_taken (ctes_taken_subperm old h.cteNames) fun q _ => ?_
    unfold carryCte
    cases old.cteNamed? q.name with
    | none => exact List.Subperm.refl _
    | some before =>
      rw [Option.toList_some, List.flatMap_singleton]
      exact Block.nestedIds_carryOver q.block before.block
  refine (nestedIds_mapBlocks _ (Block.grows_relinked _)).trans ?_
  rw [nestedIds_eq, nestedIds_eq old, nestedIds_eq c]
  refine ((Block.nestedIds_carryOver c.root old.root).append hctes).trans (List.Perm.subperm ?_)
  rw [List.append_assoc, List.append_assoc]
  refine List.Perm.append_left _ ?_
  rw [← List.append_assoc, ← List.append_assoc]
  exact List.perm_append_comm.append_right _

/-- Identifiers do not repeat on a canvas that took over from one on which they did not, joins
apart. -/
theorem Numbered.carryOver (hold : old.Numbered n) (h : Sql.CanvasReached catalog n n' c) :
    (old.carryOver c).Numbered n' where
  blocks := by
    have hcarried := everywhere_carried (R := Block.Numbered 0 n')
      (fun b hb => hb.2.1.mono (Nat.zero_le n) (Nat.le_refl n'))
      (fun b old hb hold => hb.1.numbered_carryOver hb.2.1 hold h.le) h.drawn_apart hold.blocks
    exact hcarried.mapBlocks (Block.stable_numbered.shallow n') (fun b hb =>
      Block.stable_numbered.grow (Block.grows_relinked _ b) Serial.nil (Nat.le_refl n') hb)
      fun _ _ hs => hs
  cteIds := by
    have hnews := h.drawn.cteIds
    have hmatching := matching_ctes hold.cteIds.nodup hnews.nodup h.cteNames
      (Block.apart_of_between hold.cteIds hnews)
    rw [cteIds_carryOver, map_carryCte_id]
    refine hmatching.serial_kept (fun id hid => ?_) (fun id hid => ?_) h.le
    · rw [cteMatches, List.map_map] at hid
      exact hnews.between id hid
    · obtain ⟨_, hp, hid⟩ := List.mem_filterMap.1 hid
      obtain ⟨q, -, rfl⟩ := List.mem_map.1 hp
      obtain ⟨before, hbefore, rfl⟩ := Option.map_eq_some_iff.1 hid
      exact hold.cteIds.between _ (List.mem_map_of_mem (List.mem_of_find?_eq_some hbefore))
  nestedIds := (hold.nestedIds.append h.fresh.nestedIds (Nat.zero_le n) h.le).subperm
    (nestedIds_carryOver h old)

end Canvas

end QueryCanvas
