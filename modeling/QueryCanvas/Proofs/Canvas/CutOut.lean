import QueryCanvas.Proofs.Canvas.Numbered

/-!
# A nested query taken from a canvas

A nested query is removed wherever it stands: from the first block that owns one of its identifier,
in the order in which a block comes before the blocks below it.  Around that block there is a hole,
so nothing else on the canvas changes.  If no two nested queries share an identifier, those that are
gone afterwards are exactly the removed one and all below it.
-/

set_option autoImplicit false

namespace QueryCanvas

/-- The filter, holding the empty value if it compared with the nested query. -/
def Filter.release (id : EntityId) (f : Filter) : Filter :=
  if f.operand.subquery? = some id then { f with operand := .value "" } else f

theorem Filter.release_operand_ne (id : EntityId) (f : Filter) :
    (f.release id).operand ≠ .subquery id := by
  unfold release
  split
  · exact fun h => by cases h
  · rename_i hne
    exact fun h => hne (by rw [h]; rfl)

namespace Block

variable {b : Block} {id i : EntityId}

/-! ## Identifiers in a tree -/

theorem mem_nestedIds : i ∈ b.nestedIds ↔
    i ∈ b.subqueries.map (·.id) ∨ ∃ s ∈ b.subqueries, i ∈ s.block.nestedIds := by
  rw [nestedIds, blocks_eq, List.flatMap_cons, List.flatMap_assoc, List.mem_append,
    List.mem_flatMap]
  rfl

theorem isSome_subquery? : (b.subquery? id).isSome ↔ id ∈ b.subqueries.map (·.id) := by
  rw [subquery?, List.find?_isSome]
  simp

/-- Looking up finds exactly the identifiers of a tree. -/
theorem isSome_nested? (i : EntityId) : ∀ b : Block, (b.nested? i).isSome ↔ i ∈ b.nestedIds := by
  refine tree_induction fun b ih => ?_
  rw [nested?_eq, List.isSome_findSome?, List.any_eq_true, mem_nestedIds]
  constructor
  · rintro ⟨s, hs, hfound⟩
    split at hfound
    · rename_i hid
      exact .inl (List.mem_map.2 ⟨s, hs, hid⟩)
    · exact .inr ⟨s, hs, (ih s hs).1 hfound⟩
  · rintro (hmem | ⟨s, hs, hmem⟩)
    · obtain ⟨s, hs, hid⟩ := List.mem_map.1 hmem
      exact ⟨s, hs, by rw [if_pos hid]; rfl⟩
    · refine ⟨s, hs, ?_⟩
      split
      · rfl
      · exact (ih s hs).2 hmem

/-! ## Where a nested query is removed -/

theorem removeNested?_eq (id : EntityId) (b : Block) : b.removeNested? id =
    if (b.subquery? id).isSome then some (b.removeSubquery id)
    else (removeNestedIn? id b.subqueries).map fun subs => { b with subqueries := subs } := by
  cases b
  rw [removeNested?]

theorem removeNestedIn?_append {before : List Subquery}
    (h : ∀ s ∈ before, s.block.removeNested? id = none) (rest : List Subquery) :
    removeNestedIn? id (before ++ rest) = (removeNestedIn? id rest).map (before ++ ·) := by
  induction before with
  | nil => exact Option.map_id'.symm
  | cons s before ih =>
    obtain ⟨hs, hbefore⟩ := List.forall_mem_cons.1 h
    rw [List.cons_append, removeNestedIn?, hs, ih hbefore]
    exact Option.map_map ..

/-- Nothing is removed from a tree that does not hold the nested query. -/
theorem removeNested?_eq_none (id : EntityId) :
    ∀ b : Block, id ∉ b.nestedIds → b.removeNested? id = none := by
  refine tree_induction fun b ih h => ?_
  rw [mem_nestedIds, not_or] at h
  obtain ⟨hown, hbelow⟩ := h
  have hnone : ∀ s ∈ b.subqueries, s.block.removeNested? id = none :=
    fun s hs => ih s hs fun hmem => hbelow ⟨s, hs, hmem⟩
  have hlist := removeNestedIn?_append hnone []
  rw [List.append_nil] at hlist
  rw [removeNested?_eq, if_neg (isSome_subquery?.not.2 hown), hlist]
  rfl

/-- A nested query of a tree is removed from a block that owns it, and the tree around that block
stays. -/
theorem removeNested?_of_mem (id : EntityId) : ∀ b : Block, id ∈ b.nestedIds →
    ∃ (hole : Hole) (owner : Block), b = hole.fill owner ∧ (owner.subquery? id).isSome ∧
      b.removeNested? id = some (hole.fill (owner.removeSubquery id)) := by
  refine tree_induction fun b ih h => ?_
  by_cases hown : (b.subquery? id).isSome
  · exact ⟨.here, b, rfl, hown, by rw [removeNested?_eq, if_pos hown]; rfl⟩
  · obtain ⟨r, hr, hbelow⟩ := (mem_nestedIds.1 h).resolve_left (isSome_subquery?.not.1 hown)
    -- the first member of the list that holds the nested query is the one that is searched
    obtain ⟨s, hs⟩ := Option.isSome_iff_exists.1 (List.find?_isSome.2
      ⟨r, hr, decide_eq_true hbelow⟩ : (b.subqueries.find? (id ∈ ·.block.nestedIds)).isSome)
    obtain ⟨before, after, hsubs, hmem, hbefore⟩ := Canvas.split_of_find? hs
    obtain ⟨hole, owner, hfill, howner, hremoved⟩ :=
      ih s (hsubs ▸ List.mem_append_right _ List.mem_cons_self) (of_decide_eq_true hmem)
    refine ⟨.inside b before s.shell hole after, owner, ?_, howner, ?_⟩
    · have hshell : s.shell.holding (hole.fill owner) = s := by
        rw [← hfill]
        rfl
      rw [← hshell] at hsubs
      cases b
      exact congrArg _ hsubs
    · have hnone : ∀ p ∈ before, p.block.removeNested? id = none := fun p hp =>
        removeNested?_eq_none id _ (of_decide_eq_false (hbefore p hp))
      rw [removeNested?_eq, if_neg hown, hsubs, removeNestedIn?_append hnone, removeNestedIn?,
        hremoved]
      rfl

/-- What a block is without a nested query that it owns. -/
theorem removeSubquery_of_owned (h : (b.subquery? id).isSome) :
    ∃ before sub after, b.subqueries = before ++ sub :: after ∧ sub.id = id ∧
      b.removeSubquery id =
        { b with subqueries := before ++ after, filters := b.filters.map (Filter.release id) } := by
  obtain ⟨sub, hsub⟩ := Option.isSome_iff_exists.1 h
  obtain ⟨before, after, hsubs, hid, hbefore⟩ := Canvas.split_of_find? hsub
  refine ⟨before, sub, after, hsubs, of_decide_eq_true hid, ?_⟩
  have hrest : b.subqueries.eraseP (·.id = id) = before ++ after := by
    rw [hsubs, List.eraseP_append_right _ fun s hs => by simpa using hbefore s hs,
      List.eraseP_cons_of_pos (by exact hid)]
  have hsome : ¬(b.subquery? id).isNone := by
    rw [hsub]
    exact Bool.false_ne_true
  unfold removeSubquery
  rw [if_neg hsome, hrest]
  rfl

/-- The identifiers of a block with a nested query are those of the block without it, and those of
the nested query and all below it. -/
theorem nestedIds_owned {before after : List Subquery} {sub : Subquery}
    (h : b.subqueries = before ++ sub :: after) (filters : List Filter) :
    b.nestedIds.Perm
      ({ b with subqueries := before ++ after, filters }.nestedIds ++ nodeIds sub.node) := by
  refine b.nestedIds_perm.trans (.trans ?_ ((nestedIds_perm _).symm.append_right _))
  rw [h]
  simp only [List.map_append, List.map_cons, List.flatMap_append, List.flatMap_cons,
    List.append_assoc]
  exact List.Perm.append_left _ List.perm_append_comm

end Block

namespace Canvas

variable {c : Canvas} {id i : EntityId}

theorem mem_nestedIds : i ∈ c.nestedIds ↔
    i ∈ c.root.nestedIds ∨ ∃ q ∈ c.ctes, i ∈ q.block.nestedIds := by
  rw [nestedIds_eq, List.mem_append, List.mem_flatMap]

theorem isSome_nested? : (c.nested? i).isSome ↔ i ∈ c.nestedIds := by
  rw [mem_nestedIds, ← Block.isSome_nested?]
  unfold nested?
  split
  · rename_i hroot
    simp [hroot]
  · rename_i hroot
    rw [List.isSome_findSome?, List.any_eq_true]
    simp [hroot, Block.isSome_nested?]

theorem removeNestedInCtes?_append {before : List Cte}
    (h : ∀ q ∈ before, q.block.removeNested? id = none) (rest : List Cte) :
    removeNestedInCtes? id (before ++ rest) =
      (removeNestedInCtes? id rest).map (before ++ ·) := by
  induction before with
  | nil => exact Option.map_id'.symm
  | cons q before ih =>
    obtain ⟨hq, hbefore⟩ := List.forall_mem_cons.1 h
    rw [List.cons_append, removeNestedInCtes?, hq, ih hbefore]
    exact Option.map_map ..

theorem removeSubquery?_eq_none (h : id ∉ c.nestedIds) : c.removeSubquery? id = none := by
  rw [mem_nestedIds, not_or] at h
  obtain ⟨hroot, hctes⟩ := h
  have hnone : ∀ q ∈ c.ctes, q.block.removeNested? id = none := fun q hq =>
    Block.removeNested?_eq_none id _ fun hmem => hctes ⟨q, hq, hmem⟩
  have hlist := removeNestedInCtes?_append hnone []
  rw [List.append_nil] at hlist
  rw [removeSubquery?, Block.removeNested?_eq_none id _ hroot, hlist]
  rfl

/-- A nested query of a canvas is removed from a block that owns it, and the canvas around that
block stays. -/
theorem removeSubquery?_of_mem (h : id ∈ c.nestedIds) :
    ∃ (hole : Hole) (owner : Block), c = hole.fill owner ∧ (owner.subquery? id).isSome ∧
      c.removeSubquery? id = some (hole.fill (owner.removeSubquery id)) := by
  obtain ⟨ctes, root⟩ := c
  by_cases hroot : id ∈ root.nestedIds
  · obtain ⟨hole, owner, rfl, howner, hremoved⟩ := Block.removeNested?_of_mem id root hroot
    refine ⟨.inRoot ctes hole, owner, rfl, howner, ?_⟩
    simp only [removeSubquery?, hremoved]
    rfl
  · obtain ⟨p, hp, hmem⟩ := (mem_nestedIds.1 h).resolve_left hroot
    obtain ⟨q, hq⟩ := Option.isSome_iff_exists.1 (List.find?_isSome.2
      ⟨p, hp, decide_eq_true hmem⟩ : (ctes.find? (id ∈ ·.block.nestedIds)).isSome)
    obtain ⟨before, after, rfl, hmem, hbefore⟩ := split_of_find? hq
    obtain ⟨hole, owner, hfill, howner, hremoved⟩ :=
      Block.removeNested?_of_mem id q.block (of_decide_eq_true hmem)
    have hnone : ∀ p ∈ before, p.block.removeNested? id = none := fun p hp =>
      Block.removeNested?_eq_none id _ (of_decide_eq_false (hbefore p hp))
    refine ⟨.inCte root before q hole after, owner, ?_, howner, ?_⟩
    · rw [Hole.fill, ← hfill]
    · simp only [removeSubquery?, Block.removeNested?_eq_none id _ hroot,
        removeNestedInCtes?_append hnone, removeNestedInCtes?, hremoved]
      rfl

/-- The second canvas is the first one without a nested query. -/
structure CutOut (sub : Subquery) (c c' : Canvas) : Prop where
  /-- One block owned it.  It has its other nested queries as before, its filters that compared with
  the removed one hold the empty value, and all around this block is as before. -/
  place : ∃ (hole : Hole) (owner : Block) (before after : List Subquery),
    c = hole.fill owner ∧ owner.subqueries = before ++ sub :: after ∧
      c' = hole.fill { owner with
        subqueries := before ++ after, filters := owner.filters.map (Filter.release sub.id) }
  /-- It and those below it are gone, and no others. -/
  gone : ∀ i, i ∈ c'.nestedIds ↔ i ∈ c.nestedIds ∧ i ∉ Block.nodeIds sub.node
  /-- If only filters of the block that owned it compared with it, none does any more. -/
  unlinked : (∀ b ∈ c.blocks, ∀ f ∈ b.filters, f.operand = .subquery sub.id →
      sub.id ∈ b.subqueries.map (·.id)) →
    ∀ b ∈ c'.blocks, ∀ f ∈ b.filters, f.operand ≠ .subquery sub.id

/-- The filters of the block compare with the nested query only if the block owns it. -/
def LinksOwn (id : EntityId) (b : Block) : Prop :=
  ∀ f ∈ b.filters, f.operand = .subquery id → id ∈ b.subqueries.map (·.id)

theorem shallow_linksOwn (id : EntityId) : Block.Shallow (LinksOwn id) := by
  intro b subs hshell h f hf hop
  have hids := congrArg (List.map (·.id)) hshell
  simp only [List.map_map] at hids
  exact hids.symm ▸ h f hf hop

theorem linksOwn_removeSubquery {b : Block} (h : LinksOwn id b) :
    LinksOwn id (b.removeSubquery id) := by
  unfold Block.removeSubquery
  split
  · exact h
  · intro f hf hop
    obtain ⟨g, hg, rfl⟩ := List.mem_map.1 hf
    exact absurd hop (g.release_operand_ne id)

/-- Removing a nested query takes it and all below it from the canvas, and nothing else. -/
theorem cutOut_removeSubquery (hids : c.nestedIds.Nodup) (h : id ∈ c.nestedIds) :
    ∃ sub c', sub.id = id ∧ c.removeSubquery? id = some c' ∧ CutOut sub c c' := by
  have hown := fun hlinks : c.Everywhere (LinksOwn id) =>
    hlinks.removeSubquery (shallow_linksOwn id) id fun _ hb => linksOwn_removeSubquery hb
  obtain ⟨hole, owner, hfill, howner, hremoved⟩ := removeSubquery?_of_mem h
  obtain ⟨before, sub, after, hsubs, hid, hrest⟩ := Block.removeSubquery_of_owned howner
  rw [hrest] at hremoved
  set owner' : Block := { owner with
    subqueries := before ++ after, filters := owner.filters.map (Filter.release id) } with howner'
  rw [hremoved, Option.getD_some] at hown
  have hperm : c.nestedIds.Perm ((hole.fill owner').nestedIds ++ Block.nodeIds sub.node) := by
    rw [hfill]
    refine (hole.nestedIds_fill owner).trans (.trans ?_
      ((hole.nestedIds_fill owner').symm.append_right _))
    rw [List.append_assoc]
    exact List.Perm.append_left _ (Block.nestedIds_owned hsubs _)
  have hnodup := hperm.nodup_iff.1 hids
  have hgone : ∀ i, i ∈ (hole.fill owner').nestedIds ↔
      i ∈ c.nestedIds ∧ i ∉ Block.nodeIds sub.node := by
    intro i
    rw [hperm.mem_iff, List.mem_append]
    exact ⟨fun hi => ⟨.inl hi, fun hsub => List.disjoint_of_nodup_append hnodup hi hsub⟩,
      fun hi => hi.1.resolve_right hi.2⟩
  have hself : id ∉ (hole.fill owner').nestedIds := fun hmem =>
    ((hgone id).1 hmem).2 (hid ▸ List.mem_cons_self)
  refine ⟨sub, hole.fill owner', hid, hremoved,
    ⟨hole, owner, before, after, hfill, hsubs, by rw [howner', hid]⟩, hgone, fun hlinks => ?_⟩
  rw [hid] at hlinks ⊢
  intro b hb f hf hop
  have hmem := everywhere_iff_blocks.1 (hown (everywhere_iff_blocks.2 hlinks)) b hb f hf hop
  exact hself (List.mem_flatMap.2 ⟨b, hb, hmem⟩)

end Canvas

end QueryCanvas
