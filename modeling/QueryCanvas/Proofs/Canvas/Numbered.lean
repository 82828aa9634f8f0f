import Mathlib.Data.List.Flatten
import Mathlib.Data.List.Nodup
import Mathlib.Data.List.Perm.Basic
import QueryCanvas.Proofs.Canvas.Grown
import QueryCanvas.Proofs.Canvas.Hole

/-!
# Identifiers that do not repeat

On a numbered canvas each collection of a block has different identifiers, so have the named
queries, and so have the nested queries of the whole canvas; all of them were given out before the
counter came to where it stands.  The joins are left out: of them only the latter is said.  Every
edit keeps a canvas numbered, and it keeps joins apart where they are.
-/

set_option autoImplicit false

namespace QueryCanvas

/-! ## Lists of identifiers -/

namespace Serial

variable {lo n hi : Nat} {ids news : List EntityId}

theorem sublist {ids' : List EntityId} (h : Serial lo hi ids) (hsub : ids'.Sublist ids) :
    Serial lo hi ids' :=
  ⟨h.nodup.sublist hsub, fun id hid => h.between id (hsub.subset hid)⟩

theorem subperm {ids' : List EntityId} (h : Serial lo hi ids) (hsub : ids'.Subperm ids) :
    Serial lo hi ids' := by
  obtain ⟨l, hperm, hl⟩ := hsub
  exact ⟨hperm.nodup_iff.1 (h.nodup.sublist hl),
    fun id hid => h.between id (hl.subset (hperm.mem_iff.2 hid))⟩

/-- What was given out earlier does not repeat what was given out later. -/
theorem append (h : Serial lo n ids) (hnews : Serial n hi news) (hlo : lo ≤ n) (hhi : n ≤ hi) :
    Serial lo hi (ids ++ news) := by
  refine ⟨List.nodup_append.2 ⟨h.nodup, hnews.nodup, fun a ha b hb => ?_⟩, fun id hid => ?_⟩
  · exact (h.between a ha).ne (hnews.between b hb)
  · rcases List.mem_append.1 hid with hid | hid
    · exact (h.between id hid).mono (Nat.le_refl lo) hhi
    · exact (hnews.between id hid).mono hlo (Nat.le_refl hi)

theorem single (n : Nat) : Serial n (n + 1) [EntityId.minted n] :=
  ⟨List.nodup_singleton _, by simpa using EntityId.between_minted (Nat.le_refl n)⟩

end Serial

/-- Where each member yields no more than before, so do all of them. -/
theorem subperm_flatMap {α β : Type} {f g : α → List β} :
    ∀ {l : List α}, (∀ a ∈ l, (f a).Subperm (g a)) → (l.flatMap f).Subperm (l.flatMap g)
  | [], _ => List.Subperm.refl _
  | a :: rest, h => by
    rw [List.flatMap_cons, List.flatMap_cons]
    obtain ⟨ha, hrest⟩ := List.forall_mem_cons.1 h
    exact ha.append (subperm_flatMap hrest)

namespace Block

/-! ## Blocks -/

/-- In each collection but the joins the identifiers are different, and they were given out, those
of the joins too, while the counter went from `lo` to `hi`. -/
structure Numbered (lo hi : Nat) (b : Block) : Prop where
  tables : Serial lo hi (b.tables.map (·.id))
  joins : ∀ id ∈ b.joins.map (·.id), id.Between lo hi
  filters : Serial lo hi (b.filters.map (·.id))
  groupBy : Serial lo hi (b.groupBy.map (·.id))
  having : Serial lo hi (b.having.map (·.id))
  orderBy : Serial lo hi (b.orderBy.map (·.id))
  aggregates : Serial lo hi (b.aggregates.map (·.id))

/-- The joins have different identifiers. -/
def JoinsApart (b : Block) : Prop := (b.joins.map (·.id)).Nodup

instance (b : Block) : Decidable b.JoinsApart := inferInstanceAs (Decidable (List.Nodup _))

/-- In every collection, that of the joins too, the identifiers are different. -/
def Apart (lo hi : Nat) (b : Block) : Prop := b.Numbered lo hi ∧ b.JoinsApart

variable {lo n hi : Nat} {news : List EntityId} {b b' : Block}

theorem numbered_empty : Block.empty.Numbered lo hi :=
  ⟨Serial.nil, by simp [Block.empty], Serial.nil, Serial.nil, Serial.nil, Serial.nil, Serial.nil⟩

theorem apart_empty : Block.empty.Apart lo hi := ⟨numbered_empty, List.nodup_nil⟩

/-- The nested queries do not matter. -/
theorem Numbered.withNested (h : b.Numbered lo hi) (subqueries : List Subquery) :
    { b with subqueries }.Numbered lo hi :=
  ⟨h.tables, h.joins, h.filters, h.groupBy, h.having, h.orderBy, h.aggregates⟩

theorem Apart.withNested (h : b.Apart lo hi) (subqueries : List Subquery) :
    { b with subqueries }.Apart lo hi :=
  ⟨h.1.withNested subqueries, h.2⟩

theorem Numbered.mono {lo' hi' : Nat} (h : b.Numbered lo hi) (hlo : lo' ≤ lo) (hhi : hi ≤ hi') :
    b.Numbered lo' hi' :=
  ⟨h.tables.mono hlo hhi, fun id hid => (h.joins id hid).mono hlo hhi, h.filters.mono hlo hhi,
    h.groupBy.mono hlo hhi, h.having.mono hlo hhi, h.orderBy.mono hlo hhi,
    h.aggregates.mono hlo hhi⟩

theorem Apart.mono {lo' hi' : Nat} (h : b.Apart lo hi) (hlo : lo' ≤ lo) (hhi : hi ≤ hi') :
    b.Apart lo' hi' :=
  ⟨h.1.mono hlo hhi, h.2⟩

/-- What is added later has other identifiers. -/
theorem Numbered.grow (h : b.Numbered lo n) (hgrows : Grows news b b') (hnews : Serial n hi news)
    (hlo : lo ≤ n) (hhi : n ≤ hi) : b'.Numbered lo hi := by
  have hserial : ∀ {ids ids' : List EntityId}, Serial lo n ids → ids'.Sublist (ids ++ news) →
      Serial lo hi ids' :=
    fun hids hsub => (hids.append hnews hlo hhi).sublist hsub
  refine ⟨hserial h.tables hgrows.tables, fun id hid => ?_, hserial h.filters hgrows.filters,
    hserial h.groupBy hgrows.groupBy, hserial h.having hgrows.having,
    hserial h.orderBy hgrows.orderBy, hserial h.aggregates hgrows.aggregates⟩
  rcases List.mem_append.1 (hgrows.joins.subset hid) with hid | hid
  · exact (h.joins id hid).mono (Nat.le_refl lo) hhi
  · exact (hnews.between id hid).mono hlo (Nat.le_refl hi)

theorem Apart.grow (h : b.Apart lo n) (hgrows : Grows news b b') (hnews : Serial n hi news)
    (hlo : lo ≤ n) (hhi : n ≤ hi) : b'.Apart lo hi :=
  ⟨h.1.grow hgrows hnews hlo hhi,
    ((Serial.append ⟨h.2, h.1.joins⟩ hnews hlo hhi).sublist hgrows.joins).nodup⟩

/-- What is said of a block and of the counter, if growing keeps it: it looks at the collections of
the block only, and what is added is given out later. -/
structure Stable (I : Nat → Block → Prop) : Prop where
  shallow : ∀ n, Shallow (I n)
  empty : ∀ n, I n Block.empty
  grow : ∀ {news : List EntityId} {n hi : Nat} {b b' : Block}, Grows news b b' →
    Serial n hi news → n ≤ hi → I n b → I hi b'

theorem stable_numbered : Stable (Numbered 0) :=
  ⟨fun _ _ subs _ h => h.withNested subs, fun _ => numbered_empty,
    fun hgrows hnews hhi h => h.grow hgrows hnews (Nat.zero_le _) hhi⟩

theorem stable_apart : Stable (Apart 0) :=
  ⟨fun _ _ subs _ h => h.withNested subs, fun _ => apart_empty,
    fun hgrows hnews hhi h => h.grow hgrows hnews (Nat.zero_le _) hhi⟩

theorem Stable.mono {I : Nat → Block → Prop} (hI : Stable I) (hn : n ≤ hi) (h : I n b) : I hi b :=
  hI.grow (Grows.refl [] b) Serial.nil hn h

/-! ## Nested queries of a tree -/

/-- The identifiers of all nested queries of the tree. -/
def nestedIds (b : Block) : List EntityId := b.blocks.flatMap fun c => c.subqueries.map (·.id)

/-- The identifier of a nested query and those of all below it. -/
def nodeIds (node : EntityId × Block) : List EntityId := node.1 :: node.2.nestedIds

theorem nestedIds_perm (b : Block) :
    b.nestedIds.Perm ((b.subqueries.map (·.node)).flatMap nodeIds) := by
  rw [nestedIds, blocks_eq, List.flatMap_cons, List.flatMap_assoc, List.flatMap_map]
  exact List.map_append_flatMap_perm b.subqueries (·.id) fun s => s.block.nestedIds

@[simp] theorem nestedIds_empty : Block.empty.nestedIds = [] := rfl

/-- A change that adds nested queries adds empty ones. -/
theorem Grows.nestedIds (h : Grows news b b') :
    b'.nestedIds.Subperm (b.nestedIds ++ news) := by
  have hnews : (news.map (·, Block.empty)).flatMap nodeIds = news := by
    simp [List.flatMap_map, nodeIds]
  have hnodes := (h.nested.flatMap nodeIds).subperm
  rw [List.flatMap_append, hnews] at hnodes
  exact (b'.nestedIds_perm.subperm.trans hnodes).trans
    (b.nestedIds_perm.symm.append_right news).subperm

/-- What holds of all nested queries of a block holds of them after it grew. -/
theorem Grows.everywhere {P Q : Block → Prop} (h : Grows news b b') (hweaker : ∀ c, P c → Q c)
    (hempty : Q Block.empty) (hself : Q b') (hb : b.Everywhere P) : b'.Everywhere Q := by
  refine everywhere_iff.2 ⟨hself, fun s hs => ?_⟩
  rcases List.mem_append.1 (h.nested.subset (List.mem_map_of_mem hs)) with hold | hnew
  · obtain ⟨r, hr, hnode⟩ := List.mem_map.1 hold
    rw [← (Prod.mk.inj hnode).2]
    exact ((everywhere_iff.1 hb).2 r hr).imp hweaker
  · obtain ⟨id, -, hnode⟩ := List.mem_map.1 hnew
    rw [← (Prod.mk.inj hnode).2]
    exact everywhere_iff.2 ⟨hempty, by simp [Block.empty]⟩

/-- What is below the members of a list, each with another block. -/
theorem nestedIds_subperm_of_map {subs : List Subquery} {f : Block → Block}
    (h : ∀ s ∈ subs, (f s.block).nestedIds.Subperm s.block.nestedIds) :
    (((subs.map fun s => { s with block := f s.block }).map (·.node)).flatMap nodeIds).Subperm
      ((subs.map (·.node)).flatMap nodeIds) := by
  rw [List.map_map, List.flatMap_map, List.flatMap_map]
  exact subperm_flatMap fun s hs => (List.subperm_cons s.id).2 (h s hs)

/-- A change of all blocks that adds no nested queries. -/
theorem nestedIds_mapBlocks {change : Block → Block} (h : ∀ b, Grows [] b (change b)) :
    ∀ b : Block, (b.mapBlocks change).nestedIds.Subperm b.nestedIds := by
  refine tree_induction fun b ih => ?_
  rw [mapBlocks_eq]
  refine ((h _).nestedIds.trans ?_).trans b.nestedIds_perm.symm.subperm
  rw [List.append_nil]
  exact (nestedIds_perm _).subperm.trans (nestedIds_subperm_of_map ih)

theorem ReplacedOne.nestedIds {subs subs' : List Subquery} {how : Subquery → Block → Prop}
    (h : ReplacedOne subs subs' how)
    (hnew : ∀ s ∈ subs, ∀ c, how s c → c.nestedIds.Subperm s.block.nestedIds) :
    ((subs'.map (·.node)).flatMap nodeIds).Subperm ((subs.map (·.node)).flatMap nodeIds) := by
  obtain ⟨before, s, after, b', rfl, rfl, hhow⟩ := h
  have hone : (nodeIds (s.id, b')).Subperm (nodeIds (s.id, s.block)) :=
    (List.subperm_cons s.id).2 (hnew s (by simp) b' hhow)
  simp only [List.map_append, List.map_cons, List.flatMap_append, List.flatMap_cons]
  exact (List.subperm_append_left _).2 ((List.subperm_append_right _).2 hone)

theorem nestedIds_removeNested? (id : EntityId) : ∀ b b' : Block,
    b.removeNested? id = some b' → b'.nestedIds.Subperm b.nestedIds := by
  refine tree_induction fun b ih b' h => ?_
  rcases removeNested?_eq_some h with rfl | ⟨subs', rfl, hone⟩
  · have hremoved := (grows_removeSubquery b id).nestedIds
    rwa [List.append_nil] at hremoved
  · refine (nestedIds_perm _).subperm.trans (.trans ?_ b.nestedIds_perm.symm.subperm)
    exact hone.nestedIds fun s hs c hc => ih s hs c hc

/-- A block that stands in a tree has its nested queries there, beside others. -/
theorem Hole.nestedIds_fill (hole : Hole) (b : Block) :
    (hole.fill b).nestedIds.Perm ((hole.fill Block.empty).nestedIds ++ b.nestedIds) := by
  induction hole with
  | here => exact List.Perm.refl _
  | inside outer before shell hole after ih =>
    have hnode : ∀ c, (Hole.fill (.inside outer before shell hole after) c).nestedIds.Perm
        ((before.map (·.node)).flatMap nodeIds ++
          (shell.id :: (hole.fill c).nestedIds ++ (after.map (·.node)).flatMap nodeIds)) := by
      intro c
      refine (nestedIds_perm _).trans (List.Perm.of_eq ?_)
      simp only [Hole.fill, List.map_append, List.map_cons, List.flatMap_append, List.flatMap_cons]
      rfl
    refine (hnode b).trans (.trans ?_ ((hnode Block.empty).append_right _).symm)
    rw [List.append_assoc]
    refine List.Perm.append_left _ ?_
    rw [List.cons_append, List.cons_append, List.cons_append, List.append_assoc]
    refine List.Perm.cons _ ((ih.append_right _).trans ?_)
    rw [List.append_assoc]
    exact List.Perm.append_left _ List.perm_append_comm

end Block

namespace Canvas

/-! ## Nested queries of a canvas -/

/-- The identifiers of all nested queries of the canvas. -/
def nestedIds (c : Canvas) : List EntityId := c.blocks.flatMap fun b => b.subqueries.map (·.id)

theorem nestedIds_eq (c : Canvas) :
    c.nestedIds = c.root.nestedIds ++ c.ctes.flatMap (·.block.nestedIds) := by
  rw [nestedIds, blocks, List.flatMap_append, List.flatMap_assoc]
  rfl

/-- A block that stands on a canvas has its nested queries there, beside others. -/
theorem Hole.nestedIds_fill (hole : Hole) (b : Block) :
    (hole.fill b).nestedIds.Perm ((hole.fill Block.empty).nestedIds ++ b.nestedIds) := by
  rw [nestedIds_eq, nestedIds_eq]
  cases hole with
  | inRoot ctes hole =>
    simp only [Hole.fill]
    refine ((hole.nestedIds_fill b).append_right _).trans ?_
    rw [List.append_assoc, List.append_assoc]
    exact List.Perm.append_left _ List.perm_append_comm
  | inCte root before q hole after =>
    simp only [Hole.fill, List.flatMap_append, List.flatMap_cons, List.append_assoc]
    refine List.Perm.append_left _ (List.Perm.append_left _ ?_)
    refine ((hole.nestedIds_fill b).append_right _).trans ?_
    rw [List.append_assoc]
    exact List.Perm.append_left _ List.perm_append_comm

variable {n : Nat} {c : Canvas} {news : List EntityId}

/-- Putting another block in the place of one adds no nested queries but those that the block
adds. -/
theorem Hole.nestedIds_refill (hole : Hole) {b b' : Block}
    (h : b'.nestedIds.Subperm (b.nestedIds ++ news)) :
    (hole.fill b').nestedIds.Subperm ((hole.fill b).nestedIds ++ news) := by
  refine (hole.nestedIds_fill b').subperm.trans ?_
  refine .trans ?_ ((hole.nestedIds_fill b).symm.append_right news).subperm
  rw [List.append_assoc]
  exact (List.subperm_append_left _).2 h

/-- A change through a pointer that leads nowhere changes nothing. -/
theorem updateBlock_of_none {focus : Focus} (h : c.block? focus = none) (change : Block → Block) :
    c.updateBlock focus change = c := by
  obtain ⟨ctes, root⟩ := c
  cases focus with
  | root => cases h
  | cte id =>
    have hnone := List.find?_eq_none.1 (Option.map_eq_none_iff.1 h)
    have hself := updateFirst_append (p := fun q : Cte => decide (q.id = id))
      (f := fun q : Cte => { q with block := change q.block })
      (fun q hq => by simpa using hnone q hq) []
    rw [List.append_nil] at hself
    exact congrArg (Canvas.mk · root) (hself.trans (List.append_nil ctes))
  | subquery id =>
    simp only [block?, nested?] at h
    split at h
    · cases h
    · rename_i hroot
      have hself : updateNestedInCtes id change (ctes ++ []) = _ :=
        updateNestedInCtes_append (List.findSome?_eq_none_iff.1 h) []
      rw [List.append_nil] at hself
      simp only [updateBlock, Block.updateNested?_eq_none hroot]
      exact congrArg (Canvas.mk · root) (hself.trans (List.append_nil ctes))

/-- A change of one block adds no nested queries but those that it adds to the block. -/
theorem nestedIds_updateBlock (c : Canvas) (focus : Focus) {change : Block → Block}
    (h : ∀ b, (change b).nestedIds.Subperm (b.nestedIds ++ news)) :
    (c.updateBlock focus change).nestedIds.Subperm (c.nestedIds ++ news) := by
  cases hb : c.block? focus with
  | none =>
    rw [updateBlock_of_none hb]
    exact (List.sublist_append_left _ _).subperm
  | some b =>
    obtain ⟨hole, hhole, rfl⟩ := exists_around hb
    rw [hhole.changed]
    exact hole.nestedIds_refill (h b)

theorem nestedIds_mapBlocks (c : Canvas) {change : Block → Block}
    (h : ∀ b, Block.Grows [] b (change b)) :
    (c.mapBlocks change).nestedIds.Subperm c.nestedIds := by
  rw [nestedIds_eq, nestedIds_eq, mapBlocks, List.flatMap_map]
  exact (Block.nestedIds_mapBlocks h c.root).append
    (subperm_flatMap fun q _ => Block.nestedIds_mapBlocks h q.block)

theorem nestedIds_removeNestedInCtes? {id : EntityId} {ctes ctes' : List Cte}
    (h : removeNestedInCtes? id ctes = some ctes') :
    (ctes'.flatMap (·.block.nestedIds)).Subperm (ctes.flatMap (·.block.nestedIds)) := by
  induction ctes generalizing ctes' with
  | nil => cases h
  | cons q rest ih =>
    rw [removeNestedInCtes?] at h
    rw [List.flatMap_cons]
    split at h
    · rename_i b hb
      cases h
      exact (Block.nestedIds_removeNested? id q.block b hb).append (List.Subperm.refl _)
    · obtain ⟨rest', hrest', rfl⟩ := Option.map_eq_some_iff.1 h
      exact (List.Subperm.refl _).append (ih hrest')

theorem nestedIds_removeSubquery (c : Canvas) (id : EntityId) :
    ((c.removeSubquery? id).getD c).nestedIds.Subperm c.nestedIds := by
  unfold removeSubquery?
  rw [nestedIds_eq, nestedIds_eq c]
  split
  · rename_i root hroot
    exact (Block.nestedIds_removeNested? id _ root hroot).append (List.Subperm.refl _)
  · cases hctes : removeNestedInCtes? id c.ctes with
    | none => exact List.Subperm.refl _
    | some ctes => exact (List.Subperm.refl _).append (nestedIds_removeNestedInCtes? hctes)

/-! ## Edits of a canvas -/

/-- What the canvas holds comes from another one, with entities under the identifiers `news` added
at most. -/
structure Grows (news : List EntityId) (c c' : Canvas) : Prop where
  blocks : ∀ {I : Nat → Block → Prop} {n hi : Nat}, Block.Stable I → Serial n hi news → n ≤ hi →
    c.Everywhere (I n) → c'.Everywhere (I hi)
  cteIds : c'.cteIds.Sublist (c.cteIds ++ news)
  nestedIds : c'.nestedIds.Subperm (c.nestedIds ++ news)

namespace Grows

variable {c' c'' : Canvas}

theorem refl (news : List EntityId) (c : Canvas) : Grows news c c where
  blocks hI _ hhi h := h.imp fun _ hb => hI.mono hhi hb
  cteIds := List.sublist_append_left _ _
  nestedIds := (List.sublist_append_left _ _).subperm

/-- A change that adds nothing comes before one that does. -/
theorem before (h : Grows [] c c') (h' : Grows news c' c'') : Grows news c c'' where
  blocks hI hnews hhi hc := h'.blocks hI hnews hhi (h.blocks hI Serial.nil (Nat.le_refl _) hc)
  cteIds := by
    have hids := h.cteIds
    rw [List.append_nil] at hids
    exact h'.cteIds.trans (hids.append_right news)
  nestedIds := by
    have hids := h.nestedIds
    rw [List.append_nil] at hids
    exact h'.nestedIds.trans ((List.subperm_append_right news).2 hids)

/-- A change that adds nothing adds no more than one that may add something. -/
theorem more (h : Grows [] c c') (news : List EntityId) : Grows news c c' := h.before (refl news c')

end Grows

theorem grows_updateBlock (c : Canvas) (focus : Focus) {change : Block → Block}
    (h : ∀ b, Block.Grows news b (change b)) : Grows news c (c.updateBlock focus change) where
  blocks hI hnews hhi hc := hc.updateBlock (fun _ hb => hI.mono hhi hb) (hI.shallow _)
    (fun b hb => (h b).everywhere (fun _ hc => hI.mono hhi hc) (hI.empty _)
      (hI.grow (h b) hnews hhi (Block.everywhere_iff.1 hb).1) hb) focus
  cteIds := by
    rw [cteIds_updateBlock]
    exact List.sublist_append_left _ _
  nestedIds := nestedIds_updateBlock c focus fun b => (h b).nestedIds

theorem grows_mapBlocks (c : Canvas) {change : Block → Block}
    (h : ∀ b, Block.Grows [] b (change b)) (hsubs : ∀ b, (change b).subqueries ⊆ b.subqueries) :
    Grows [] c (c.mapBlocks change) where
  blocks hI hnews hhi hc :=
    hc.mapBlocks (hI.shallow _) (fun b hb => hI.grow (h b) hnews hhi hb) hsubs
  cteIds := by
    rw [cteIds_mapBlocks, List.append_nil]
  nestedIds := by
    rw [List.append_nil]
    exact nestedIds_mapBlocks c h

theorem grows_updateLinked (c : Canvas) (id : EntityId) {change : Table → Table}
    (h : ∀ t : Table, t.SameBox (change t)) :
    Grows [] c (c.mapBlocks fun b => b.updateLinked id change) :=
  grows_mapBlocks c (fun b => Block.grows_updateLinked b id h) fun _ _ hs => hs

theorem grows_refreshCteColumns (c : Canvas) (id : EntityId) :
    Grows [] c (c.refreshCteColumns id) := by
  unfold refreshCteColumns
  split
  · exact Grows.refl [] c
  · exact grows_updateLinked c id fun _ => ⟨rfl, rfl⟩

theorem grows_addCte (c : Canvas) (id : EntityId) (name : String) (frame : Frame) :
    Grows [id] c (c.addCte id name frame) where
  blocks hI hnews hhi hc := by
    have hmono := hc.imp fun _ hb => hI.mono hhi hb
    refine ⟨hmono.1, fun q hq => ?_⟩
    rcases List.mem_append.1 hq with hq | hq
    · exact hmono.2 q hq
    · rw [List.mem_singleton.1 hq]
      exact Block.everywhere_iff.2 ⟨hI.empty _, by simp [Block.empty]⟩
  cteIds := by
    unfold cteIds addCte
    exact Block.keys_push _
  nestedIds := by
    have hsame : (c.addCte id name frame).nestedIds = c.nestedIds := by
      simp [nestedIds_eq, addCte]
    rw [hsame]
    exact (List.sublist_append_left _ _).subperm

theorem grows_renameCte (c : Canvas) (id : EntityId) (name : String) :
    Grows [] c (c.renameCte id name) := by
  unfold renameCte
  split
  · exact Grows.refl [] c
  · refine Grows.before ?_ (grows_updateLinked _ id fun _ => ⟨rfl, rfl⟩)
    constructor
    · intro I n hi hI _ hhi hc
      have hmono := hc.imp fun _ hb => hI.mono hhi hb
      refine ⟨hmono.1, fun q hq => ?_⟩
      rcases mem_updateFirst hq with hq | ⟨r, hr, -, rfl⟩
      · exact hmono.2 q hq
      · exact hmono.2 r hr
    · exact Block.keys_updateFirst fun _ => by rfl
    · have hblocks : ∀ ctes : List Cte, ctes.flatMap (·.block.nestedIds) =
          (ctes.map (·.block)).flatMap Block.nestedIds :=
        fun ctes => (List.flatMap_map ..).symm
      have hsame := map_updateFirst (p := fun q : Cte => decide (q.id = id))
        (f := fun q : Cte => { q with name := name }) (g := fun q : Cte => q.block)
        (fun _ => by rfl) c.ctes
      rw [nestedIds_eq, nestedIds_eq, List.append_nil, hblocks, hblocks, hsame]

theorem grows_removeCte (c : Canvas) (id : EntityId) : Grows [] c (c.removeCte id) := by
  unfold removeCte
  split
  · exact Grows.refl [] c
  · refine Grows.before ?_ (grows_mapBlocks _ (fun b => Block.grows_removeLinked b id)
      fun b => Block.subqueries_removeLinked_subset b id)
    have hsub : (c.ctes.filter fun q : Cte => q.id ≠ id).Sublist c.ctes := List.filter_sublist
    constructor
    · intro I n hi hI _ hhi hc
      have hmono := hc.imp fun _ hb => hI.mono hhi hb
      exact ⟨hmono.1, fun q hq => hmono.2 q (hsub.subset hq)⟩
    · exact Block.keys_of_sublist hsub
    · rw [nestedIds_eq, nestedIds_eq, List.append_nil]
      exact (List.subperm_append_left _).2 (hsub.flatMap _).subperm

theorem grows_addCteReference (c : Canvas) (focus : Focus) (cte new : EntityId)
    (position : Position) : Grows [new] c (c.addCteReference focus cte new position) := by
  unfold addCteReference
  split
  · exact Grows.refl [new] c
  · split
    · exact grows_updateBlock c focus fun b => Block.grows_addTable b rfl
    · exact Grows.refl [new] c

theorem grows_removeSubquery (c : Canvas) (id : EntityId) :
    Grows [] c ((c.removeSubquery? id).getD c) where
  blocks hI _ hhi hc := by
    have hremoved := hc.removeSubquery (hI.shallow _) id fun b hb =>
      hI.grow (Block.grows_removeSubquery b id) Serial.nil (Nat.le_refl _) hb
    exact hremoved.imp fun _ hb => hI.mono hhi hb
  cteIds := by
    rw [cteIds_removeSubquery, List.append_nil]
  nestedIds := by
    rw [List.append_nil]
    exact nestedIds_removeSubquery c id

/-- An edit adds nothing but one entity under the new identifier. -/
theorem grows_edit (new : EntityId) (c : Canvas) (edit : CanvasEdit) :
    Grows [new] c (edit.apply new c) := by
  cases edit with
  | inBlock focus edit => exact grows_updateBlock c focus fun b => Block.grows_edit new b edit
  | addCte name frame => exact grows_addCte c new name frame
  | reference focus cte position => exact grows_addCteReference c focus cte new position
  | removeSubquery id => exact (grows_removeSubquery c id).more _
  | renameCte id name => exact (grows_renameCte c id name).more _
  | removeCte id => exact (grows_removeCte c id).more _
  | refreshCteColumns id => exact (grows_refreshCteColumns c id).more _

/-! ## Numbered canvases -/

/-- Identifiers do not repeat among what the blocks hold, joins apart, nor among the named queries
nor among the nested queries of the whole canvas, and all of them were given out before the counter
came to `n`. -/
structure Numbered (n : Nat) (c : Canvas) : Prop where
  blocks : c.Everywhere (Block.Numbered 0 n)
  cteIds : Serial 0 n c.cteIds
  nestedIds : Serial 0 n c.nestedIds

theorem numbered_empty : Canvas.empty.Numbered n :=
  ⟨⟨Block.everywhere_iff.2 ⟨Block.numbered_empty, by simp [Canvas.empty, Block.empty]⟩,
    by simp [Canvas.empty]⟩, Serial.nil, Serial.nil⟩

theorem Numbered.grow {c' : Canvas} {hi : Nat} (h : c.Numbered n) (hgrows : Grows news c c')
    (hnews : Serial n hi news) (hhi : n ≤ hi) : c'.Numbered hi :=
  ⟨hgrows.blocks Block.stable_numbered hnews hhi h.blocks,
    (h.cteIds.append hnews (Nat.zero_le n) hhi).sublist hgrows.cteIds,
    (h.nestedIds.append hnews (Nat.zero_le n) hhi).subperm hgrows.nestedIds⟩

theorem Numbered.mono {hi : Nat} (h : c.Numbered n) (hhi : n ≤ hi) : c.Numbered hi :=
  h.grow (Grows.refl [] c) Serial.nil hhi

end Canvas

end QueryCanvas
