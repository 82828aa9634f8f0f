import QueryCanvas.Proofs.Canvas.Anchored

/-!
# Edits keep a canvas anchored

An edit of a block changes one block of one tree; renaming, removing and refreshing a named query
changes all of them.  For each edit it is said what it does to the tables and joins of the block it
is made in and what nested queries are there afterwards; a canvas then stays anchored because the
blocks elsewhere stay as they are.
-/

set_option autoImplicit false

namespace QueryCanvas

namespace Table

/-! ## What edits of a table leave alone -/

theorem sameBox_select (t : Table) (column : String) : SameBox t (t.select column) := by
  unfold select
  split <;> exact ⟨rfl, rfl⟩

theorem sameBox_toggle (t : Table) (column : String) : SameBox t (t.toggle column) := by
  unfold toggle
  split
  · exact ⟨rfl, rfl⟩
  · exact sameBox_select t column

theorem sameBox_setAggregate (t : Table) (column : String) (a : Option ColumnAggregate) :
    SameBox t (t.setAggregate column a) := by
  cases a with
  | none => exact ⟨rfl, rfl⟩
  | some a => exact sameBox_select t column

end Table

namespace Block

variable {lo n : Nat} {ctes : List EntityId} {b : Block}

/-! ## Tables and joins -/

theorem sameDrawing_updateFilter (b : Block) (id : EntityId) (u : FilterUpdate) :
    SameDrawing b (b.updateFilter id u) := by
  unfold updateFilter
  split
  · exact ⟨rfl, rfl⟩
  · dsimp only
    split
    · exact sameDrawing_dropLinked _ _
    · exact ⟨rfl, rfl⟩

theorem sameDrawing_linkFilter (b : Block) (filter subquery : EntityId) :
    SameDrawing b (b.linkFilter filter subquery) := by
  unfold linkFilter
  split
  · exact ⟨rfl, rfl⟩
  · split <;> exact ⟨rfl, rfl⟩

theorem sameDrawing_addSubquery (b : Block) (id : EntityId) (role : SubqueryRole)
    (filter : Option EntityId) (frame : Frame) :
    SameDrawing b (b.addSubquery id role filter frame) := by
  unfold addSubquery
  split
  · exact ⟨rfl, rfl⟩
  · dsimp only
    split
    · exact sameDrawing_linkFilter _ _ _
    · exact ⟨rfl, rfl⟩

theorem sameDrawing_removeSubquery (b : Block) (id : EntityId) :
    SameDrawing b (b.removeSubquery id) := by
  unfold removeSubquery
  split <;> exact ⟨rfl, rfl⟩

/-- An edit that may use the next identifier keeps a block anchored. -/
theorem Anchored.edit (h : b.Anchored lo n ctes) (hlo : lo ≤ n) (edit : BlockEdit) :
    (edit.apply (EntityId.minted n) b).Anchored lo (n + 1) ctes := by
  have hweak : b.Anchored lo (n + 1) ctes :=
    h.mono (Nat.le_refl lo) (Nat.le_succ n) fun _ hid => hid
  cases edit with
  | addTable name columns position => exact h.addTable hlo rfl (by simp [Table.create])
  | removeTable id => exact hweak.removeTable id
  | moveTable id position => exact hweak.updateTable id fun _ => ⟨rfl, rfl⟩
  | toggleColumn table column => exact hweak.updateTable table (Table.sameBox_toggle · column)
  | selectColumn table column => exact hweak.updateTable table (Table.sameBox_select · column)
  | deselectColumn table column => exact hweak.updateTable table fun _ => ⟨rfl, rfl⟩
  | setColumnAggregate table column aggregate =>
    exact hweak.updateTable table (Table.sameBox_setAggregate · column aggregate)
  | addJoin => exact hweak.addJoin _
  | setJoinKind id kind => exact hweak.updateJoin id fun _ => ⟨rfl, rfl⟩
  | setJoinColumns id source target => exact hweak.updateJoin id fun _ => ⟨rfl, rfl⟩
  | removeJoin id =>
    exact ⟨hweak.tableIds, fun j hj => hweak.joins j (List.mem_filter.1 hj).1, hweak.links⟩
  | updateFilter id update => exact hweak.same (sameDrawing_updateFilter b id update)
  | removeFilter id => exact hweak.same (sameDrawing_removeFilter b id)
  | addSubquery role filter frame =>
    exact hweak.same (sameDrawing_addSubquery b _ role filter frame)
  | linkFilter filter subquery => exact hweak.same (sameDrawing_linkFilter b filter subquery)
  | removeSubquery id => exact hweak.same (sameDrawing_removeSubquery b id)
  | _ => exact hweak.same ⟨rfl, rfl⟩

/-- Where the tables linked to a named query are removed, no link to it is left. -/
theorem Anchored.removeLinked {hi : Nat} (h : b.Anchored lo hi ctes) (id : EntityId) :
    (b.removeLinked id).Anchored lo hi (ctes.filter (· ≠ id)) := by
  have hfold : ∀ (ids : List EntityId) (b : Block), b.Anchored lo hi ctes →
      (ids.foldl Block.removeTable b).Anchored lo hi ctes ∧
        ∀ t ∈ (ids.foldl Block.removeTable b).tables, t ∈ b.tables ∧ t.id ∉ ids := by
    intro ids
    induction ids with
    | nil => exact fun b hb => ⟨hb, fun t ht => ⟨ht, by simp⟩⟩
    | cons i rest ih =>
      intro b hb
      obtain ⟨hrest, hleft⟩ := ih (b.removeTable i) (hb.removeTable i)
      refine ⟨hrest, fun t ht => ?_⟩
      obtain ⟨hremoved, hnot⟩ := hleft t ht
      obtain ⟨hmem, hne⟩ := hb.mem_removeTable hremoved
      exact ⟨hmem, by simp [hne, hnot]⟩
  obtain ⟨hanchored, hleft⟩ := hfold ((b.tables.filter (·.cte = some id)).map (·.id)) b h
  refine ⟨hanchored.tableIds, hanchored.joins, fun t ht i hlink => ?_⟩
  refine List.mem_filter.2 ⟨hanchored.links t ht i hlink, decide_eq_true ?_⟩
  rintro rfl
  obtain ⟨hmem, hnot⟩ := hleft t ht
  exact hnot (List.mem_map_of_mem (List.mem_filter.2 ⟨hmem, decide_eq_true hlink⟩))

/-! ## Nested queries -/

/-- Every nested query of a block is one of another block, perhaps with other links, or is empty. -/
def NestedFrom (b b' : Block) : Prop :=
  ∀ s' ∈ b'.subqueries, s'.block = Block.empty ∨ ∃ s ∈ b.subqueries, s'.block = s.block

theorem NestedFrom.of_subset {b b' : Block} (h : b'.subqueries ⊆ b.subqueries) :
    NestedFrom b b' :=
  fun s' hs => .inr ⟨s', h hs, rfl⟩

theorem NestedFrom.trans {b b' b'' : Block} (h : NestedFrom b b') (h' : NestedFrom b' b'') :
    NestedFrom b b'' := by
  intro s'' hs
  rcases h' s'' hs with hempty | ⟨s', hs', heq⟩
  · exact .inl hempty
  · rcases h s' hs' with hempty | ⟨s, hs, heq'⟩
    · exact .inl (heq.trans hempty)
    · exact .inr ⟨s, hs, heq.trans heq'⟩

theorem subqueries_dropLinked_subset (b : Block) (operand : Operand) :
    (b.dropLinked operand).subqueries ⊆ b.subqueries := by
  unfold dropLinked
  split
  · exact fun _ hs => (List.mem_filter.1 hs).1
  · exact fun _ hs => hs

theorem subqueries_removeFilter_subset (b : Block) (id : EntityId) :
    (b.removeFilter id).subqueries ⊆ b.subqueries := by
  unfold removeFilter
  split
  · exact fun _ hs => hs
  · exact subqueries_dropLinked_subset _ _

theorem subqueries_removeReferences_subset (b : Block) (name : String) :
    (b.removeReferences name).subqueries ⊆ b.subqueries := by
  have hfold : ∀ (ids : List EntityId) (b : Block),
      (ids.foldl removeFilter b).subqueries ⊆ b.subqueries := by
    intro ids
    induction ids with
    | nil => exact fun _ _ hs => hs
    | cons id rest ih =>
      exact fun b => List.Subset.trans (ih _) (subqueries_removeFilter_subset b id)
  exact hfold _ b

theorem subqueries_removeTable_subset (b : Block) (id : EntityId) :
    (b.removeTable id).subqueries ⊆ b.subqueries := by
  unfold Block.removeTable
  split
  · exact fun _ hs => hs
  · dsimp only
    split
    · exact subqueries_removeReferences_subset _ _
    · exact fun _ hs => hs

theorem subqueries_removeLinked_subset (b : Block) (id : EntityId) :
    (b.removeLinked id).subqueries ⊆ b.subqueries := by
  have hfold : ∀ (ids : List EntityId) (b : Block),
      (ids.foldl Block.removeTable b).subqueries ⊆ b.subqueries := by
    intro ids
    induction ids with
    | nil => exact fun _ _ hs => hs
    | cons id rest ih =>
      exact fun b => List.Subset.trans (ih _) (subqueries_removeTable_subset b id)
  exact hfold _ b

theorem subqueries_updateFilter_subset (b : Block) (id : EntityId) (u : FilterUpdate) :
    (b.updateFilter id u).subqueries ⊆ b.subqueries := by
  unfold updateFilter
  split
  · exact fun _ hs => hs
  · dsimp only
    split
    · exact subqueries_dropLinked_subset _ _
    · exact fun _ hs => hs

theorem nestedFrom_linkFilter (b : Block) (filter subquery : EntityId) :
    NestedFrom b (b.linkFilter filter subquery) := by
  unfold linkFilter
  split
  · exact NestedFrom.of_subset fun _ hs => hs
  · split
    · exact NestedFrom.of_subset fun _ hs => hs
    · intro s' hs
      obtain ⟨s, hmem, rfl⟩ := List.mem_map.1 hs
      refine .inr ⟨s, hmem, ?_⟩
      repeat' split
      all_goals rfl

theorem nestedFrom_addSubquery (b : Block) (id : EntityId) (role : SubqueryRole)
    (filter : Option EntityId) (frame : Frame) :
    NestedFrom b (b.addSubquery id role filter frame) := by
  unfold addSubquery
  split
  · exact NestedFrom.of_subset fun _ hs => hs
  · have hadd : ∀ nested : Subquery, nested.block = Block.empty →
        NestedFrom b { b with subqueries := b.subqueries ++ [nested] } := by
      intro nested hempty s' hs
      rcases List.mem_append.1 hs with hs | hs
      · exact .inr ⟨s', hs, rfl⟩
      · exact .inl (List.mem_singleton.1 hs ▸ hempty)
    dsimp only
    split
    · exact (hadd _ rfl).trans (nestedFrom_linkFilter _ _ _)
    · exact hadd _ rfl

theorem subqueries_removeSubquery_subset (b : Block) (id : EntityId) :
    (b.removeSubquery id).subqueries ⊆ b.subqueries := by
  unfold removeSubquery
  split
  · exact fun _ hs => hs
  · exact fun _ hs => List.mem_of_mem_eraseP hs

theorem nestedFrom_setSubqueryAlias (b : Block) (id : EntityId) (aliasName : Option String) :
    NestedFrom b (b.setSubqueryAlias id aliasName) := by
  intro s' hs
  rcases mem_updateFirst hs with hmem | ⟨s, hmem, -, rfl⟩
  · exact .inr ⟨s', hmem, rfl⟩
  · exact .inr ⟨s, hmem, rfl⟩

/-- An edit of a block makes no nested query but empty ones. -/
theorem nestedFrom_edit (new : EntityId) (b : Block) (edit : BlockEdit) :
    NestedFrom b (edit.apply new b) := by
  cases edit with
  | removeTable id => exact NestedFrom.of_subset (subqueries_removeTable_subset b id)
  | addJoin =>
    refine NestedFrom.of_subset ?_
    simp only [BlockEdit.apply, addJoin]
    split <;> exact fun _ hs => hs
  | updateFilter id update =>
    exact NestedFrom.of_subset (subqueries_updateFilter_subset b id update)
  | removeFilter id => exact NestedFrom.of_subset (subqueries_removeFilter_subset b id)
  | addSubquery role filter frame => exact nestedFrom_addSubquery b new role filter frame
  | linkFilter filter subquery => exact nestedFrom_linkFilter b filter subquery
  | removeSubquery id => exact NestedFrom.of_subset (subqueries_removeSubquery_subset b id)
  | setSubqueryAlias id aliasName => exact nestedFrom_setSubqueryAlias b id aliasName
  | _ => exact NestedFrom.of_subset fun _ hs => hs

/-- An edit keeps the whole tree below a block anchored. -/
theorem Everywhere.edit (h : b.Everywhere (Anchored lo n ctes)) (hlo : lo ≤ n)
    (edit : BlockEdit) :
    (edit.apply (EntityId.minted n) b).Everywhere (Anchored lo (n + 1) ctes) := by
  obtain ⟨hself, hbelow⟩ := everywhere_iff.1 h
  refine everywhere_iff.2 ⟨hself.edit hlo edit, fun s' hs => ?_⟩
  rcases nestedFrom_edit _ b edit s' hs with hempty | ⟨s, hs, heq⟩
  · rw [hempty]
    exact everywhere_iff.2 ⟨anchored_empty, by simp [Block.empty]⟩
  · rw [heq]
    exact (hbelow s hs).imp fun c hc => hc.mono (Nat.le_refl lo) (Nat.le_succ n) fun _ hid => hid

end Block

namespace Canvas

variable {n : Nat} {c : Canvas}

/-! ## All blocks of a canvas -/

/-- The property holds of every block of the canvas. -/
def Everywhere (P : Block → Prop) (c : Canvas) : Prop :=
  c.root.Everywhere P ∧ ∀ q ∈ c.ctes, q.block.Everywhere P

theorem everywhere_iff_blocks {P : Block → Prop} : c.Everywhere P ↔ ∀ b ∈ c.blocks, P b := by
  simp only [Everywhere, Block.Everywhere, blocks, List.mem_append, List.mem_flatMap]
  constructor
  · rintro ⟨hroot, hctes⟩ b (hb | ⟨q, hq, hb⟩)
    · exact hroot b hb
    · exact hctes q hq b hb
  · intro h
    exact ⟨fun b hb => h b (.inl hb), fun q hq b hb => h b (.inr ⟨q, hq, hb⟩)⟩

theorem Everywhere.imp {P Q : Block → Prop} (h : c.Everywhere P) (himp : ∀ b, P b → Q b) :
    c.Everywhere Q :=
  ⟨h.1.imp himp, fun q hq => (h.2 q hq).imp himp⟩

/-- What holds of all blocks holds everywhere in the block that a pointer leads to. -/
theorem Everywhere.block? {P : Block → Prop} (h : c.Everywhere P) {focus : Focus} {b : Block}
    (hb : c.block? focus = some b) : b.Everywhere P := by
  cases focus with
  | root =>
    cases hb
    exact h.1
  | cte id =>
    obtain ⟨q, hq, rfl⟩ := Option.map_eq_some_iff.1 hb
    exact h.2 q (List.mem_of_find?_eq_some hq)
  | subquery id =>
    simp only [Canvas.block?, nested?] at hb
    split at hb
    · rename_i hfound
      cases hb
      exact Block.Everywhere.nested? _ _ h.1 hfound
    · obtain ⟨q, hq, hfound⟩ := List.exists_of_findSome?_eq_some hb
      exact Block.Everywhere.nested? _ _ (h.2 q hq) hfound

theorem updateNestedInCtes_everywhere {P Q : Block → Prop} (hweaker : ∀ b, P b → Q b)
    (hshallow : Block.Shallow Q) {id : EntityId} {change : Block → Block}
    (hchange : ∀ b, b.Everywhere P → (change b).Everywhere Q) {ctes : List Cte}
    (h : ∀ q ∈ ctes, q.block.Everywhere P) :
    ∀ q ∈ updateNestedInCtes id change ctes, q.block.Everywhere Q := by
  induction ctes with
  | nil => simp [updateNestedInCtes]
  | cons q rest ih =>
    obtain ⟨hq, hrest⟩ := List.forall_mem_cons.1 h
    rw [updateNestedInCtes]
    split
    · rename_i b hb
      refine List.forall_mem_cons.2 ⟨?_, fun r hr => (hrest r hr).imp hweaker⟩
      exact Block.Everywhere.updateNested? hweaker hshallow hchange _ b hq hb
    · exact List.forall_mem_cons.2 ⟨hq.imp hweaker, ih hrest⟩

/-- After a change of one block everything has a weaker property, if the changed block and the
blocks below it have. -/
theorem Everywhere.updateBlock {P Q : Block → Prop} (h : c.Everywhere P)
    (hweaker : ∀ b, P b → Q b) (hshallow : Block.Shallow Q) {change : Block → Block}
    (hchange : ∀ b, b.Everywhere P → (change b).Everywhere Q) (focus : Focus) :
    (c.updateBlock focus change).Everywhere Q := by
  obtain ⟨hroot, hctes⟩ := h
  have hctes' : ∀ q ∈ c.ctes, q.block.Everywhere Q := fun q hq => (hctes q hq).imp hweaker
  cases focus with
  | root => exact ⟨hchange _ hroot, hctes'⟩
  | cte id =>
    refine ⟨hroot.imp hweaker, fun q hq => ?_⟩
    rcases mem_updateFirst hq with hq | ⟨r, hr, -, rfl⟩
    · exact hctes' q hq
    · exact hchange _ (hctes r hr)
  | subquery id =>
    simp only [Canvas.updateBlock]
    split
    · rename_i root hupdate
      exact ⟨Block.Everywhere.updateNested? hweaker hshallow hchange _ root hroot hupdate, hctes'⟩
    · exact ⟨hroot.imp hweaker, updateNestedInCtes_everywhere hweaker hshallow hchange hctes⟩

theorem Everywhere.mapBlocks {P Q : Block → Prop} (h : c.Everywhere P)
    (hshallow : Block.Shallow P) {change : Block → Block} (hchange : ∀ b, P b → Q (change b))
    (hsubs : ∀ b, (change b).subqueries ⊆ b.subqueries) : (c.mapBlocks change).Everywhere Q := by
  refine ⟨Block.Everywhere.mapBlocks hshallow hchange hsubs _ h.1, fun q hq => ?_⟩
  obtain ⟨r, hr, rfl⟩ := List.mem_map.1 hq
  exact Block.Everywhere.mapBlocks hshallow hchange hsubs _ (h.2 r hr)

/-! ## Identifiers of the named queries -/

/-- The identifiers of the named queries. -/
def cteIds (c : Canvas) : List EntityId := c.ctes.map (·.id)

theorem updateNestedInCtes_ids (id : EntityId) (change : Block → Block) (ctes : List Cte) :
    (updateNestedInCtes id change ctes).map (·.id) = ctes.map (·.id) := by
  induction ctes with
  | nil => rfl
  | cons q rest ih =>
    rw [updateNestedInCtes]
    split
    · rfl
    · rw [List.map_cons, List.map_cons, ih]

@[simp] theorem cteIds_updateBlock (c : Canvas) (focus : Focus) (change : Block → Block) :
    (c.updateBlock focus change).cteIds = c.cteIds := by
  cases focus with
  | root => rfl
  | cte id => exact map_updateFirst (g := fun q : Cte => q.id) (fun _ => by rfl) c.ctes
  | subquery id =>
    simp only [updateBlock]
    split
    · rfl
    · exact updateNestedInCtes_ids id change c.ctes

@[simp] theorem cteIds_mapBlocks (c : Canvas) (change : Block → Block) :
    (c.mapBlocks change).cteIds = c.cteIds := by
  simp [cteIds, mapBlocks]

/-! ## Anchored canvases -/

/-- All blocks are anchored: identifiers of tables were given out before the counter came to `n`,
and tables are linked to named queries of the canvas. -/
def Anchored (n : Nat) (c : Canvas) : Prop := c.Everywhere (Block.Anchored 0 n c.cteIds)

theorem anchored_empty : Canvas.empty.Anchored n :=
  ⟨Block.everywhere_iff.2 ⟨Block.anchored_empty, by simp [Canvas.empty, Block.empty]⟩,
    by simp [Canvas.empty]⟩

theorem Anchored.mono {n' : Nat} (h : c.Anchored n) (hn : n ≤ n') : c.Anchored n' :=
  Everywhere.imp h fun _ hb => hb.mono (Nat.le_refl 0) hn fun _ hid => hid

/-- A change of one block that keeps trees anchored keeps a canvas anchored. -/
theorem Anchored.updateBlock {n' : Nat} (h : c.Anchored n) (hn : n ≤ n') {change : Block → Block}
    (hchange : ∀ b : Block, b.Everywhere (Block.Anchored 0 n c.cteIds) →
      (change b).Everywhere (Block.Anchored 0 n' c.cteIds)) (focus : Focus) :
    (c.updateBlock focus change).Anchored n' := by
  unfold Anchored
  rw [cteIds_updateBlock]
  exact Everywhere.updateBlock h (fun _ hb => hb.mono (Nat.le_refl 0) hn fun _ hid => hid)
    Block.shallow_anchored hchange focus

/-- A change of the tables linked to a named query that keeps identifiers and links. -/
theorem Anchored.updateLinked (h : c.Anchored n) (id : EntityId) {change : Table → Table}
    (hsame : ∀ t : Table, t.SameBox (change t)) :
    (c.mapBlocks fun b => b.updateLinked id change).Anchored n := by
  unfold Anchored
  rw [cteIds_mapBlocks]
  refine Everywhere.mapBlocks h Block.shallow_anchored (fun b hb => ?_) fun _ _ hs => hs
  have hbox : ∀ t : Table, t.SameBox (if t.cte = some id then change t else t) := by
    intro t
    split
    · exact hsame t
    · exact ⟨rfl, rfl⟩
  refine hb.withTables ?_ fun t ht id' hlink => ?_
  · rw [List.map_map]
    exact List.map_congr_left fun t _ => (hbox t).1
  · obtain ⟨u, hu, rfl⟩ := List.mem_map.1 ht
    rw [(hbox u).2] at hlink
    exact hb.links u hu id' hlink

theorem Anchored.refreshCteColumns (h : c.Anchored n) (id : EntityId) :
    (c.refreshCteColumns id).Anchored n := by
  unfold Canvas.refreshCteColumns
  split
  · exact h
  · exact h.updateLinked id fun _ => ⟨rfl, rfl⟩

/-- Without change of the named queries' identifiers and blocks, a canvas stays anchored. -/
theorem Anchored.renameCte (h : c.Anchored n) (id : EntityId) (name : String) :
    (c.renameCte id name).Anchored n := by
  unfold Canvas.renameCte
  split
  · exact h
  · refine Anchored.updateLinked ?_ id fun _ => ⟨rfl, rfl⟩
    have hids : cteIds { c with
        ctes := updateFirst (·.id = id) (fun q : Cte => { q with name := name }) c.ctes } =
          c.cteIds :=
      map_updateFirst (g := fun q : Cte => q.id) (fun _ => by rfl) c.ctes
    unfold Anchored
    rw [hids]
    refine ⟨h.1, fun q hq => ?_⟩
    rcases mem_updateFirst hq with hq | ⟨r, hr, -, rfl⟩
    · exact h.2 q hq
    · exact h.2 r hr

/-- Removing a named query takes along the tables linked to it, so no link leads to it. -/
theorem Anchored.removeCte (h : c.Anchored n) (id : EntityId) : (c.removeCte id).Anchored n := by
  unfold Canvas.removeCte
  split
  · exact h
  · unfold Anchored
    rw [cteIds_mapBlocks]
    have hids : cteIds { c with ctes := c.ctes.filter fun q : Cte => q.id ≠ id } =
        c.cteIds.filter (· ≠ id) := by
      rw [cteIds, cteIds, List.filter_map]
      rfl
    rw [hids]
    have hbefore : Everywhere (Block.Anchored 0 n c.cteIds)
        { c with ctes := c.ctes.filter fun q : Cte => q.id ≠ id } :=
      ⟨h.1, fun q hq => h.2 q (List.mem_filter.1 hq).1⟩
    exact hbefore.mapBlocks Block.shallow_anchored (fun b hb => hb.removeLinked id)
      fun b => Block.subqueries_removeLinked_subset b id

theorem Anchored.addCte (h : c.Anchored n) (id : EntityId) (name : String) (frame : Frame) :
    (c.addCte id name frame).Anchored n := by
  have hmore : ∀ b : Block, b.Anchored 0 n c.cteIds →
      b.Anchored 0 n (c.addCte id name frame).cteIds :=
    fun b hb => hb.mono (Nat.le_refl 0) (Nat.le_refl n) fun i hi => by
      rw [cteIds, Canvas.addCte, List.map_append]
      exact List.mem_append_left _ hi
  refine ⟨h.1.imp hmore, fun q hq => ?_⟩
  rcases List.mem_append.1 hq with hq | hq
  · exact (h.2 q hq).imp hmore
  · rw [List.mem_singleton.1 hq]
    exact Block.everywhere_iff.2 ⟨Block.anchored_empty, by simp [Block.empty]⟩

theorem mem_cteIds_of_cte? {id : EntityId} {q : Cte} (h : c.cte? id = some q) : id ∈ c.cteIds := by
  have hid := List.find?_some h
  exact List.mem_map.2 ⟨q, List.mem_of_find?_eq_some h, of_decide_eq_true hid⟩

theorem Anchored.addCteReference (h : c.Anchored n) (focus : Focus) (cte : EntityId)
    (position : Position) :
    (c.addCteReference focus cte (EntityId.minted n) position).Anchored (n + 1) := by
  unfold Canvas.addCteReference
  split
  · exact h.mono (Nat.le_succ n)
  · rename_i q hq
    split
    · refine h.updateBlock (Nat.le_succ n) (fun b hb => ?_) focus
      obtain ⟨hself, hbelow⟩ := Block.everywhere_iff.1 hb
      refine Block.everywhere_iff.2 ⟨hself.addTable (Nat.zero_le n) rfl ?_, fun s hs => ?_⟩
      · rintro _ ⟨⟩
        exact mem_cteIds_of_cte? hq
      · exact (hbelow s hs).imp fun _ hc =>
          hc.mono (Nat.le_refl 0) (Nat.le_succ n) fun _ hid => hid
    · exact h.mono (Nat.le_succ n)

theorem removeNestedInCtes_everywhere {P : Block → Prop} (hshallow : Block.Shallow P)
    {id : EntityId} (hremove : ∀ b, P b → P (b.removeSubquery id)) {ctes ctes' : List Cte}
    (h : ∀ q ∈ ctes, q.block.Everywhere P) (hremoved : removeNestedInCtes? id ctes = some ctes') :
    ∀ q ∈ ctes', q.block.Everywhere P := by
  induction ctes generalizing ctes' with
  | nil => cases hremoved
  | cons q rest ih =>
    obtain ⟨hq, hrest⟩ := List.forall_mem_cons.1 h
    rw [removeNestedInCtes?] at hremoved
    split at hremoved
    · rename_i b hb
      cases hremoved
      refine List.forall_mem_cons.2 ⟨?_, hrest⟩
      exact Block.Everywhere.removeNested? hshallow hremove _ b hq hb
    · obtain ⟨rest', hrest', rfl⟩ := Option.map_eq_some_iff.1 hremoved
      exact List.forall_mem_cons.2 ⟨hq, ih hrest hrest'⟩

theorem Everywhere.removeSubquery {P : Block → Prop} (h : c.Everywhere P)
    (hshallow : Block.Shallow P) (id : EntityId) (hremove : ∀ b, P b → P (b.removeSubquery id)) :
    ((c.removeSubquery? id).getD c).Everywhere P := by
  unfold Canvas.removeSubquery?
  split
  · rename_i root hroot
    exact ⟨Block.Everywhere.removeNested? hshallow hremove _ root h.1 hroot, h.2⟩
  · cases hctes : removeNestedInCtes? id c.ctes with
    | none => exact h
    | some ctes => exact ⟨h.1, removeNestedInCtes_everywhere hshallow hremove h.2 hctes⟩

theorem removeNestedInCtes_ids {id : EntityId} {ctes ctes' : List Cte}
    (h : removeNestedInCtes? id ctes = some ctes') : ctes'.map (·.id) = ctes.map (·.id) := by
  induction ctes generalizing ctes' with
  | nil => cases h
  | cons q rest ih =>
    rw [removeNestedInCtes?] at h
    split at h
    · cases h
      rfl
    · obtain ⟨rest', hrest', rfl⟩ := Option.map_eq_some_iff.1 h
      rw [List.map_cons, List.map_cons, ih hrest']

@[simp] theorem cteIds_removeSubquery (c : Canvas) (id : EntityId) :
    ((c.removeSubquery? id).getD c).cteIds = c.cteIds := by
  unfold Canvas.removeSubquery?
  split
  · rfl
  · cases hctes : removeNestedInCtes? id c.ctes with
    | none => rfl
    | some ctes => exact removeNestedInCtes_ids hctes

theorem Anchored.removeSubquery (h : c.Anchored n) (id : EntityId) :
    ((c.removeSubquery? id).getD c).Anchored n := by
  unfold Anchored
  rw [cteIds_removeSubquery]
  exact Everywhere.removeSubquery h Block.shallow_anchored id fun b hb =>
    hb.same (Block.sameDrawing_removeSubquery b id)

/-- An edit of the canvas that may use the next identifier keeps it anchored. -/
theorem Anchored.edit (h : c.Anchored n) (edit : CanvasEdit) :
    (edit.apply (EntityId.minted n) c).Anchored (n + 1) := by
  have hmono : ∀ {c' : Canvas}, c'.Anchored n → c'.Anchored (n + 1) :=
    fun h' => h'.mono (Nat.le_succ n)
  cases edit with
  | inBlock focus edit =>
    exact h.updateBlock (Nat.le_succ n) (fun b hb => hb.edit (Nat.zero_le n) edit) focus
  | addCte name frame => exact hmono (h.addCte _ name frame)
  | reference focus cte position => exact h.addCteReference focus cte position
  | removeSubquery id => exact hmono (h.removeSubquery id)
  | renameCte id name => exact hmono (h.renameCte id name)
  | removeCte id => exact hmono (h.removeCte id)
  | refreshCteColumns id => exact hmono (h.refreshCteColumns id)

end Canvas

end QueryCanvas
