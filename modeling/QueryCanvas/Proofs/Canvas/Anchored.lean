import QueryCanvas.Canvas.Edit
import QueryCanvas.Proofs.Canvas.Serial
import QueryCanvas.Proofs.Canvas.Tree

/-!
# Everything that is referred to is there

A join refers to two tables of its block, and a table may refer to a named query.  In an anchored
block these references lead to something: each join ties two different tables of the block, whose
identifiers are all different, and each link names a known named query.  Every edit keeps blocks
anchored, the removals because they take along what refers to the removed thing.
-/

set_option autoImplicit false

namespace QueryCanvas

universe u v

/-! ## Changing the first member of a list that satisfies a test -/

/-- A change that is not seen in a part of each member is not seen in the list of these parts. -/
theorem map_updateFirst {α : Type u} {β : Type v} {p : α → Bool} {f : α → α} {g : α → β}
    (h : ∀ a, g (f a) = g a) (l : List α) : (updateFirst p f l).map g = l.map g := by
  induction l with
  | nil => rfl
  | cons a rest ih =>
    rw [updateFirst]
    split
    · rw [List.map_cons, List.map_cons, h]
    · rw [List.map_cons, List.map_cons, ih]

/-- A member of the changed list is a member of the list or a changed one. -/
theorem mem_updateFirst {α : Type u} {p : α → Bool} {f : α → α} {l : List α} {x : α}
    (h : x ∈ updateFirst p f l) : x ∈ l ∨ ∃ a ∈ l, p a = true ∧ x = f a := by
  induction l with
  | nil => exact .inl h
  | cons a rest ih =>
    rw [updateFirst] at h
    split at h
    · rename_i hp
      rcases List.mem_cons.1 h with rfl | h
      · exact .inr ⟨a, List.mem_cons_self, hp, rfl⟩
      · exact .inl (List.mem_cons_of_mem a h)
    · rcases List.mem_cons.1 h with rfl | h
      · exact .inl List.mem_cons_self
      · rcases ih h with h | ⟨c, hc, hp, rfl⟩
        · exact .inl (List.mem_cons_of_mem a h)
        · exact .inr ⟨c, List.mem_cons_of_mem a hc, hp, rfl⟩

/-! ## Anchored blocks -/

/-- The identifier and the link of a table are those of another one. -/
def Table.SameBox (t t' : Table) : Prop := t'.id = t.id ∧ t'.cte = t.cte

/-- Both ends of a join are among the identifiers, and they are different. -/
structure Join.Anchored (ids : List EntityId) (j : Join) : Prop where
  source : j.sourceTable ∈ ids
  target : j.targetTable ∈ ids
  distinct : j.sourceTable ≠ j.targetTable

/-- The tables of a block have different identifiers that the counter gave out between `lo` and
`hi`, each join ties two of them, and each link leads to one of the named queries `ctes`. -/
structure Block.Anchored (lo hi : Nat) (ctes : List EntityId) (b : Block) : Prop where
  tableIds : Serial lo hi (b.tables.map (·.id))
  joins : ∀ j ∈ b.joins, j.Anchored (b.tables.map (·.id))
  links : ∀ t ∈ b.tables, ∀ id, t.cte = some id → id ∈ ctes

namespace Block

variable {lo hi : Nat} {ctes : List EntityId} {b : Block}

/-- Both tables of a join of an anchored block are there, and they are two. -/
theorem Anchored.tables_of_join (h : b.Anchored lo hi ctes) {j : Join} (hj : j ∈ b.joins) :
    ∃ source ∈ b.tables, ∃ target ∈ b.tables,
      source.id = j.sourceTable ∧ target.id = j.targetTable ∧ source.id ≠ target.id := by
  obtain ⟨hsource, htarget, hdistinct⟩ := h.joins j hj
  obtain ⟨source, hs, hsid⟩ := List.mem_map.1 hsource
  obtain ⟨target, ht, htid⟩ := List.mem_map.1 htarget
  refine ⟨source, hs, target, ht, hsid, htid, ?_⟩
  rw [hsid, htid]
  exact hdistinct

theorem anchored_empty : Block.empty.Anchored lo hi ctes :=
  ⟨Serial.nil, by simp [Block.empty], by simp [Block.empty]⟩

theorem Anchored.mono {lo' hi' : Nat} {ctes' : List EntityId} (h : b.Anchored lo hi ctes)
    (hlo : lo' ≤ lo) (hhi : hi ≤ hi') (hctes : ∀ id ∈ ctes, id ∈ ctes') :
    b.Anchored lo' hi' ctes' :=
  ⟨h.tableIds.mono hlo hhi, h.joins, fun t ht id hid => hctes id (h.links t ht id hid)⟩

/-- The tables and the joins of a block are those of another one. -/
def SameDrawing (b b' : Block) : Prop := b'.tables = b.tables ∧ b'.joins = b.joins

theorem SameDrawing.trans {b b' b'' : Block} (h : SameDrawing b b') (h' : SameDrawing b' b'') :
    SameDrawing b b'' :=
  ⟨h'.1.trans h.1, h'.2.trans h.2⟩

/-- Only tables and joins matter. -/
theorem Anchored.same {b' : Block} (h : b.Anchored lo hi ctes) (hsame : SameDrawing b b') :
    b'.Anchored lo hi ctes := by
  obtain ⟨htables, hjoins⟩ := hsame
  refine ⟨?_, ?_, ?_⟩
  · rw [htables]
    exact h.tableIds
  · rw [htables, hjoins]
    exact h.joins
  · rw [htables]
    exact h.links

theorem shallow_anchored : Shallow (Block.Anchored lo hi ctes) :=
  fun _ _ _ h => h.same ⟨rfl, rfl⟩

/-! ## Edits of tables and joins -/

theorem Anchored.addTable {n : Nat} (h : b.Anchored lo n ctes) (hlo : lo ≤ n) {t : Table}
    (hid : t.id = EntityId.minted n) (hlink : ∀ id, t.cte = some id → id ∈ ctes) :
    (b.addTable t).Anchored lo (n + 1) ctes := by
  have hmap : (b.addTable t).tables.map (·.id) = b.tables.map (·.id) ++ [EntityId.minted n] := by
    simp [Block.addTable, hid]
  refine ⟨?_, fun j hj => ?_, fun u hu id hcte => ?_⟩
  · rw [hmap]
    exact h.tableIds.push hlo
  · obtain ⟨hsource, htarget, hdistinct⟩ := h.joins j hj
    rw [hmap]
    exact ⟨List.mem_append_left _ hsource, List.mem_append_left _ htarget, hdistinct⟩
  · rcases List.mem_append.1 hu with hu | hu
    · exact h.links u hu id hcte
    · rw [List.mem_singleton.1 hu] at hcte
      exact hlink id hcte

/-- A change of tables that keeps their identifiers, and makes no new links. -/
theorem Anchored.withTables (h : b.Anchored lo hi ctes) {tables : List Table}
    (hids : tables.map (·.id) = b.tables.map (·.id))
    (hlinks : ∀ t ∈ tables, ∀ id, t.cte = some id → id ∈ ctes) :
    { b with tables := tables }.Anchored lo hi ctes := by
  refine ⟨?_, ?_, hlinks⟩
  · show Serial lo hi (tables.map (·.id))
    rw [hids]
    exact h.tableIds
  · show ∀ j ∈ b.joins, j.Anchored (tables.map (·.id))
    rw [hids]
    exact h.joins

/-- A change of the first table that satisfies a test. -/
theorem Anchored.updateTables (h : b.Anchored lo hi ctes) (p : Table → Bool) {f : Table → Table}
    (hsame : ∀ t : Table, t.SameBox (f t)) :
    Block.Anchored lo hi ctes { b with tables := updateFirst p f b.tables } := by
  refine h.withTables (map_updateFirst (fun t => (hsame t).1) b.tables) fun t ht id hlink => ?_
  rcases mem_updateFirst ht with ht | ⟨u, hu, -, rfl⟩
  · exact h.links t ht id hlink
  · rw [(hsame u).2] at hlink
    exact h.links u hu id hlink

theorem Anchored.updateTable (h : b.Anchored lo hi ctes) (id : EntityId) {f : Table → Table}
    (hsame : ∀ t : Table, t.SameBox (f t)) : (b.updateTable id f).Anchored lo hi ctes :=
  h.updateTables (·.id = id) hsame

theorem sameDrawing_dropLinked (b : Block) (operand : Operand) :
    SameDrawing b (b.dropLinked operand) := by
  unfold dropLinked
  split <;> exact ⟨rfl, rfl⟩

theorem sameDrawing_removeFilter (b : Block) (id : EntityId) :
    SameDrawing b (b.removeFilter id) := by
  unfold removeFilter
  split
  · exact ⟨rfl, rfl⟩
  · exact sameDrawing_dropLinked _ _

/-- Removing what names a column of a table touches neither tables nor joins. -/
theorem sameDrawing_removeReferences (b : Block) (name : String) :
    SameDrawing b (b.removeReferences name) := by
  have hfold : ∀ (ids : List EntityId) (b : Block), SameDrawing b (ids.foldl removeFilter b) := by
    intro ids
    induction ids with
    | nil => exact fun b => ⟨rfl, rfl⟩
    | cons id rest ih => exact fun b => (sameDrawing_removeFilter b id).trans (ih _)
  exact hfold _ b

/-- Removing a table takes the first table of the identifier away. -/
theorem removeTable_tables (b : Block) (id : EntityId) :
    (b.removeTable id).tables = b.tables.eraseP (·.id = id) := by
  unfold Block.removeTable
  split
  · rename_i hnone
    exact (List.eraseP_of_forall_not fun t ht => List.find?_eq_none.1 hnone t ht).symm
  · dsimp only
    split
    · exact (sameDrawing_removeReferences _ _).1
    · rfl

/-- Where identifiers are different, the tables that are left have other identifiers. -/
theorem Anchored.mem_removeTable (h : b.Anchored lo hi ctes) {id : EntityId} {t : Table}
    (ht : t ∈ (b.removeTable id).tables) : t ∈ b.tables ∧ t.id ≠ id := by
  rw [removeTable_tables] at ht
  refine ⟨List.mem_of_mem_eraseP ht, ?_⟩
  have hids : (b.tables.eraseP (·.id = id)).map (·.id) = (b.tables.map (·.id)).erase id := by
    rw [List.erase_eq_eraseP', List.eraseP_map]
    congr 2
  have hmem : t.id ∈ (b.tables.map (·.id)).erase id := hids ▸ List.mem_map_of_mem ht
  exact (h.tableIds.nodup.mem_erase_iff.1 hmem).1

theorem Anchored.removeTable (h : b.Anchored lo hi ctes) (id : EntityId) :
    (b.removeTable id).Anchored lo hi ctes := by
  unfold Block.removeTable
  split
  · exact h
  · have hsub : (b.tables.eraseP (·.id = id)).Sublist b.tables := List.eraseP_sublist
    have hcut : Block.Anchored lo hi ctes { b with
        tables := b.tables.eraseP (·.id = id)
        joins := b.joins.filter fun j => j.sourceTable ≠ id && j.targetTable ≠ id } := by
      refine ⟨⟨h.tableIds.nodup.sublist (hsub.map _), fun i hi => ?_⟩, fun j hj => ?_,
        fun t ht => h.links t (hsub.subset ht)⟩
      · exact h.tableIds.between i ((hsub.map _).subset hi)
      · -- the removed table is none of the two that a remaining join ties
        obtain ⟨hj, hends⟩ := List.mem_filter.1 hj
        obtain ⟨hsource, htarget, hdistinct⟩ := h.joins j hj
        have hkept : ∀ i, i ∈ b.tables.map (·.id) → i ≠ id →
            i ∈ (b.tables.eraseP (·.id = id)).map (·.id) := by
          intro i hmem hne
          obtain ⟨t, ht, rfl⟩ := List.mem_map.1 hmem
          exact List.mem_map_of_mem ((List.mem_eraseP_of_neg (by simpa using hne)).2 ht)
        simp only [ne_eq, decide_not, Bool.and_eq_true, Bool.not_eq_true', decide_eq_false_iff_not]
          at hends
        exact ⟨hkept _ hsource hends.1, hkept _ htarget hends.2, hdistinct⟩
    dsimp only
    split
    · exact hcut.same (sameDrawing_removeReferences _ _)
    · exact hcut

theorem mem_ids_of_table? {id : EntityId} (h : (b.table? id).isSome) :
    id ∈ b.tables.map (·.id) := by
  obtain ⟨t, ht⟩ := Option.isSome_iff_exists.1 h
  have hid := List.find?_some ht
  exact List.mem_map.2 ⟨t, List.mem_of_find?_eq_some ht, of_decide_eq_true hid⟩

theorem anchored_of_canJoin {j : Join} (h : b.canJoin j.sourceTable j.targetTable = true) :
    j.Anchored (b.tables.map (·.id)) := by
  simp only [Block.canJoin, Bool.and_eq_true, decide_eq_true_eq] at h
  exact ⟨mem_ids_of_table? h.1.1, mem_ids_of_table? h.1.2, h.2⟩

theorem Anchored.addJoin (h : b.Anchored lo hi ctes) (j : Join) :
    (b.addJoin j).Anchored lo hi ctes := by
  unfold Block.addJoin
  split
  · rename_i hcan
    refine ⟨h.tableIds, fun i hi => ?_, h.links⟩
    rcases List.mem_append.1 hi with hi | hi
    · exact h.joins i hi
    · rw [List.mem_singleton.1 hi]
      exact anchored_of_canJoin hcan
  · exact h

theorem Anchored.updateJoin (h : b.Anchored lo hi ctes) (id : EntityId) {f : Join → Join}
    (hends : ∀ j, (f j).sourceTable = j.sourceTable ∧ (f j).targetTable = j.targetTable) :
    (b.updateJoin id f).Anchored lo hi ctes := by
  refine ⟨h.tableIds, fun j hj => ?_, h.links⟩
  rcases mem_updateFirst hj with hj | ⟨i, hi, -, rfl⟩
  · exact h.joins j hj
  · obtain ⟨hsource, htarget, hdistinct⟩ := h.joins i hi
    refine ⟨?_, ?_, ?_⟩
    · rw [(hends i).1]
      exact hsource
    · rw [(hends i).2]
      exact htarget
    · rw [(hends i).1, (hends i).2]
      exact hdistinct

end Block

end QueryCanvas
