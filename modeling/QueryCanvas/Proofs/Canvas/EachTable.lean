import QueryCanvas.Proofs.Canvas.Edits

/-!
# What holds of every table

Edits put tables on a block, change one of them or take some away.  A property that a new table has,
and that a table keeps when it is moved and when its choice is changed, therefore stays with all
tables of a block and of the blocks nested in it, whatever the edit.
-/

set_option autoImplicit false

namespace QueryCanvas

/-- A property of tables that a new table has and that every edit of a table keeps. -/
structure Table.Stable (P : Table → Prop) : Prop where
  create : ∀ id name columns position, P (Table.create id name columns position)
  move : ∀ t position, P t → P { t with position := position }
  select : ∀ t column, P t → P (t.select column)
  deselect : ∀ t column, P t → P (t.deselect column)
  setAggregate : ∀ t column aggregate, P t → P (t.setAggregate column aggregate)

theorem Table.Stable.toggle {P : Table → Prop} (hP : Table.Stable P) (t : Table) (column : String)
    (h : P t) : P (t.toggle column) := by
  unfold Table.toggle
  split
  · exact hP.deselect t column h
  · exact hP.select t column h

namespace Block

/-- Every table of the block has the property. -/
def EachTable (P : Table → Prop) (b : Block) : Prop := ∀ t ∈ b.tables, P t

variable {P Q : Table → Prop} {b b' : Block}

theorem eachTable_empty : Block.empty.EachTable P := by simp [EachTable, empty]

theorem everywhere_eachTable_empty : Block.empty.Everywhere (EachTable P) :=
  everywhere_iff.2 ⟨eachTable_empty, by simp [empty]⟩

namespace EachTable

theorem imp (h : b.EachTable P) (himp : ∀ t, P t → Q t) : b.EachTable Q :=
  fun t ht => himp t (h t ht)

/-- Only tables matter. -/
theorem of_subset (h : b.EachTable P) (htables : b'.tables ⊆ b.tables) : b'.EachTable P :=
  fun t ht => h t (htables ht)

theorem same (h : b.EachTable P) (htables : b'.tables = b.tables) : b'.EachTable P :=
  h.of_subset (htables ▸ List.Subset.refl _)

theorem addTable (h : b.EachTable P) {t : Table} (ht : P t) : (b.addTable t).EachTable P := by
  intro u hu
  rcases List.mem_append.1 hu with hu | hu
  · exact h u hu
  · exact List.mem_singleton.1 hu ▸ ht

/-- A change of the first table that satisfies a test. -/
theorem updateFirst (h : b.EachTable P) (p : Table → Bool) {f : Table → Table}
    (hf : ∀ t, P t → P (f t)) :
    EachTable P { b with tables := QueryCanvas.updateFirst p f b.tables } := by
  intro t ht
  rcases mem_updateFirst ht with ht | ⟨u, hu, -, rfl⟩
  · exact h t ht
  · exact hf u (h u hu)

theorem updateTable (h : b.EachTable P) (id : EntityId) {f : Table → Table}
    (hf : ∀ t, P t → P (f t)) : (b.updateTable id f).EachTable P :=
  h.updateFirst (·.id = id) hf

theorem mapTables (h : b.EachTable P) {f : Table → Table} (hf : ∀ t, P t → P (f t)) :
    EachTable P { b with tables := b.tables.map f } := by
  intro t ht
  obtain ⟨u, hu, rfl⟩ := List.mem_map.1 ht
  exact hf u (h u hu)

theorem updateLinked (h : b.EachTable P) (id : EntityId) {f : Table → Table}
    (hf : ∀ t, P t → P (f t)) : (b.updateLinked id f).EachTable P := by
  refine h.mapTables fun t ht => ?_
  split
  · exact hf t ht
  · exact ht

theorem removeTable (h : b.EachTable P) (id : EntityId) : (b.removeTable id).EachTable P := by
  refine h.of_subset ?_
  rw [removeTable_tables]
  exact List.eraseP_sublist.subset

theorem removeLinked (h : b.EachTable P) (id : EntityId) : (b.removeLinked id).EachTable P :=
  List.foldlRecOn _ Block.removeTable h fun _ h i _ => h.removeTable i

theorem addJoin (h : b.EachTable P) (j : Join) : (b.addJoin j).EachTable P := by
  unfold Block.addJoin
  split <;> exact h

/-- A stable property stays with the tables of a block that is edited. -/
theorem edit (hP : Table.Stable P) (h : b.EachTable P) (new : EntityId) (edit : BlockEdit) :
    (edit.apply new b).EachTable P := by
  cases edit with
  | addTable name columns position => exact h.addTable (hP.create new name columns position)
  | removeTable id => exact h.removeTable id
  | moveTable id position => exact h.updateTable id fun t => hP.move t position
  | toggleColumn table column => exact h.updateTable table fun t => hP.toggle t column
  | selectColumn table column => exact h.updateTable table fun t => hP.select t column
  | deselectColumn table column => exact h.updateTable table fun t => hP.deselect t column
  | setColumnAggregate table column aggregate =>
    exact h.updateTable table fun t => hP.setAggregate t column aggregate
  | addJoin => exact h.addJoin _
  | updateFilter id update => exact h.same (sameDrawing_updateFilter b id update).1
  | removeFilter id => exact h.same (sameDrawing_removeFilter b id).1
  | addSubquery role filter frame => exact h.same (sameDrawing_addSubquery b _ role filter frame).1
  | linkFilter filter subquery => exact h.same (sameDrawing_linkFilter b filter subquery).1
  | removeSubquery id => exact h.same (sameDrawing_removeSubquery b id).1
  | _ => exact h.same rfl

end EachTable

theorem shallow_eachTable : Shallow (EachTable P) := fun _ _ _ h => h.same rfl

/-- An edit adds an empty nested query at most, and leaves the blocks of all others alone. -/
theorem everywhere_eachTable_edit (hP : Table.Stable P) (h : b.Everywhere (EachTable P))
    (new : EntityId) (edit : BlockEdit) : (edit.apply new b).Everywhere (EachTable P) := by
  obtain ⟨hself, hbelow⟩ := everywhere_iff.1 h
  refine everywhere_iff.2 ⟨hself.edit hP new edit, fun s' hs => ?_⟩
  rcases nestedFrom_edit new b edit s' hs with hempty | ⟨s, hs, heq⟩
  · rw [hempty]
    exact everywhere_eachTable_empty
  · rw [heq]
    exact hbelow s hs

end Block

end QueryCanvas
