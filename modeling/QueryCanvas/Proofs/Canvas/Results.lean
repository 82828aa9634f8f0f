import QueryCanvas.Proofs.Canvas.Focus
import QueryCanvas.Proofs.Canvas.Linked

/-!
# Results of named queries

The tables that read a named query show its results as a copy.  What the results of the named
queries are after a change of the canvas, and when the copies are still what they should be, is told
here.
-/

set_option autoImplicit false

namespace QueryCanvas

/-! ## Results of a block -/

namespace Table

variable {t : Table}

theorem mem_orderedSelection {c : String} : c ∈ t.orderedSelection ↔ c ∈ t.selected := by
  simp only [orderedSelection, isSelected, List.mem_append, List.mem_filter, List.contains_iff_mem]
  constructor
  · rintro (⟨-, h⟩ | ⟨h, -⟩) <;> exact h
  · intro h
    by_cases hc : c ∈ t.columns
    · exact .inl ⟨hc, h⟩
    · exact .inr ⟨h, by simpa using hc⟩

/-- The names of the chosen columns of a table among the results of its block. -/
def outputs (t : Table) : List String :=
  t.orderedSelection.map fun column => ((t.aggregates.find? column).bind (·.aliasName)).getD column

/-- The declared columns decide about the order only. -/
theorem mem_outputs_declaring (columns : List String) {x : String} :
    x ∈ outputs { t with columns := columns } ↔ x ∈ t.outputs := by
  simp only [outputs, List.mem_map, mem_orderedSelection]

end Table

namespace Block

variable {b b' : Block}

theorem outputColumns_congr
    (htables : b'.tables.flatMap Table.outputs = b.tables.flatMap Table.outputs)
    (haggregates : b'.aggregates = b.aggregates)
    (hshells : b'.subqueries.map SubqueryOf.shell = b.subqueries.map SubqueryOf.shell) :
    b'.outputColumns = b.outputColumns := by
  have haliases : ∀ d : Block, (d.subqueriesIn .selectList).filterMap (·.aliasName) =
      ((d.subqueries.map SubqueryOf.shell).filter (·.role = .selectList)).filterMap
        (·.aliasName) := by
    intro d
    rw [List.filter_map, List.filterMap_map]
    rfl
  show addNew [] (b'.tables.flatMap Table.outputs ++ _) =
    addNew [] (b.tables.flatMap Table.outputs ++ _)
  rw [haliases, haliases, htables, haggregates, hshells]

/-- Nested queries matter by their roles and aliases only. -/
theorem outputColumns_withNested {subs : List Subquery}
    (hshells : subs.map SubqueryOf.shell = b.subqueries.map SubqueryOf.shell) :
    ({ b with subqueries := subs } : Block).outputColumns = b.outputColumns :=
  outputColumns_congr rfl rfl hshells

theorem outputColumns_mapBlocks {change : Block → Block}
    (h : ∀ b, (change b).outputColumns = b.outputColumns) (b : Block) :
    (b.mapBlocks change).outputColumns = b.outputColumns := by
  rw [mapBlocks_eq, h]
  exact outputColumns_withNested (by simp [SubqueryOf.shell])

theorem outputColumns_updateNested? {id : EntityId} {change : Block → Block}
    (h : b.updateNested? id change = some b') : b'.outputColumns = b.outputColumns := by
  obtain ⟨subs, rfl, hone⟩ := updateNested?_eq_some h
  exact outputColumns_withNested hone.map_shell

/-- A new table in which nothing is chosen adds no results. -/
theorem outputColumns_addTable (b : Block) {t : Table} (ht : t.selected = []) :
    (b.addTable t).outputColumns = b.outputColumns := by
  have hnone : t.outputs = [] := by
    rw [Table.outputs, Table.orderedSelection]
    simp [Table.isSelected, ht]
  refine outputColumns_congr ?_ rfl rfl
  rw [addTable, List.flatMap_append, List.flatMap_singleton, hnone, List.append_nil]

/-- Names of tables are no part of the results. -/
theorem outputColumns_updateLinked (b : Block) (id : EntityId) {change : Table → Table}
    (h : ∀ t, (change t).outputs = t.outputs) :
    (b.updateLinked id change).outputColumns = b.outputColumns := by
  refine outputColumns_congr ?_ rfl rfl
  rw [updateLinked, List.flatMap_map]
  refine List.flatMap_congr fun t _ => ?_
  split
  · exact h t
  · rfl

theorem mem_addNew {x : String} (names known : List String) :
    x ∈ addNew known names ↔ x ∈ known ∨ x ∈ names := by
  induction names generalizing known with
  | nil => simp [addNew]
  | cons name rest ih =>
    show x ∈ addNew (if known.contains name then known else known ++ [name]) rest ↔ _
    rw [ih, List.mem_cons]
    split
    · rename_i hknown
      have hmem : name ∈ known := List.contains_iff_mem.1 hknown
      constructor
      · exact fun h => h.imp_right .inr
      · rintro (h | rfl | h)
        · exact .inl h
        · exact .inl hmem
        · exact .inr h
    · rw [List.mem_append, List.mem_singleton, or_assoc]

theorem mem_outputColumns {x : String} :
    x ∈ b.outputColumns ↔ (∃ t ∈ b.tables, x ∈ t.outputs) ∨
      x ∈ b.aggregates.filterMap (·.aliasName) ∨
        x ∈ (b.subqueriesIn .selectList).filterMap (·.aliasName) := by
  show x ∈ addNew [] (b.tables.flatMap Table.outputs ++ _) ↔ _
  rw [mem_addNew, List.mem_append, List.mem_append, List.mem_flatMap]
  simp

/-- Other declared columns in the tables that read a named query bring the results into another
order, if anything. -/
theorem mem_outputColumns_updateLinked (id : EntityId) (columns : List String) {x : String} :
    x ∈ (b.updateLinked id fun t => { t with columns := columns }).outputColumns ↔
      x ∈ b.outputColumns := by
  rw [mem_outputColumns, mem_outputColumns]
  refine or_congr ?_ Iff.rfl
  simp only [updateLinked, List.mem_map, exists_exists_and_eq_and]
  refine exists_congr fun t => and_congr_right fun _ => ?_
  split
  · exact Table.mem_outputs_declaring columns
  · exact Iff.rfl

end Block

/-! ## Results on a canvas -/

/-- What others see of a named query: its identifier and its results. -/
def Cte.face (q : Cte) : EntityId × List String := (q.id, q.block.outputColumns)

namespace Canvas

variable {c c' next : Canvas} {focus : Focus} {id p : EntityId} {change : Block → Block}

theorem results?_eq_block? (c : Canvas) (id : EntityId) :
    c.results? id = (c.block? (.cte id)).map Block.outputColumns := by
  rw [block?, Option.map_map]
  rfl

theorem results?_eq (c : Canvas) (id : EntityId) :
    c.results? id = ((c.ctes.map Cte.face).find? (·.1 = id)).map (·.2) := by
  rw [List.find?_map, Option.map_map]
  rfl

theorem results?_congr (h : c'.ctes.map Cte.face = c.ctes.map Cte.face) :
    c'.results? = c.results? := by
  funext id
  rw [results?_eq, results?_eq, h]

theorem faces_updateNestedInCtes (id : EntityId) (change : Block → Block) (ctes : List Cte) :
    (updateNestedInCtes id change ctes).map Cte.face = ctes.map Cte.face := by
  induction ctes with
  | nil => rfl
  | cons q rest ih =>
    rw [updateNestedInCtes]
    split
    · rename_i b hb
      rw [List.map_cons, List.map_cons, Cte.face, Block.outputColumns_updateNested? hb]
      rfl
    · rw [List.map_cons, List.map_cons, ih]

/-- A change of a block below a named query leaves its results alone, and so does one of its own
block that does. -/
theorem results?_updateBlock
    (h : ∀ p, focus = .cte p → ∀ b, (change b).outputColumns = b.outputColumns) :
    (c.updateBlock focus change).results? = c.results? := by
  cases focus with
  | root => rfl
  | cte id =>
    refine results?_congr (map_updateFirst (fun q => ?_) c.ctes)
    rw [Cte.face, h id rfl]
    rfl
  | subquery id =>
    simp only [updateBlock]
    split
    · rfl
    · exact results?_congr (faces_updateNestedInCtes id change c.ctes)

theorem find?_updateFirst_of_ne {α : Type} {test other : α → Bool} {f : α → α}
    (h : ∀ a, test a = true → other a = false ∧ other (f a) = false) (l : List α) :
    (updateFirst test f l).find? other = l.find? other := by
  induction l with
  | nil => rfl
  | cons a rest ih =>
    rw [updateFirst]
    split
    · rename_i ha
      obtain ⟨hbefore, hafter⟩ := h a ha
      rw [List.find?_cons, List.find?_cons, hbefore, hafter]
    · rw [List.find?_cons, List.find?_cons, ih]

theorem results?_updateBlock_of_ne (h : id ≠ p) :
    (c.updateBlock (.cte p) change).results? id = c.results? id := by
  have hother : ∀ q : Cte, decide (q.id = p) = true → decide (q.id = id) = false := by
    intro q hq
    rw [of_decide_eq_true hq, decide_eq_false_iff_not]
    exact h.symm
  refine congrArg (Option.map _) (find?_updateFirst_of_ne (fun q hq => ?_) c.ctes)
  exact ⟨hother q hq, hother q hq⟩

theorem cte?_mapBlocks (c : Canvas) (change : Block → Block) (id : EntityId) :
    (c.mapBlocks change).cte? id =
      (c.cte? id).map fun q => { q with block := q.block.mapBlocks change } := by
  rw [cte?, mapBlocks, List.find?_map]
  rfl

theorem results?_mapBlocks (h : ∀ b, (change b).outputColumns = b.outputColumns) :
    (c.mapBlocks change).results? = c.results? := by
  refine results?_congr ?_
  rw [mapBlocks, List.map_map]
  refine List.map_congr_left fun q _ => ?_
  rw [Function.comp_apply, Cte.face, Block.outputColumns_mapBlocks h]
  rfl

theorem results?_renameCte (c : Canvas) (id : EntityId) (name : String) :
    (c.renameCte id name).results? = c.results? := by
  unfold renameCte
  split
  · rfl
  · dsimp only
    have hnames : ∀ b : Block, (b.updateLinked id fun t => { t with name := name }).outputColumns =
        b.outputColumns := fun b => Block.outputColumns_updateLinked b id fun _ => rfl
    rw [results?_mapBlocks hnames]
    refine results?_congr (map_updateFirst (fun q => ?_) c.ctes)
    rfl

theorem results?_addCte {new : EntityId} (h : id ≠ new) (name : String) (frame : Frame) :
    (c.addCte new name frame).results? id = c.results? id := by
  have hother : [({ id := new, name, frame, block := Block.empty } : Cte)].find?
      (fun q => decide (q.id = id)) = none := by
    simpa using h.symm
  rw [results?, cte?, addCte, List.find?_append, hother, Option.or_none]
  rfl

theorem results?_addCteReference (c : Canvas) (focus : Focus) (cte new : EntityId)
    (position : Position) : (c.addCteReference focus cte new position).results? = c.results? := by
  unfold addCteReference
  split
  · rfl
  · split
    · exact results?_updateBlock fun _ _ b => Block.outputColumns_addTable b rfl
    · rfl

/-- What has no results has none after a refresh. -/
theorem results?_refreshCteColumns_nil (p : EntityId) (h : c.results? id = some []) :
    (c.refreshCteColumns p).results? id = some [] := by
  unfold refreshCteColumns
  split
  · exact h
  · obtain ⟨q, hq, hnone⟩ := Option.map_eq_some_iff.1 h
    rw [results?, cte?_mapBlocks, hq, Option.map_some, Option.map_some, Option.some.injEq]
    refine List.eq_nil_iff_forall_not_mem.2 fun x hx => ?_
    dsimp only at hx
    rw [Block.mapBlocks_eq, Block.mem_outputColumns_updateLinked,
      Block.outputColumns_withNested (by simp [SubqueryOf.shell]), hnone] at hx
    exact List.not_mem_nil hx

/-! ## Named queries whose own block does not read them -/

/-- No table in the own block of a named query reads that named query. -/
def Outward (c : Canvas) : Prop := ∀ q ∈ c.ctes, q.block.Linked fun id _ => id ≠ q.id

/-- A refresh leaves the results alone that it shows. -/
theorem Outward.results?_refreshCteColumns (h : c.Outward) (id : EntityId) :
    (c.refreshCteColumns id).results? id = c.results? id := by
  unfold Canvas.refreshCteColumns
  split
  · rfl
  · rename_i q hq
    have hid : q.id = id := by simpa using List.find?_some hq
    rw [results?, cte?_mapBlocks, results?, hq, Option.map_some, Option.map_some, Option.map_some,
      Option.some.injEq, Block.mapBlocks_eq, Block.updateLinked_eq_self]
    · exact Block.outputColumns_withNested (by simp [SubqueryOf.shell])
    · intro t ht hlink
      exact h q (List.mem_of_find?_eq_some hq) t ht id hlink hid.symm

theorem Outward.updateNestedInCtes {ctes : List Cte}
    (h : ∀ q ∈ ctes, q.block.Linked fun id _ => id ≠ q.id) :
    ∀ q ∈ updateNestedInCtes id change ctes, q.block.Linked fun id _ => id ≠ q.id := by
  induction ctes with
  | nil => simp [Canvas.updateNestedInCtes]
  | cons q rest ih =>
    obtain ⟨hq, hrest⟩ := List.forall_mem_cons.1 h
    rw [Canvas.updateNestedInCtes]
    split
    · rename_i b hb
      obtain ⟨subs, rfl, -⟩ := Block.updateNested?_eq_some hb
      exact List.forall_mem_cons.2 ⟨hq.same rfl, hrest⟩
    · exact List.forall_mem_cons.2 ⟨hq, ih hrest⟩

theorem Outward.updateBlock (h : c.Outward)
    (hchange : ∀ p, focus = .cte p → ∀ b, b.Linked (fun id _ => id ≠ p) →
      (change b).Linked fun id _ => id ≠ p) : (c.updateBlock focus change).Outward := by
  cases focus with
  | root => exact h
  | cte p =>
    intro q hq
    rcases mem_updateFirst hq with hq | ⟨r, hr, hid, rfl⟩
    · exact h q hq
    · obtain rfl := of_decide_eq_true hid
      exact hchange r.id rfl r.block (h r hr)
  | subquery id =>
    simp only [Canvas.updateBlock]
    split
    · exact h
    · exact Outward.updateNestedInCtes h

theorem Outward.mapBlocks (h : c.Outward)
    (hchange : ∀ (A : EntityId → Prop) (b : Block), b.Linked (fun id _ => A id) →
      (change b).Linked fun id _ => A id) : (c.mapBlocks change).Outward := by
  intro q hq
  obtain ⟨r, hr, rfl⟩ := List.mem_map.1 hq
  show (r.block.mapBlocks change).Linked _
  rw [Block.mapBlocks_eq]
  exact hchange (· ≠ r.id) _ ((h r hr).same rfl)

theorem Outward.updateLinked (h : c.Outward) (id : EntityId) {change : Table → Table}
    (hlinks : ∀ t : Table, (change t).cte = t.cte) :
    (c.mapBlocks fun b => b.updateLinked id change).Outward := by
  refine h.mapBlocks fun A b hb t ht link hlink => ?_
  obtain ⟨u, hu, rfl⟩ := List.mem_map.1 ht
  refine hb u hu link ?_
  split at hlink
  · rw [← hlinks u]
    exact hlink
  · exact hlink

theorem Outward.refreshCteColumns (h : c.Outward) (id : EntityId) :
    (c.refreshCteColumns id).Outward := by
  unfold Canvas.refreshCteColumns
  split
  · exact h
  · exact h.updateLinked id fun _ => rfl

theorem Outward.renameCte (h : c.Outward) (id : EntityId) (name : String) :
    (c.renameCte id name).Outward := by
  unfold Canvas.renameCte
  split
  · exact h
  · dsimp only
    refine Outward.updateLinked (fun q hq => ?_) id fun _ => rfl
    rcases mem_updateFirst hq with hq | ⟨r, hr, -, rfl⟩
    · exact h q hq
    · exact h r hr

theorem Outward.removeCte (h : c.Outward) (id : EntityId) : (c.removeCte id).Outward := by
  unfold Canvas.removeCte
  split
  · exact h
  · have hbefore : Outward { c with ctes := c.ctes.filter fun q : Cte => q.id ≠ id } :=
      fun q hq => h q (List.mem_filter.1 hq).1
    exact hbefore.mapBlocks fun A b hb => hb.removeLinked id

theorem Outward.addCte (h : c.Outward) (new : EntityId) (name : String) (frame : Frame) :
    (c.addCte new name frame).Outward := by
  intro q hq
  rcases List.mem_append.1 hq with hq | hq
  · exact h q hq
  · rw [List.mem_singleton.1 hq]
    exact Block.linked_empty

theorem Outward.addCteReference (h : c.Outward) (focus : Focus) (cte new : EntityId)
    (position : Position) : (c.addCteReference focus cte new position).Outward := by
  unfold Canvas.addCteReference
  split
  · exact h
  · split
    · rename_i hcan
      refine h.updateBlock ?_
      rintro p rfl b hb
      refine hb.addTable ?_
      rintro _ ⟨⟩ rfl
      simp [canReference] at hcan
    · exact h

theorem Outward.removeNestedInCtes {ctes ctes' : List Cte}
    (h : ∀ q ∈ ctes, q.block.Linked fun id _ => id ≠ q.id)
    (hremoved : removeNestedInCtes? id ctes = some ctes') :
    ∀ q ∈ ctes', q.block.Linked fun id _ => id ≠ q.id := by
  induction ctes generalizing ctes' with
  | nil => cases hremoved
  | cons q rest ih =>
    obtain ⟨hq, hrest⟩ := List.forall_mem_cons.1 h
    rw [removeNestedInCtes?] at hremoved
    split at hremoved
    · rename_i b hb
      cases hremoved
      refine List.forall_mem_cons.2 ⟨?_, hrest⟩
      rcases Block.removeNested?_eq_some hb with rfl | ⟨subs, rfl, -⟩
      · exact hq.same (Block.sameDrawing_removeSubquery q.block id).1
      · exact hq.same rfl
    · obtain ⟨rest', hrest', rfl⟩ := Option.map_eq_some_iff.1 hremoved
      exact List.forall_mem_cons.2 ⟨hq, ih hrest hrest'⟩

theorem Outward.removeSubquery (h : c.Outward) (id : EntityId) :
    ((c.removeSubquery? id).getD c).Outward := by
  unfold Canvas.removeSubquery?
  split
  · exact h
  · cases hctes : removeNestedInCtes? id c.ctes with
    | none => exact h
    | some ctes => exact Outward.removeNestedInCtes h hctes

theorem Outward.edit (h : c.Outward) (new : EntityId) (edit : CanvasEdit) :
    (edit.apply new c).Outward := by
  cases edit with
  | inBlock focus edit => exact h.updateBlock fun _ _ _ hb => hb.edit new edit
  | addCte name frame => exact h.addCte new name frame
  | reference focus cte position => exact h.addCteReference focus cte new position
  | removeSubquery id => exact h.removeSubquery id
  | renameCte id name => exact h.renameCte id name
  | removeCte id => exact h.removeCte id
  | refreshCteColumns id => exact h.refreshCteColumns id

/-! ## Copies of results -/

/-- A table on the canvas reads the named query. -/
def IsRead (c : Canvas) (id : EntityId) : Prop := ∃ b ∈ c.blocks, ∃ t ∈ b.tables, t.cte = some id

/-- Every table that is linked to a named query shows its results. -/
def Current (c : Canvas) : Prop := c.Linked fun _ id columns => c.results? id = some columns

theorem linked_iff {A : EntityId → List String → Prop} : (c.Linked fun _ => A) ↔
    ∀ b ∈ c.blocks, ∀ t ∈ b.tables, ∀ id, t.cte = some id → A id t.columns := by
  rw [← everywhere_iff_blocks]
  exact ⟨fun h => ⟨h.root, h.ctes⟩, fun h => ⟨h.1, h.2⟩⟩

/-- But for a named query that is being edited, those that tables read afterwards have the results
that they had before. -/
def KeepsResults (c next : Canvas) (edited : Option EntityId) : Prop :=
  ∀ id, next.IsRead id → edited ≠ some id → next.results? id = c.results? id

/-- Where tables show the results from before, and those of the edited named query from afterwards,
they show the results from afterwards exactly if these are the same. -/
theorem current_iff {edited : Option EntityId}
    (h : next.Linked fun _ id columns =>
      if edited = some id then next.results? id = some columns else c.results? id = some columns) :
    next.Current ↔ c.KeepsResults next edited := by
  rw [linked_iff] at h
  unfold Current
  rw [linked_iff]
  constructor
  · rintro hcurrent id ⟨b, hb, t, ht, hlink⟩ hother
    have hbefore := h b hb t ht id hlink
    rw [if_neg hother] at hbefore
    exact (hcurrent b hb t ht id hlink).trans hbefore.symm
  · intro hkeeps b hb t ht id hlink
    have hshown := h b hb t ht id hlink
    split at hshown
    · exact hshown
    · rename_i hother
      exact (hkeeps id ⟨b, hb, t, ht, hlink⟩ hother).trans hshown

/-- Where tables show the results from before, they show those from afterwards exactly if these are
the same. -/
theorem current_iff_of_linked (h : next.Linked fun _ id columns => c.results? id = some columns) :
    next.Current ↔ c.KeepsResults next none := by
  refine current_iff (h.imp fun _ id columns hshown => ?_)
  rw [if_neg nofun]
  exact hshown

theorem KeepsResults.of_eq (h : next.results? = c.results?) (edited : Option EntityId) :
    c.KeepsResults next edited :=
  fun id _ _ => congrFun h id

/-- After a refresh the tables that read the edited named query show its results, and the others
what they showed before. -/
theorem linked_refreshed {edited : Canvas}
    (h : edited.Linked fun _ id columns => c.results? id = some columns) (houtward : edited.Outward)
    (hp : (edited.results? p).isSome) :
    (edited.refreshCteColumns p).Linked fun _ id columns =>
      if some p = some id then (edited.refreshCteColumns p).results? id = some columns
      else c.results? id = some columns := by
  refine h.refreshCteColumns p fun place id columns hshown => ?_
  by_cases hid : id = p
  · obtain ⟨results, hresults⟩ := Option.isSome_iff_exists.1 hp
    rw [hid, if_pos rfl, if_pos rfl, houtward.results?_refreshCteColumns, hresults]
    rfl
  · rw [if_neg hid, if_neg fun hsame => hid (Option.some.inj hsame).symm]
    exact hshown

end Canvas

end QueryCanvas
