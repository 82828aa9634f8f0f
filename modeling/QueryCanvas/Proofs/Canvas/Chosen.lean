import QueryCanvas.Proofs.Canvas.EachTable
import QueryCanvas.Proofs.CarryOver.Aggregates

/-!
# Chosen columns and the aggregates around them

A table keeps its chosen columns and the aggregates around columns apart.  The two fit together if
no column is chosen twice and an aggregate is around chosen columns only.  Every edit keeps them
fitting: a column that gets an aggregate is chosen, and a column that is withdrawn loses it.  An
aggregate of such a table is therefore always listed, and written among the results of its block.
-/

set_option autoImplicit false

namespace QueryCanvas

/-- The names of an erased entry are not found any more, and all others are found as before. -/
theorem NameMap.find?_erase {α : Type} (m : NameMap α) (name key : String) :
    (m.erase name).find? key = if key = name then none else m.find? key := by
  rw [find?, find?, erase, List.find?_filter]
  split
  · rename_i heq
    rw [Option.map_eq_none_iff, List.find?_eq_none]
    intro e _ hfound
    simp only [decide_eq_true_eq, heq] at hfound
    exact hfound.1 hfound.2
  · rename_i hne
    congr 2
    funext e
    by_cases hkey : e.1 = key
    · simp [hkey, hne]
    · simp [hkey]

namespace Table

variable {t t' : Table}

/-! ## Tables -/

/-- No column is chosen twice, and each column with an aggregate around it is chosen. -/
structure WellChosen (t : Table) : Prop where
  once : t.selected.Nodup
  applied : ∀ {column : String} {a : ColumnAggregate},
    t.aggregates.find? column = some a → column ∈ t.selected

/-- Only the choice and the aggregates matter. -/
theorem WellChosen.same (h : t.WellChosen) (hselected : t'.selected = t.selected)
    (haggregates : t'.aggregates = t.aggregates) : t'.WellChosen := by
  refine ⟨?_, ?_⟩
  · rw [hselected]
    exact h.once
  · rw [hselected, haggregates]
    exact h.applied

/-- Without aggregates nothing but the choice matters. -/
theorem wellChosen_of_plain (hplain : t.aggregates = .empty) (honce : t.selected.Nodup) :
    t.WellChosen := by
  refine ⟨honce, fun hfound => ?_⟩
  rw [hplain] at hfound
  cases hfound

theorem WellChosen.select (h : t.WellChosen) (column : String) : (t.select column).WellChosen := by
  unfold Table.select
  split
  · exact h
  · rename_i hnew
    have hnot : column ∉ t.selected := fun hmem => hnew (List.contains_iff_mem.2 hmem)
    refine ⟨?_, fun hfound => List.mem_append_left _ (h.applied hfound)⟩
    exact List.nodup_append.2 ⟨h.once, List.nodup_singleton column, fun a ha c hc heq =>
      hnot (List.mem_singleton.1 hc ▸ heq ▸ ha)⟩

/-- The aggregate goes with the column that it is around. -/
theorem WellChosen.deselect (h : t.WellChosen) (column : String) :
    (t.deselect column).WellChosen := by
  refine ⟨h.once.filter _, fun {c a} hfound => ?_⟩
  have hfound : (t.aggregates.erase column).find? c = some a := hfound
  rw [NameMap.find?_erase] at hfound
  split at hfound
  · cases hfound
  · rename_i hne
    exact List.mem_filter.2 ⟨h.applied hfound, decide_eq_true hne⟩

theorem WellChosen.setAggregate (h : t.WellChosen) (column : String)
    (aggregate : Option ColumnAggregate) : (t.setAggregate column aggregate).WellChosen := by
  cases aggregate with
  | none =>
    refine ⟨h.once, fun {c a} hfound => h.applied (a := a) ?_⟩
    have hfound : (t.aggregates.erase column).find? c = some a := hfound
    rw [NameMap.find?_erase] at hfound
    split at hfound
    · cases hfound
    · exact hfound
  | some aggregate =>
    refine ⟨(h.select column).once, fun {c a} hfound => ?_⟩
    have hfound : ((t.select column).aggregates.insert column aggregate).find? c = some a := hfound
    rw [NameMap.find?_insert] at hfound
    split at hfound
    · rename_i heq
      exact mem_selected_select.2 (.inr heq.symm)
    · exact (h.select column).applied hfound

/-- Columns that are chosen one after the other. -/
theorem WellChosen.foldl_select (h : t.WellChosen) (columns : List String) :
    (columns.foldl Table.select t).WellChosen :=
  List.foldlRecOn columns Table.select h fun _ h column _ => h.select column

/-- Every edit of a table keeps the choice and the aggregates fitting. -/
theorem stable_wellChosen : Stable WellChosen where
  create := fun _ _ _ _ => wellChosen_of_plain rfl .nil
  move := fun _ _ h => h.same rfl rfl
  select := fun _ column h => h.select column
  deselect := fun _ column h => h.deselect column
  setAggregate := fun _ column aggregate h => h.setAggregate column aggregate

end Table

/-- In every table of the block the choice and the aggregates fit together. -/
abbrev Block.WellChosen (b : Block) : Prop := b.EachTable Table.WellChosen

namespace Canvas

variable {c : Canvas}

/-! ## Canvases -/

/-- In every table of every block the choice and the aggregates fit together. -/
def WellChosen (c : Canvas) : Prop := c.Everywhere Block.WellChosen

theorem wellChosen_empty : Canvas.empty.WellChosen :=
  ⟨Block.everywhere_eachTable_empty, by simp [Canvas.empty]⟩

theorem WellChosen.updateBlock (h : c.WellChosen) {change : Block → Block}
    (hchange : ∀ b : Block, b.Everywhere Block.WellChosen →
      (change b).Everywhere Block.WellChosen) (focus : Focus) :
    (c.updateBlock focus change).WellChosen :=
  Everywhere.updateBlock h (fun _ hb => hb) Block.shallow_eachTable hchange focus

/-- A change of the tables linked to a named query that touches neither choices nor aggregates. -/
theorem WellChosen.updateLinked (h : c.WellChosen) (id : EntityId) {f : Table → Table}
    (hf : ∀ t : Table, (f t).selected = t.selected ∧ (f t).aggregates = t.aggregates) :
    (c.mapBlocks fun b => b.updateLinked id f).WellChosen :=
  Everywhere.mapBlocks h Block.shallow_eachTable
    (fun _ hb => hb.updateLinked id fun t ht => ht.same (hf t).1 (hf t).2) fun _ _ hs => hs

theorem WellChosen.refreshCteColumns (h : c.WellChosen) (id : EntityId) :
    (c.refreshCteColumns id).WellChosen := by
  unfold Canvas.refreshCteColumns
  split
  · exact h
  · exact h.updateLinked id fun _ => ⟨rfl, rfl⟩

theorem WellChosen.renameCte (h : c.WellChosen) (id : EntityId) (name : String) :
    (c.renameCte id name).WellChosen := by
  unfold Canvas.renameCte
  split
  · exact h
  · dsimp only
    refine WellChosen.updateLinked ?_ id fun _ => ⟨rfl, rfl⟩
    refine ⟨h.1, fun q hq => ?_⟩
    rcases mem_updateFirst hq with hq | ⟨r, hr, -, rfl⟩
    · exact h.2 q hq
    · exact h.2 r hr

theorem WellChosen.removeCte (h : c.WellChosen) (id : EntityId) : (c.removeCte id).WellChosen := by
  unfold Canvas.removeCte
  split
  · exact h
  · have hbefore : WellChosen { c with ctes := c.ctes.filter fun q : Cte => q.id ≠ id } :=
      ⟨h.1, fun q hq => h.2 q (List.mem_filter.1 hq).1⟩
    exact Everywhere.mapBlocks hbefore Block.shallow_eachTable (fun _ hb => hb.removeLinked id)
      fun b => Block.subqueries_removeLinked_subset b id

theorem WellChosen.addCte (h : c.WellChosen) (new : EntityId) (name : String) (frame : Frame) :
    (c.addCte new name frame).WellChosen := by
  refine ⟨h.1, fun q hq => ?_⟩
  rcases List.mem_append.1 hq with hq | hq
  · exact h.2 q hq
  · rw [List.mem_singleton.1 hq]
    exact Block.everywhere_eachTable_empty

theorem WellChosen.addCteReference (h : c.WellChosen) (focus : Focus) (cte new : EntityId)
    (position : Position) : (c.addCteReference focus cte new position).WellChosen := by
  unfold Canvas.addCteReference
  split
  · exact h
  · split
    · refine h.updateBlock (fun b hb => ?_) focus
      obtain ⟨hself, hbelow⟩ := Block.everywhere_iff.1 hb
      exact Block.everywhere_iff.2 ⟨hself.addTable (Table.wellChosen_of_plain rfl .nil), hbelow⟩
    · exact h

/-- An edit of a canvas keeps choices and aggregates fitting. -/
theorem WellChosen.edit (h : c.WellChosen) (new : EntityId) (edit : CanvasEdit) :
    (edit.apply new c).WellChosen := by
  cases edit with
  | inBlock focus edit =>
    exact h.updateBlock
      (fun _ hb => Block.everywhere_eachTable_edit Table.stable_wellChosen hb new edit) focus
  | addCte name frame => exact h.addCte new name frame
  | reference focus cte position => exact h.addCteReference focus cte new position
  | removeSubquery id =>
    exact Everywhere.removeSubquery h Block.shallow_eachTable id fun b hb =>
      hb.same (Block.sameDrawing_removeSubquery b id).1
  | renameCte id name => exact h.renameCte id name
  | removeCte id => exact h.removeCte id
  | refreshCteColumns id => exact h.refreshCteColumns id

end Canvas

end QueryCanvas
