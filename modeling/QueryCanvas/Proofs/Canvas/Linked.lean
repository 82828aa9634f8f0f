import QueryCanvas.Proofs.Canvas.EachTable
import QueryCanvas.Proofs.Canvas.Hole

/-!
# Tables that read named queries

A table that is linked to a named query stands in the body of a named query, at any depth, or below
the root, and shows columns.  Which links with which columns there are at which place is told here
of every edit: but for a table that is put there to read a named query, an edit makes no links.
-/

set_option autoImplicit false

namespace QueryCanvas

/-! ## Tables -/

/-- The link and the columns of a table are those of another one. -/
def Table.SameLink (t t' : Table) : Prop := t'.cte = t.cte ∧ t'.columns = t.columns

namespace Table

theorem sameLink_select (t : Table) (column : String) : SameLink t (t.select column) := by
  unfold select
  split <;> exact ⟨rfl, rfl⟩

theorem sameLink_setAggregate (t : Table) (column : String) (a : Option ColumnAggregate) :
    SameLink t (t.setAggregate column a) := by
  cases a with
  | none => exact ⟨rfl, rfl⟩
  | some a => exact sameLink_select t column

/-- What is allowed of one of them is allowed of the other. -/
theorem SameLink.allowed {R : EntityId → List String → Prop} {t t' : Table}
    (hsame : t.SameLink t') (h : ∀ id, t.cte = some id → R id t.columns) :
    ∀ id, t'.cte = some id → R id t'.columns := by
  intro id hid
  rw [hsame.2]
  exact h id (hsame.1 ▸ hid)

end Table

namespace Block

/-! ## Blocks -/

/-- Each table that is linked to a named query is so with columns that the relation allows. -/
def Linked (R : EntityId → List String → Prop) (b : Block) : Prop :=
  ∀ t ∈ b.tables, ∀ id, t.cte = some id → R id t.columns

variable {R R' : EntityId → List String → Prop} {b b' : Block}

theorem linked_empty : Block.empty.Linked R := eachTable_empty

theorem everywhere_linked_empty : Block.empty.Everywhere (Linked R) := everywhere_eachTable_empty

theorem Linked.imp (h : b.Linked R) (himp : ∀ id columns, R id columns → R' id columns) :
    b.Linked R' :=
  EachTable.imp h fun t ht id hid => himp id t.columns (ht id hid)

/-- Only tables matter. -/
theorem Linked.same (h : b.Linked R) (htables : b'.tables = b.tables) : b'.Linked R :=
  EachTable.same h htables

theorem shallow_linked : Shallow (Linked R) := shallow_eachTable

theorem Linked.addTable (h : b.Linked R) {t : Table}
    (ht : ∀ id, t.cte = some id → R id t.columns) : (b.addTable t).Linked R :=
  EachTable.addTable h ht

theorem Linked.updateTable (h : b.Linked R) (id : EntityId) {f : Table → Table}
    (hsame : ∀ t : Table, t.SameLink (f t)) : (b.updateTable id f).Linked R :=
  EachTable.updateTable h id fun t => (hsame t).allowed

theorem Linked.addJoin (h : b.Linked R) (j : Join) : (b.addJoin j).Linked R :=
  EachTable.addJoin h j

theorem Linked.removeLinked (h : b.Linked R) (id : EntityId) : (b.removeLinked id).Linked R :=
  EachTable.removeLinked h id

/-- A new table has no link, and edits of a table keep its link and its columns. -/
theorem stable_linked :
    Table.Stable fun t => ∀ id, t.cte = some id → R id t.columns where
  create := fun _ _ _ _ => nofun
  move := fun _ _ => Table.SameLink.allowed ⟨rfl, rfl⟩
  select := fun t column => (Table.sameLink_select t column).allowed
  deselect := fun _ _ => Table.SameLink.allowed ⟨rfl, rfl⟩
  setAggregate := fun t column a => (Table.sameLink_setAggregate t column a).allowed

/-- An edit of a block makes no links. -/
theorem Linked.edit (h : b.Linked R) (new : EntityId) (edit : BlockEdit) :
    (edit.apply new b).Linked R :=
  EachTable.edit stable_linked h new edit

/-- An edit of a block makes no links below it either. -/
theorem everywhere_linked_edit (h : b.Everywhere (Linked R)) (new : EntityId) (edit : BlockEdit) :
    (edit.apply new b).Everywhere (Linked R) :=
  everywhere_eachTable_edit stable_linked h new edit

end Block

namespace Canvas

/-! ## Places -/

/-- The named query in whose body the block of a pointer stands; none below the root. -/
def owner? (c : Canvas) : Focus → Option EntityId
  | .root => none
  | .cte id => some id
  | .subquery id =>
    if (c.root.nested? id).isSome then none
    else (c.ctes.find? (·.block.containsNested id)).map (·.id)

/-- The result columns of a named query. -/
def results? (c : Canvas) (id : EntityId) : Option (List String) :=
  (c.cte? id).map (·.block.outputColumns)

/-- Each table that is linked to a named query is so with columns that the relation allows for its
place: for the named query in whose body it stands, or for none below the root. -/
structure Linked (R : Option EntityId → EntityId → List String → Prop) (c : Canvas) : Prop where
  root : c.root.Everywhere (Block.Linked (R none))
  ctes : ∀ q ∈ c.ctes, q.block.Everywhere (Block.Linked (R (some q.id)))

namespace Linked

variable {R R' : Option EntityId → EntityId → List String → Prop} {c : Canvas}

theorem imp (h : c.Linked R) (himp : ∀ place id columns, R place id columns → R' place id columns) :
    c.Linked R' :=
  ⟨h.root.imp fun _ hb => hb.imp (himp none),
    fun q hq => (h.ctes q hq).imp fun _ hb => hb.imp (himp (some q.id))⟩

/-! ## Edits of one block -/

theorem updateNestedInCtes {id : EntityId} {change : Block → Block} {ctes : List Cte}
    (h : ∀ q ∈ ctes, q.block.Everywhere (Block.Linked (R (some q.id))))
    (hchange : ∀ q, ctes.find? (·.block.containsNested id) = some q → ∀ b,
      b.Everywhere (Block.Linked (R (some q.id))) →
        (change b).Everywhere (Block.Linked (R (some q.id)))) :
    ∀ q ∈ updateNestedInCtes id change ctes, q.block.Everywhere (Block.Linked (R (some q.id))) := by
  induction ctes with
  | nil => simp [Canvas.updateNestedInCtes]
  | cons q rest ih =>
    obtain ⟨hq, hrest⟩ := List.forall_mem_cons.1 h
    rw [Canvas.updateNestedInCtes]
    split
    · rename_i b hb
      obtain ⟨found, hfound, -⟩ := Block.nested?_eq_some hb
      have hfirst : q.block.containsNested id = true := Option.isSome_of_eq_some hfound
      refine List.forall_mem_cons.2 ⟨?_, hrest⟩
      exact Block.Everywhere.updateNested? (fun _ hb => hb) Block.shallow_linked
        (hchange q (List.find?_cons_of_pos hfirst)) _ b hq hb
    · rename_i hnone
      have hfirst : ¬q.block.containsNested id = true := by
        rw [Block.containsNested, Block.nested?_eq_none hnone]
        exact Bool.false_ne_true
      refine List.forall_mem_cons.2 ⟨hq, ih hrest fun r hr => hchange r ?_⟩
      rw [List.find?_cons_of_neg (p := fun q : Cte => q.block.containsNested id) hfirst]
      exact hr

/-- After a change of one block the links are allowed for their places, if those in the changed
block are. -/
theorem updateBlock (h : c.Linked R) (focus : Focus) {change : Block → Block}
    (hchange : ∀ b, b.Everywhere (Block.Linked (R (c.owner? focus))) →
      (change b).Everywhere (Block.Linked (R (c.owner? focus)))) :
    (c.updateBlock focus change).Linked R := by
  cases focus with
  | root => exact ⟨hchange _ h.root, h.ctes⟩
  | cte id =>
    refine ⟨h.root, fun q hq => ?_⟩
    rcases mem_updateFirst hq with hq | ⟨r, hr, hid, rfl⟩
    · exact h.ctes q hq
    · have hplace : c.owner? (.cte id) = some r.id := congrArg some (of_decide_eq_true hid).symm
      rw [hplace] at hchange
      exact hchange _ (h.ctes r hr)
  | subquery id =>
    simp only [Canvas.updateBlock]
    split
    · rename_i root hupdate
      obtain ⟨found, hfound, -⟩ := Block.nested?_eq_some hupdate
      have hplace : c.owner? (.subquery id) = none := if_pos (Option.isSome_of_eq_some hfound)
      rw [hplace] at hchange
      exact ⟨Block.Everywhere.updateNested? (fun _ hb => hb) Block.shallow_linked hchange _ root
        h.root hupdate, h.ctes⟩
    · rename_i hnone
      have hroot : ¬(c.root.nested? id).isSome = true := by
        rw [Block.nested?_eq_none hnone]
        exact Bool.false_ne_true
      refine ⟨h.root, updateNestedInCtes h.ctes fun q hq => ?_⟩
      have hplace : c.owner? (.subquery id) = some q.id := by
        rw [owner?, if_neg hroot, hq, Option.map_some]
      rw [hplace] at hchange
      exact hchange

theorem inBlock (h : c.Linked R) (focus : Focus) (new : EntityId) (edit : BlockEdit) :
    ((CanvasEdit.inBlock focus edit).apply new c).Linked R :=
  h.updateBlock focus fun _ hb => Block.everywhere_linked_edit hb new edit

/-- A table that reads a named query shows its results. -/
theorem addCteReference (h : c.Linked R) {focus : Focus} {cte : EntityId}
    (hnew : c.canReference focus cte = true → ∀ columns, c.results? cte = some columns →
      R (c.owner? focus) cte columns) (new : EntityId) (position : Position) :
    (c.addCteReference focus cte new position).Linked R := by
  unfold Canvas.addCteReference
  split
  · exact h
  · rename_i q hq
    split
    · rename_i hcan
      have hresults : c.results? cte = some q.block.outputColumns := by
        rw [results?, hq, Option.map_some]
      refine h.updateBlock focus fun b hb => ?_
      obtain ⟨hself, hbelow⟩ := Block.everywhere_iff.1 hb
      refine Block.everywhere_iff.2 ⟨hself.addTable ?_, hbelow⟩
      rintro _ ⟨⟩
      exact hnew hcan _ hresults
    · exact h

/-! ## Edits of all blocks -/

theorem mapBlocks (h : c.Linked R) {change : Block → Block}
    (hchange : ∀ place b, b.Linked (R place) → (change b).Linked (R' place))
    (hsubs : ∀ b, (change b).subqueries ⊆ b.subqueries) : (c.mapBlocks change).Linked R' := by
  refine ⟨Block.Everywhere.mapBlocks Block.shallow_linked (hchange none) hsubs _ h.root,
    fun q hq => ?_⟩
  obtain ⟨r, hr, rfl⟩ := List.mem_map.1 hq
  exact Block.Everywhere.mapBlocks Block.shallow_linked (hchange (some r.id)) hsubs _ (h.ctes r hr)

/-- A change of the tables linked to a named query that keeps their links and columns. -/
theorem updateLinked (h : c.Linked R) (id : EntityId) {change : Table → Table}
    (hsame : ∀ t : Table, t.SameLink (change t)) :
    (c.mapBlocks fun b => b.updateLinked id change).Linked R := by
  refine h.mapBlocks (fun place b hb => ?_) fun _ _ hs => hs
  exact Block.EachTable.updateLinked hb id fun t => (hsame t).allowed

/-- After its refresh the tables linked to a named query show its results. -/
theorem refreshCteColumns (h : c.Linked R) (id : EntityId)
    (himp : ∀ place link columns, R place link columns →
      R' place link (if link = id then (c.results? id).getD columns else columns)) :
    (c.refreshCteColumns id).Linked R' := by
  unfold Canvas.refreshCteColumns
  split
  · rename_i hnone
    refine h.imp fun place link columns hR => ?_
    have hafter := himp place link columns hR
    rw [results?, hnone, Option.map_none, Option.getD_none, ite_self] at hafter
    exact hafter
  · rename_i q hq
    refine h.mapBlocks (fun place b hb t ht link hlink => ?_) fun _ _ hs => hs
    have hresults : c.results? id = some q.block.outputColumns := by
      rw [results?, hq, Option.map_some]
    obtain ⟨u, hu, rfl⟩ := List.mem_map.1 ht
    split at hlink
    · rename_i hcte
      have hafter := himp place link _ (hb u hu link hlink)
      have hlinkid : link = id := Option.some.inj (hlink.symm.trans hcte)
      rw [if_pos hlinkid, hresults, Option.getD_some] at hafter
      rw [if_pos hcte]
      exact hafter
    · rename_i hcte
      have hafter := himp place link _ (hb u hu link hlink)
      have hlinkid : link ≠ id := by
        rintro rfl
        exact hcte hlink
      rw [if_neg hlinkid] at hafter
      rw [if_neg hcte]
      exact hafter

theorem renameCte (h : c.Linked R) (id : EntityId) (name : String) :
    (c.renameCte id name).Linked R := by
  unfold Canvas.renameCte
  split
  · exact h
  · dsimp only
    refine Linked.updateLinked ?_ id fun _ => ⟨rfl, rfl⟩
    refine ⟨h.root, fun q hq => ?_⟩
    rcases mem_updateFirst hq with hq | ⟨r, hr, -, rfl⟩
    · exact h.ctes q hq
    · exact h.ctes r hr

theorem removeCte (h : c.Linked R) (id : EntityId) : (c.removeCte id).Linked R := by
  unfold Canvas.removeCte
  split
  · exact h
  · have hbefore : Linked R { c with ctes := c.ctes.filter fun q : Cte => q.id ≠ id } :=
      ⟨h.root, fun q hq => h.ctes q (List.mem_filter.1 hq).1⟩
    exact hbefore.mapBlocks (fun _ _ hb => hb.removeLinked id)
      fun b => Block.subqueries_removeLinked_subset b id

theorem addCte (h : c.Linked R) (new : EntityId) (name : String) (frame : Frame) :
    (c.addCte new name frame).Linked R := by
  refine ⟨h.root, fun q hq => ?_⟩
  rcases List.mem_append.1 hq with hq | hq
  · exact h.ctes q hq
  · rw [List.mem_singleton.1 hq]
    exact Block.everywhere_linked_empty

theorem removeNestedInCtes {id : EntityId} {ctes ctes' : List Cte}
    (h : ∀ q ∈ ctes, q.block.Everywhere (Block.Linked (R (some q.id))))
    (hremoved : removeNestedInCtes? id ctes = some ctes') :
    ∀ q ∈ ctes', q.block.Everywhere (Block.Linked (R (some q.id))) := by
  induction ctes generalizing ctes' with
  | nil => cases hremoved
  | cons q rest ih =>
    obtain ⟨hq, hrest⟩ := List.forall_mem_cons.1 h
    rw [removeNestedInCtes?] at hremoved
    split at hremoved
    · rename_i b hb
      cases hremoved
      refine List.forall_mem_cons.2 ⟨?_, hrest⟩
      exact Block.Everywhere.removeNested? Block.shallow_linked
        (fun b hb => hb.same (Block.sameDrawing_removeSubquery b id).1) _ b hq hb
    · obtain ⟨rest', hrest', rfl⟩ := Option.map_eq_some_iff.1 hremoved
      exact List.forall_mem_cons.2 ⟨hq, ih hrest hrest'⟩

theorem removeSubquery (h : c.Linked R) (id : EntityId) :
    ((c.removeSubquery? id).getD c).Linked R := by
  unfold Canvas.removeSubquery?
  split
  · rename_i root hroot
    exact ⟨Block.Everywhere.removeNested? Block.shallow_linked
      (fun b hb => hb.same (Block.sameDrawing_removeSubquery b id).1) _ root h.root hroot, h.ctes⟩
  · cases hctes : removeNestedInCtes? id c.ctes with
    | none => exact h
    | some ctes => exact ⟨h.root, removeNestedInCtes h.ctes hctes⟩

end Linked

end Canvas

end QueryCanvas
