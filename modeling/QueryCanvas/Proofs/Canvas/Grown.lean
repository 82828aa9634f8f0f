import Mathlib.Data.List.Perm.Subperm
import QueryCanvas.Proofs.Canvas.Edits

/-!
# What an edit makes of the identifiers of a block

An edit of a block removes entities, changes them without touching their identifiers, and adds at
most one, behind the others, under the identifier that it is given.  So each collection of the block
has afterwards some of the identifiers it had before, in their order, and perhaps the new one; and
each nested query is an old one with the block it had, or is new and empty.
-/

set_option autoImplicit false

namespace QueryCanvas

/-- The identifier of a nested query with its block. -/
def SubqueryOf.node {β : Type} (s : SubqueryOf β) : EntityId × β := (s.id, s.block)

namespace Block

/-- The identifiers of each collection are some of those before, in their order, and some of `news`
behind them.  The nested queries are some of those before with their blocks, and empty ones. -/
structure Grows (news : List EntityId) (b b' : Block) : Prop where
  tables : (b'.tables.map (·.id)).Sublist (b.tables.map (·.id) ++ news)
  joins : (b'.joins.map (·.id)).Sublist (b.joins.map (·.id) ++ news)
  filters : (b'.filters.map (·.id)).Sublist (b.filters.map (·.id) ++ news)
  groupBy : (b'.groupBy.map (·.id)).Sublist (b.groupBy.map (·.id) ++ news)
  having : (b'.having.map (·.id)).Sublist (b.having.map (·.id) ++ news)
  orderBy : (b'.orderBy.map (·.id)).Sublist (b.orderBy.map (·.id) ++ news)
  aggregates : (b'.aggregates.map (·.id)).Sublist (b.aggregates.map (·.id) ++ news)
  nested : (b'.subqueries.map (·.node)).Sublist
    (b.subqueries.map (·.node) ++ news.map (·, Block.empty))

namespace Grows

variable {news : List EntityId} {b b' b'' : Block}

theorem refl (news : List EntityId) (b : Block) : Grows news b b := by
  constructor <;> exact List.sublist_append_left _ _

/-- A change that adds nothing comes before one that does. -/
theorem before (h : Grows [] b b') (h' : Grows news b' b'') : Grows news b b'' := by
  have hstep : ∀ {α : Type} {l l' l'' back : List α}, l'.Sublist (l ++ []) →
      l''.Sublist (l' ++ back) → l''.Sublist (l ++ back) := by
    intro α l l' l'' back hl hl'
    rw [List.append_nil] at hl
    exact hl'.trans (hl.append_right back)
  exact ⟨hstep h.tables h'.tables, hstep h.joins h'.joins, hstep h.filters h'.filters,
    hstep h.groupBy h'.groupBy, hstep h.having h'.having, hstep h.orderBy h'.orderBy,
    hstep h.aggregates h'.aggregates, hstep h.nested h'.nested⟩

/-- A change that adds nothing comes behind one that does. -/
theorem behind (h : Grows news b b') (h' : Grows [] b' b'') : Grows news b b'' := by
  have hstep : ∀ {α : Type} {l l' l'' back : List α}, l'.Sublist (l ++ back) →
      l''.Sublist (l' ++ []) → l''.Sublist (l ++ back) := by
    intro α l l' l'' back hl hl'
    rw [List.append_nil] at hl'
    exact hl'.trans hl
  exact ⟨hstep h.tables h'.tables, hstep h.joins h'.joins, hstep h.filters h'.filters,
    hstep h.groupBy h'.groupBy, hstep h.having h'.having, hstep h.orderBy h'.orderBy,
    hstep h.aggregates h'.aggregates, hstep h.nested h'.nested⟩

/-- A change that adds nothing adds no more than one that may add something. -/
theorem more (h : Grows [] b b') (news : List EntityId) : Grows news b b' :=
  h.before (refl news b')

end Grows

/-! ## Collections -/

section Collections

variable {α β : Type} {key : α → β} {news : List β} {l : List α}

/-- Members that are left keep their order. -/
theorem keys_of_sublist {l' : List α} (h : l'.Sublist l) :
    (l'.map key).Sublist (l.map key ++ news) :=
  (h.map key).trans (List.sublist_append_left _ _)

/-- Members that are changed keep their identifiers. -/
theorem keys_map {f : α → α} (h : ∀ a, key (f a) = key a) :
    ((l.map f).map key).Sublist (l.map key ++ news) := by
  have hkeys : (l.map f).map key = l.map key := by
    rw [List.map_map]
    exact List.map_congr_left fun a _ => h a
  rw [hkeys]
  exact List.sublist_append_left _ _

theorem keys_updateFirst {p : α → Bool} {f : α → α} (h : ∀ a, key (f a) = key a) :
    ((updateFirst p f l).map key).Sublist (l.map key ++ news) := by
  rw [map_updateFirst h]
  exact List.sublist_append_left _ _

theorem keys_push (a : α) : ((l ++ [a]).map key).Sublist (l.map key ++ [key a]) := by
  rw [List.map_append, List.map_singleton]

end Collections

/-! ## Edits of a block -/

variable {news : List EntityId}

theorem grows_updateTable (b : Block) (id : EntityId) {f : Table → Table}
    (h : ∀ t : Table, t.SameBox (f t)) : Grows news b (b.updateTable id f) :=
  { Grows.refl news b with tables := keys_updateFirst fun t => (h t).1 }

theorem grows_dropLinked (b : Block) (operand : Operand) : Grows [] b (b.dropLinked operand) := by
  unfold dropLinked
  split
  · exact { Grows.refl [] b with nested := keys_of_sublist List.filter_sublist }
  · exact Grows.refl [] b

theorem grows_removeFilter (b : Block) (id : EntityId) : Grows [] b (b.removeFilter id) := by
  unfold removeFilter
  split
  · exact Grows.refl [] b
  · refine Grows.before ?_ (grows_dropLinked _ _)
    exact { Grows.refl [] b with filters := keys_of_sublist List.eraseP_sublist }

theorem grows_removeReferences (b : Block) (name : String) :
    Grows [] b (b.removeReferences name) := by
  have hfold : ∀ (ids : List EntityId) (b : Block), Grows [] b (ids.foldl removeFilter b) := by
    intro ids
    induction ids with
    | nil => exact fun b => Grows.refl [] b
    | cons id rest ih => exact fun b => (grows_removeFilter b id).before (ih _)
  have hremoved := hfold ((b.filters.filter (refersTo ·.column name)).map (·.id)) b
  refine hremoved.before ?_
  exact { Grows.refl [] _ with
    groupBy := keys_of_sublist List.filter_sublist
    having := keys_of_sublist List.filter_sublist
    orderBy := keys_of_sublist List.filter_sublist }

theorem grows_removeTable (b : Block) (id : EntityId) : Grows [] b (b.removeTable id) := by
  unfold Block.removeTable
  split
  · exact Grows.refl [] b
  · have hcut : Grows [] b { b with
        tables := b.tables.eraseP (·.id = id)
        joins := b.joins.filter fun j => j.sourceTable ≠ id && j.targetTable ≠ id } :=
      { Grows.refl [] b with
        tables := keys_of_sublist List.eraseP_sublist
        joins := keys_of_sublist List.filter_sublist }
    dsimp only
    split
    · exact hcut.before (grows_removeReferences _ _)
    · exact hcut

theorem grows_removeLinked (b : Block) (id : EntityId) : Grows [] b (b.removeLinked id) := by
  have hfold : ∀ (ids : List EntityId) (b : Block),
      Grows [] b (ids.foldl Block.removeTable b) := by
    intro ids
    induction ids with
    | nil => exact fun b => Grows.refl [] b
    | cons id rest ih => exact fun b => (grows_removeTable b id).before (ih _)
  exact hfold _ b

theorem grows_updateLinked (b : Block) (id : EntityId) {change : Table → Table}
    (h : ∀ t : Table, t.SameBox (change t)) : Grows [] b (b.updateLinked id change) := by
  refine { Grows.refl [] b with tables := keys_map fun t => ?_ }
  split
  · exact (h t).1
  · rfl

theorem grows_addTable (b : Block) {t : Table} {new : EntityId} (hid : t.id = new) :
    Grows [new] b (b.addTable t) :=
  { Grows.refl [new] b with tables := hid ▸ keys_push t }

theorem grows_addJoin (b : Block) {j : Join} {new : EntityId} (hid : j.id = new) :
    Grows [new] b (b.addJoin j) := by
  unfold addJoin
  split
  · exact { Grows.refl [new] b with joins := hid ▸ keys_push j }
  · exact Grows.refl [new] b

theorem grows_updateFilter (b : Block) (id : EntityId) (u : FilterUpdate) :
    Grows [] b (b.updateFilter id u) := by
  unfold updateFilter
  split
  · exact Grows.refl [] b
  · have hchanged : ∀ {change : Filter → Filter}, (∀ f, (change f).id = f.id) →
        Grows [] b { b with filters := updateFirst (·.id = id) change b.filters } :=
      fun h => { Grows.refl [] b with filters := keys_updateFirst h }
    dsimp only
    split
    · exact (hchanged fun _ => by rfl).before (grows_dropLinked _ _)
    · exact hchanged fun _ => by rfl

theorem grows_linkFilter (b : Block) (filter subquery : EntityId) :
    Grows [] b (b.linkFilter filter subquery) := by
  unfold linkFilter
  split
  · exact Grows.refl [] b
  · split
    · exact Grows.refl [] b
    · refine { Grows.refl [] b with
        filters := keys_updateFirst fun _ => by rfl
        nested := keys_map fun s => ?_ }
      repeat' split
      all_goals rfl

theorem grows_addSubquery (b : Block) (id : EntityId) (role : SubqueryRole)
    (filter : Option EntityId) (frame : Frame) :
    Grows [id] b (b.addSubquery id role filter frame) := by
  unfold addSubquery
  split
  · exact Grows.refl [id] b
  · have hadd : ∀ nested : Subquery, nested.node = (id, Block.empty) →
        Grows [id] b { b with subqueries := b.subqueries ++ [nested] } := by
      intro nested hnode
      refine { Grows.refl [id] b with nested := ?_ }
      show List.Sublist _ (_ ++ [(id, Block.empty)])
      rw [← hnode]
      exact keys_push nested
    dsimp only
    split
    · exact (hadd _ rfl).behind (grows_linkFilter _ _ _)
    · exact hadd _ rfl

theorem grows_removeSubquery (b : Block) (id : EntityId) :
    Grows [] b (b.removeSubquery id) := by
  unfold removeSubquery
  split
  · exact Grows.refl [] b
  · refine { Grows.refl [] b with
      filters := keys_map fun f => ?_
      nested := keys_of_sublist List.eraseP_sublist }
    split <;> rfl

/-- An edit adds nothing but one entity under the new identifier. -/
theorem grows_edit (new : EntityId) (b : Block) (edit : BlockEdit) :
    Grows [new] b (edit.apply new b) := by
  have hself : Grows [new] b b := Grows.refl [new] b
  cases edit with
  | addTable name columns position => exact grows_addTable b rfl
  | removeTable id => exact (grows_removeTable b id).more _
  | moveTable id position => exact grows_updateTable b id fun _ => ⟨rfl, rfl⟩
  | toggleColumn table column => exact grows_updateTable b table (Table.sameBox_toggle · column)
  | selectColumn table column => exact grows_updateTable b table (Table.sameBox_select · column)
  | deselectColumn table column => exact grows_updateTable b table fun _ => ⟨rfl, rfl⟩
  | setColumnAggregate table column aggregate =>
    exact grows_updateTable b table (Table.sameBox_setAggregate · column aggregate)
  | addJoin => exact grows_addJoin b rfl
  | setJoinKind id kind => exact { hself with joins := keys_updateFirst fun _ => rfl }
  | setJoinColumns id source target => exact { hself with joins := keys_updateFirst fun _ => rfl }
  | removeJoin id => exact { hself with joins := keys_of_sublist List.filter_sublist }
  | addFilter column operator value => exact { hself with filters := keys_push _ }
  | updateFilter id update => exact (grows_updateFilter b id update).more _
  | removeFilter id => exact (grows_removeFilter b id).more _
  | addGrouping column => exact { hself with groupBy := keys_push _ }
  | removeGrouping id => exact { hself with groupBy := keys_of_sublist List.filter_sublist }
  | addHaving function column operator value => exact { hself with having := keys_push _ }
  | updateHaving id update => exact { hself with having := keys_updateFirst fun _ => rfl }
  | removeHaving id => exact { hself with having := keys_of_sublist List.filter_sublist }
  | addSortTerm column direction => exact { hself with orderBy := keys_push _ }
  | setDirection id direction => exact { hself with orderBy := keys_updateFirst fun _ => rfl }
  | removeSortTerm id => exact { hself with orderBy := keys_of_sublist List.filter_sublist }
  | setLimit limit => exact { hself with }
  | addAggregate function expression aliasName => exact { hself with aggregates := keys_push _ }
  | updateAggregate id update => exact { hself with aggregates := keys_updateFirst fun _ => rfl }
  | removeAggregate id => exact { hself with aggregates := keys_of_sublist List.filter_sublist }
  | addSubquery role filter frame => exact grows_addSubquery b new role filter frame
  | linkFilter filter subquery => exact (grows_linkFilter b filter subquery).more _
  | removeSubquery id => exact (grows_removeSubquery b id).more _
  | setSubqueryAlias id aliasName => exact { hself with nested := keys_updateFirst fun _ => rfl }

end Block

end QueryCanvas
