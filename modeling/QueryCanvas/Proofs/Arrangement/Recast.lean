import QueryCanvas.Proofs.Arrangement.Arranged
import QueryCanvas.Proofs.Canvas.Relabelled
import QueryCanvas.Sql.Render

/-!
# Arrangements of other tables

The arrangement of a `FROM` clause asks of tables and joins only which identifiers are the same.  If
every table gives way to another one, and different identifiers to different ones, then the
arrangement of the block that comes out is the arrangement that there was, with the other tables in
it.  Where tables keep their names, the clause is the same text.
-/

set_option autoImplicit false

namespace QueryCanvas

namespace Sql

/-- Other identifiers, different ones for different ones, and other tables that have them. -/
structure Recasting where
  id : EntityId → EntityId
  table : Table → Table
  injective : Function.Injective id
  table_id : ∀ t, (table t).id = id t.id

/-- Other tables under the same identifiers. -/
def Recasting.ofTables (g : Table → Table) (hg : ∀ t, (g t).id = t.id) : Recasting :=
  { id := fun i => i, table := g, injective := fun _ _ h => h, table_id := hg }

/-- The tables and joins of one block are those of another one, recast. -/
structure Recasting.Recasts (m : Recasting) (b b' : Block) : Prop where
  tables : b'.tables = b.tables.map m.table
  joins : b'.joins = b.joins.map (Join.relabel m.id)

section Recasting

variable (m : Recasting)

def JoinStep.recast (s : JoinStep) : JoinStep :=
  { s with joined := s.joined.map m.table, conditions := s.conditions.map (Join.relabel m.id) }

def FromItem.recast (item : FromItem) : FromItem :=
  { base := m.table item.base, steps := item.steps.map (JoinStep.recast m) }

def Link.recast (l : Link) : Link :=
  { join := l.join.relabel m.id, source := m.table l.source, target := m.table l.target }

end Recasting

variable {m : Recasting}

/-! ## Places -/

theorem FromItem.place?_recast (item : FromItem) (id : EntityId) :
    (item.recast m).place? (m.id id) = item.place? id := by
  have hstep : ∀ s : JoinStep, ((s.recast m).joined.any fun t => decide (t.id = m.id id)) =
      s.joined.any fun t => decide (t.id = id) := by
    intro s
    cases hs : s.joined <;> simp [JoinStep.recast, hs, m.table_id, m.injective.eq_iff]
  simp only [place?, recast, m.table_id, m.injective.eq_iff, List.findIdx?_map, Function.comp_def,
    hstep]

theorem place?_recast (items : List FromItem) (id : EntityId) :
    place? (items.map (FromItem.recast m)) (m.id id) = place? items id := by
  unfold place?
  generalize 0 = n
  induction items generalizing n with
  | nil => rfl
  | cons item rest ih =>
    simp only [List.map_cons, placeFrom?, FromItem.place?_recast, ih]

/-! ## Putting joins in place -/

/-- A change of one member, after all members were changed. -/
theorem modify_map {α β : Type} {g : α → β} {change : α → α} {change' : β → β}
    (h : ∀ a, change' (g a) = g (change a)) (l : List α) (n : Nat) :
    (l.map g).modify n change' = (l.modify n change).map g := by
  induction l generalizing n with
  | nil => cases n <;> rfl
  | cons a rest ih =>
    cases n with
    | zero => simp [h]
    | succ n => simp [ih]

theorem addStep_recast (items : List FromItem) (n : Nat) (step : JoinStep) :
    addStep (items.map (FromItem.recast m)) n (step.recast m) =
      (addStep items n step).map (FromItem.recast m) :=
  modify_map (fun item => by simp [FromItem.recast]) items n

theorem addCondition_recast (items : List FromItem) (p : Place) (join : Join) :
    addCondition (items.map (FromItem.recast m)) p (join.relabel m.id) =
      (addCondition items p join).map (FromItem.recast m) := by
  unfold addCondition
  split
  · rfl
  · refine modify_map (fun item => ?_) items p.item
    simp only [FromItem.recast, FromItem.mk.injEq, true_and]
    exact modify_map (fun s => by simp [JoinStep.recast]) item.steps _

theorem stepOf_recast (join : Join) (joined : Option Table) :
    stepOf (join.relabel m.id) (joined.map m.table) = (stepOf join joined).recast m := rfl

theorem attach?_recast (items : List FromItem) (l : Link) :
    attach? (items.map (FromItem.recast m)) (l.recast m) =
      (attach? items l).map fun p => (p.1.map (FromItem.recast m), p.2) := by
  simp only [attach?, Link.recast, m.table_id, place?_recast]
  cases place? items l.source.id with
  | none =>
    cases place? items l.target.id with
    | none => rfl
    | some q => simp only [Option.map_some, ← addStep_recast, ← stepOf_recast]
  | some p =>
    cases place? items l.target.id with
    | none => simp only [Option.map_some, ← addStep_recast, ← stepOf_recast]
    | some q => simp only [Option.map_some, ← addCondition_recast]

theorem pass_recast (items : List FromItem) (links : List Link) :
    pass (items.map (FromItem.recast m)) (links.map (Link.recast m)) =
      ((pass items links).1.map (FromItem.recast m), (pass items links).2.1.map (Link.recast m),
        (pass items links).2.2) := by
  induction links generalizing items with
  | nil => rfl
  | cons l rest ih =>
    simp only [List.map_cons, pass, attach?_recast]
    cases attach? items l with
    | none => simp only [Option.map_none, ih, List.map_cons]
    | some p => simp only [Option.map_some, ih]

theorem seed_recast (tables : List Table) (items : List FromItem) (l : Link) :
    seed (tables.map m.table) (items.map (FromItem.recast m)) (l.recast m) =
      (seed tables items l).map (FromItem.recast m) := by
  simp only [seed, Link.recast, List.findIdx_map, Function.comp_def, m.table_id,
    m.injective.eq_iff]
  split <;> simp [FromItem.recast, stepOf, JoinStep.recast, Join.relabel]

theorem settle_recast (tables : List Table) (items : List FromItem) (pending : List Link) :
    settle (tables.map m.table) (items.map (FromItem.recast m)) (pending.map (Link.recast m)) =
      (settle tables items pending).map (FromItem.recast m) := by
  induction items, pending using settle.induct tables with
  | case1 items pending next grown hpass =>
    have hpass' : pass (items.map (FromItem.recast m)) (pending.map (Link.recast m)) =
        (next.map (FromItem.recast m), [], grown) := by
      rw [pass_recast, hpass]
      rfl
    rw [settle_done hpass, settle_done hpass']
  | case2 items pending next waiting hne hpass ih =>
    rw [settle_grown hpass hne, ← ih]
    exact settle_grown (by rw [pass_recast, hpass]) (by simpa using hne)
  | case3 items pending next l rest hpass ih =>
    rw [settle_idle hpass, ← ih, ← seed_recast]
    exact settle_idle (by rw [pass_recast, hpass]; rfl)

/-! ## The arrangement of a block -/

theorem addAlone_recast (items : List FromItem) (t : Table) :
    addAlone (items.map (FromItem.recast m)) (m.table t) =
      (addAlone items t).map (FromItem.recast m) := by
  simp only [addAlone, m.table_id, place?_recast]
  split
  · rfl
  · simp [FromItem.recast]

theorem addUnresolved_recast (items : List FromItem) (join : Join) :
    addUnresolved (items.map (FromItem.recast m)) (join.relabel m.id) =
      (addUnresolved items join).map (FromItem.recast m) := by
  simp only [addUnresolved, Join.relabel_sourceTable, Join.relabel_targetTable, place?_recast]
  exact addStep_recast items _ (stepOf join none)

namespace Recasting.Recasts

variable {b b' : Block}

theorem table? (h : m.Recasts b b') (id : EntityId) :
    b'.table? (m.id id) = (b.table? id).map m.table := by
  rw [Block.table?, h.tables]
  exact find?_map_key m.injective Table.id Table.id m.table_id id b.tables

theorem link? (h : m.Recasts b b') (join : Join) :
    Sql.link? b' (join.relabel m.id) = (Sql.link? b join).map (Link.recast m) := by
  simp only [Sql.link?, Join.relabel_sourceTable, Join.relabel_targetTable, h.table?]
  cases b.table? join.sourceTable <;> cases b.table? join.targetTable <;> rfl

theorem links (h : m.Recasts b b') : Sql.links b' = (Sql.links b).map (Link.recast m) := by
  have hlinks : Sql.link? b' ∘ Join.relabel m.id = fun j => (Sql.link? b j).map (Link.recast m) :=
    funext h.link?
  simp only [Sql.links, h.joins, List.filterMap_map, hlinks, ← List.map_filterMap, List.filter_map]
  simp only [Function.comp_def, Link.recast, m.table_id, ne_eq, m.injective.eq_iff]

end Recasting.Recasts

theorem fromItems_eq (b : Block) :
    fromItems b =
      (b.joins.filter fun j => (link? b j).isNone).foldl addUnresolved
        (b.tables.foldl addAlone (joinedItems b)) := rfl

/-- The arrangement of a recast block is the recast arrangement. -/
theorem fromItems_recast {b b' : Block} (h : m.Recasts b b') :
    fromItems b' = (fromItems b).map (FromItem.recast m) := by
  have hfirst : (b'.tables.take 1).map (fun t => (⟨t, []⟩ : FromItem)) =
      ((b.tables.take 1).map fun t => ⟨t, []⟩).map (FromItem.recast m) := by
    rw [h.tables, ← List.map_take, List.map_map, List.map_map]
    rfl
  have hjoined : joinedItems b' = (joinedItems b).map (FromItem.recast m) := by
    unfold joinedItems
    rw [hfirst, h.links, h.tables, settle_recast]
  have hunresolved : (b'.joins.filter fun j => (link? b' j).isNone) =
      (b.joins.filter fun j => (link? b j).isNone).map (Join.relabel m.id) := by
    rw [h.joins, List.filter_map]
    simp only [Function.comp_def, h.link?, Option.isNone_map]
  rw [fromItems_eq, fromItems_eq, hunresolved, hjoined, h.tables, List.foldl_map,
    List.foldl_map, List.foldl_hom (List.map (FromItem.recast m)) fun items t =>
      addAlone_recast items t,
    List.foldl_hom (List.map (FromItem.recast m)) fun items j => addUnresolved_recast items j]

/-! ## The text of the clause -/

/-- An item is written as before where tables keep their names. -/
theorem fromItem_recast {b b' : Block} (h : m.Recasts b b')
    (hnames : ∀ t, (m.table t).name = t.name) (l : Layout) (item : FromItem) :
    fromItem l b' (item.recast m) = fromItem l b item := by
  have hname : ∀ id, b'.tableName (m.id id) = b.tableName id := by
    intro id
    simp only [Block.tableName, h.table?, Option.map_map, Function.comp_def, hnames]
  have hcondition : joinCondition b' ∘ Join.relabel m.id = joinCondition b := by
    funext j
    simp only [joinCondition, Function.comp_apply, Join.relabel_sourceTable,
      Join.relabel_targetTable, hname]
    rfl
  have hstep : ∀ s, joinStep b' (s.recast m) = joinStep b s := by
    intro s
    simp only [joinStep, JoinStep.recast, Option.map_map, Function.comp_def, hnames, List.map_map]
    rw [← hcondition]
    rfl
  simp only [fromItem, FromItem.recast, hnames, List.map_map, Function.comp_def, hstep]

/-- So is the whole clause, with the nested queries in it. -/
theorem fromClause_recast {b b' : Block} (h : m.Recasts b b')
    (hnames : ∀ t, (m.table t).name = t.name) (l : Layout)
    {nested nested' : List (SubqueryOf String)}
    (hnested : nestedItems nested' .fromClause = nestedItems nested .fromClause) :
    fromClause l b' nested' = fromClause l b nested := by
  simp only [fromClause, fromItems_recast h, List.map_map, Function.comp_def,
    fromItem_recast h hnames, hnested]

end Sql

end QueryCanvas
