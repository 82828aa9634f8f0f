import Mathlib.Data.List.Induction
import Mathlib.Logic.Relation
import QueryCanvas.Proofs.Arrangement.Once
import QueryCanvas.Proofs.Arrangement.Rounds
import QueryCanvas.Proofs.Canvas.Serial

/-!
# The items of a `FROM` clause are what joins hold together

Every table of a block has one place in its `FROM` clause, and the first table comes first.  Two
tables stand in the same item exactly if a chain of joins leads from one to the other.  Joins that
lead nowhere and joins of a table with itself are no links of such a chain.
-/

set_option autoImplicit false

namespace QueryCanvas

/-- The join leads from one table of the block to another one. -/
def Join.Connects (b : Block) (s t : Table) (j : Join) : Prop :=
  b.table? j.sourceTable = some s ∧ b.table? j.targetTable = some t ∧ s.id ≠ t.id

/-- A join leads from one of the tables to the other. -/
def Block.Adjoining (b : Block) (s t : Table) : Prop :=
  ∃ j ∈ b.joins, j.Connects b s t ∨ j.Connects b t s

instance (b : Block) : Std.Symm b.Adjoining :=
  ⟨fun _ _ ⟨j, hj, hconnects⟩ => ⟨j, hj, hconnects.symm⟩⟩

theorem Join.Connects.ends {b : Block} {s t : Table} {j : Join} (h : j.Connects b s t) :
    s ∈ b.tables ∧ t ∈ b.tables ∧ j.Ties s.id t.id := by
  obtain ⟨hsource, htarget, -⟩ := h
  have hs := List.find?_some (p := fun t : Table => t.id = j.sourceTable) hsource
  have ht := List.find?_some (p := fun t : Table => t.id = j.targetTable) htarget
  exact ⟨List.mem_of_find?_eq_some hsource, List.mem_of_find?_eq_some htarget,
    .inl ⟨(of_decide_eq_true hs).symm, (of_decide_eq_true ht).symm⟩⟩

namespace Sql

variable {b : Block} {items : List FromItem} {item : FromItem} {s t : Table} {j : Join}

theorem connects_iff : j.Connects b s t ↔ link? b j = some ⟨j, s, t⟩ ∧ s.id ≠ t.id := by
  unfold Join.Connects link?
  cases b.table? j.sourceTable <;> cases b.table? j.targetTable <;> simp [and_assoc]

/-- A join between two tables of the block connects them, whichever of them is its source. -/
theorem adjoining_of_ties (hids : (b.tables.map (·.id)).Nodup) (hj : j ∈ b.joins)
    (hs : s ∈ b.tables) (ht : t ∈ b.tables) (hne : s.id ≠ t.id) (hties : j.Ties s.id t.id) :
    b.Adjoining s t := by
  have hfound {u : Table} (hu : u ∈ b.tables) : b.table? u.id = some u := find?_of_nodup hids hu
  refine ⟨j, hj, hties.imp ?_ ?_⟩
  · rintro ⟨hsource, htarget⟩
    exact ⟨hsource ▸ hfound hs, htarget ▸ hfound ht, hne⟩
  · rintro ⟨hsource, htarget⟩
    exact ⟨hsource ▸ hfound ht, htarget ▸ hfound hs, hne.symm⟩

/-! ## Every table has one place -/

theorem placed_eq_map (items : List FromItem) :
    placed items = (items.flatMap FromItem.tables).map (·.id) := (List.map_flatMap ..).symm

theorem placed_addAlone (items : List FromItem) (t : Table) :
    placed items ⊆ placed (addAlone items t) ∧ t.id ∈ placed (addAlone items t) := by
  unfold addAlone
  split
  · rename_i hthere
    exact ⟨List.Subset.refl _, place?_isSome.1 hthere⟩
  · rw [placed_append, placed_singleton]
    exact ⟨List.subset_append_left _ _, by simp [FromItem.placed_eq]⟩

theorem placed_foldl_addAlone (tables : List Table) (items : List FromItem) :
    placed items ⊆ placed (tables.foldl addAlone items) ∧
      ∀ t ∈ tables, t.id ∈ placed (tables.foldl addAlone items) := by
  induction tables generalizing items with
  | nil => exact ⟨List.Subset.refl _, by simp⟩
  | cons t rest ih =>
    obtain ⟨hbefore, ht⟩ := placed_addAlone items t
    obtain ⟨hrest, hothers⟩ := ih (addAlone items t)
    exact ⟨List.Subset.trans hbefore hrest, List.forall_mem_cons.2 ⟨hrest ht, hothers⟩⟩

theorem placed_foldl_addUnresolved (joins : List Join) (items : List FromItem) :
    placed (joins.foldl addUnresolved items) = placed items := by
  induction joins generalizing items with
  | nil => rfl
  | cons j rest ih => exact (ih _).trans (addStep_nowhere j items _).1

theorem mem_placed_fromItems (ht : t ∈ b.tables) : t.id ∈ placed (fromItems b) := by
  have hplaced : placed (fromItems b) = placed (b.tables.foldl addAlone (joinedItems b)) :=
    placed_foldl_addUnresolved _ _
  rw [hplaced]
  exact (placed_foldl_addAlone b.tables (joinedItems b)).2 t ht

/-- A table of the block that is placed in an item is one of its tables. -/
theorem mem_tables_of_placed (hids : (b.tables.map (·.id)).Nodup) (hitem : item.Sound b)
    (ht : t ∈ b.tables) (hplaced : t.id ∈ item.placed) : t ∈ item.tables := by
  obtain ⟨u, hu, hid⟩ := List.mem_map.1 hplaced
  exact List.inj_on_of_nodup_map hids (hitem.tables u hu) ht hid ▸ hu

/-- The items hold all tables of the block, each once. -/
theorem tables_fromItems_perm (hids : (b.tables.map (·.id)).Nodup) :
    ((fromItems b).flatMap FromItem.tables).Perm b.tables := by
  obtain ⟨harranged, -, -⟩ := fromItems_arranged b
  have hnodup := harranged.nodup
  rw [placed_eq_map] at hnodup
  refine (List.perm_ext_iff_of_nodup hnodup.of_map hids.of_map).2 fun t => ?_
  constructor
  · intro ht
    obtain ⟨item, hitem, ht⟩ := List.mem_flatMap.1 ht
    exact (harranged.sound item hitem).tables t ht
  · intro ht
    obtain ⟨item, hitem, hplaced⟩ := List.mem_flatMap.1 (mem_placed_fromItems ht)
    exact List.mem_flatMap.2
      ⟨item, hitem, mem_tables_of_placed hids (harranged.sound item hitem) ht hplaced⟩

/-! ## The first table comes first -/

theorem map_base_modify {f : FromItem → FromItem} (hf : ∀ item, (f item).base = item.base)
    (items : List FromItem) (n : Nat) :
    (items.modify n f).map (·.base) = items.map (·.base) := by
  induction items generalizing n with
  | nil => simp
  | cons item rest ih =>
    cases n with
    | zero => rw [List.modify_zero_cons, List.map_cons, List.map_cons, hf]
    | succ n => rw [List.modify_succ_cons, List.map_cons, List.map_cons, ih]

theorem map_base_addStep (items : List FromItem) (n : Nat) (step : JoinStep) :
    (addStep items n step).map (·.base) = items.map (·.base) :=
  map_base_modify (f := fun item => item.addStep step) (fun _ => rfl) items n

theorem map_base_attach? {l : Link} {next : List FromItem} {grown : Bool}
    (h : attach? items l = some (next, grown)) : next.map (·.base) = items.map (·.base) := by
  unfold attach? at h
  split at h
  · cases h
    exact map_base_addStep _ _ _
  · cases h
    exact map_base_addStep _ _ _
  · cases h
    unfold addCondition
    split
    · rfl
    · rename_i k _
      exact map_base_modify (f := fun item => item.tie k l.join) (fun _ => rfl) items _
  · cases h

theorem prefix_addAlone (items : List FromItem) (t : Table) : items <+: addAlone items t := by
  unfold addAlone
  split
  · exact List.prefix_refl items
  · exact List.prefix_append items _

/-- Items keep the table that they begin with, and further items come behind. -/
theorem bases_prefix (b : Block) :
    (Stage.start b).items.map (·.base) <+: (fromItems b).map (·.base) := by
  have hsettled : (Stage.start b).items.map (·.base) <+: (joinedItems b).map (·.base) := by
    unfold joinedItems
    refine Stage.settle_induction
      (P := fun items => (Stage.start b).items.map (·.base) <+: items.map (·.base)) ?_ ?_
      (List.prefix_refl _)
    · intro items l next grown h hnext
      rw [map_base_attach? hnext]
      exact h
    · intro items l h
      unfold seed
      rw [List.map_append]
      exact h.trans (List.prefix_append _ _)
  have halone : joinedItems b <+: b.tables.foldl addAlone (joinedItems b) :=
    List.foldlRecOn (motive := (joinedItems b <+: ·)) _ _ (List.prefix_refl _)
      fun items h t _ => h.trans (prefix_addAlone items t)
  have hunresolved : ∀ (joins : List Join) items,
      (joins.foldl addUnresolved items).map (·.base) = items.map (·.base) := by
    intro joins
    induction joins with
    | nil => exact fun items => rfl
    | cons j rest ih => exact fun items => (ih _).trans (map_base_addStep _ _ _)
  have hlast := hunresolved (b.joins.filter fun j => (link? b j).isNone)
    (b.tables.foldl addAlone (joinedItems b))
  show _ <+: List.map _ (List.foldl _ (b.tables.foldl addAlone (joinedItems b)) _)
  rw [hlast]
  exact hsettled.trans (halone.map _)

theorem fromItems_of_no_tables (h : b.tables = []) : fromItems b = [] := by
  refine List.eq_nil_iff_forall_not_mem.2 fun item hitem => ?_
  have hbase := ((fromItems_arranged b).1.sound item hitem).tables item.base
    (by simp [FromItem.tables])
  rw [h] at hbase
  cases hbase

/-- The first item begins with the first table. -/
theorem head?_fromItems (b : Block) : (fromItems b).head?.map (·.base) = b.tables.head? := by
  cases htables : b.tables with
  | nil => rw [fromItems_of_no_tables htables]; rfl
  | cons t rest =>
    obtain ⟨others, hbases⟩ := bases_prefix b
    simp only [Stage.start, htables, List.take_succ_cons, List.take_zero, List.map_cons,
      List.map_nil] at hbases
    rw [← List.head?_map, ← hbases]
    rfl

/-! ## Chains of joins -/

/-- What holds of each member of a list, if it holds of those before it, holds of all members. -/
theorem induction_before {α : Type} {l : List α} (hnodup : l.Nodup) {P : α → Prop}
    (step : ∀ x ∈ l, (∀ a, List.Sublist [a, x] l → P a) → P x) : ∀ x ∈ l, P x := by
  induction l using List.reverseRecOn with
  | nil => simp
  | append_singleton l y ih =>
    have hy : y ∉ l := fun hy => (List.nodup_append.1 hnodup).2.2 y hy y (by simp) rfl
    have hfront : ∀ x ∈ l, P x := by
      refine ih (List.nodup_append.1 hnodup).1 fun x hx hbefore => ?_
      refine step x (List.mem_append_left _ hx) fun a ha => hbefore a ?_
      obtain ⟨l₁, l₂, hpair, hsub, hlast⟩ := List.sublist_append_iff.1 ha
      rcases List.sublist_singleton.1 hlast with rfl | rfl
      · rw [List.append_nil] at hpair
        exact hpair ▸ hsub
      · have hxy : x = y := by simpa using congrArg List.getLast? hpair
        exact absurd (hxy ▸ hx) hy
    intro x hx
    rcases List.mem_append.1 hx with hx | hx
    · exact hfront x hx
    · rw [List.mem_singleton.1 hx] at *
      refine step y (by simp) fun a ha => hfront a ?_
      have hay : a ≠ y := by simpa using hnodup.sublist ha
      rcases List.mem_append.1 (ha.subset List.mem_cons_self) with ha | ha
      · exact ha
      · exact absurd (List.mem_singleton.1 ha) hay

/-- A chain of joins leads to each table of an item from the table that the item begins with. -/
theorem connected_of_mem_item (hids : (b.tables.map (·.id)).Nodup) (hitem : item ∈ fromItems b)
    (ht : t ∈ item.tables) : Relation.ReflTransGen b.Adjoining item.base t := by
  obtain ⟨harranged, -, hjoins⟩ := fromItems_arranged b
  have hsound := harranged.sound item hitem
  have hnodup : item.placed.Nodup := (List.nodup_flatMap.1 harranged.nodup).1 item hitem
  have hall : ∀ id ∈ item.placed, ∀ u ∈ b.tables, u.id = id →
      Relation.ReflTransGen b.Adjoining item.base u := by
    refine induction_before hnodup fun id hid hbefore u hu hsame => ?_
    rw [FromItem.placed_eq, List.mem_cons, mem_joined] at hid
    rcases hid with hbase | ⟨step, hstep, hbrings⟩
    · have hfirst := hsound.tables item.base (by simp [FromItem.tables])
      rw [List.inj_on_of_nodup_map hids hu hfirst (hsame.trans hbase)]
    · obtain ⟨x, hx, rfl⟩ := JoinStep.brings_iff.1 hbrings
      have hties := hsound.steps step hstep
      simp only [JoinStep.Sound, hx] at hties
      obtain ⟨⟨j, hj, -⟩, htied⟩ := hties
      obtain ⟨a, ha, hties⟩ := htied j hj
      obtain ⟨v, hv, rfl⟩ := List.mem_map.1 (ha.subset List.mem_cons_self)
      have hv := hsound.tables v hv
      have hne : v.id ≠ x.id := by simpa using hnodup.sublist ha
      have hwritten : j ∈ b.joins := hjoins j
        (List.mem_flatMap.2 ⟨item, hitem, List.mem_flatMap.2 ⟨step, hstep, hj⟩⟩)
      rw [← hsame] at hne hties
      exact (hbefore v.id ha v hv rfl).tail (adjoining_of_ties hids hwritten hv hu hne hties)
  exact hall t.id (List.mem_map_of_mem ht) t (hsound.tables t ht) rfl

/-- Tables that a join connects stand in one item. -/
theorem exists_item_of_adjoining (hids : (b.tables.map (·.id)).Nodup) (h : b.Adjoining s t) :
    ∃ item ∈ fromItems b, s ∈ item.tables ∧ t ∈ item.tables := by
  obtain ⟨harranged, hlinks, -⟩ := fromItems_arranged b
  have hitem {s t : Table} {j : Join} (hj : j ∈ b.joins) (hconnects : j.Connects b s t) :
      ∃ item ∈ fromItems b, s ∈ item.tables ∧ t ∈ item.tables := by
    obtain ⟨hlink, hdistinct⟩ := connects_iff.1 hconnects
    obtain ⟨hs, ht, hends⟩ := hconnects.ends
    have hmem : ⟨j, s, t⟩ ∈ links b := mem_links.2 ⟨hj, hlink, hdistinct⟩
    obtain ⟨item, hitem, hwritten⟩ := List.mem_flatMap.1 (hlinks _ hmem)
    obtain ⟨step, hstep, hcarries⟩ := List.mem_flatMap.1 hwritten
    have hsound := harranged.sound item hitem
    have hties := hsound.steps step hstep
    have hthere {u : Table} (hu : u ∈ b.tables) (hplaced : u.id ∈ item.placed) : u ∈ item.tables :=
      mem_tables_of_placed hids hsound hu hplaced
    unfold JoinStep.Sound at hties
    split at hties
    · rename_i x hx
      obtain ⟨a, ha, htied⟩ := hties.2 j hcarries
      have hfirst : a ∈ item.placed := ha.subset List.mem_cons_self
      have hsecond : x.id ∈ item.placed := ha.subset (by simp)
      refine ⟨item, hitem, hthere hs ?_, hthere ht ?_⟩
      all_goals
        rcases htied.eq_or_eq hends with ⟨rfl, hx⟩ | ⟨rfl, hx⟩
      · exact hfirst
      · exact hx ▸ hsecond
      · exact hx ▸ hsecond
      · exact hfirst
    · have hnone := hties j hcarries
      rw [hlink] at hnone
      cases hnone
  obtain ⟨j, hj, hconnects | hconnects⟩ := h
  · exact hitem hj hconnects
  · obtain ⟨item, hmem, ht, hs⟩ := hitem hj hconnects
    exact ⟨item, hmem, hs, ht⟩

/-- An item that holds a table holds all tables that a chain of joins leads to. -/
theorem mem_item_of_connected (hids : (b.tables.map (·.id)).Nodup) (hitem : item ∈ fromItems b)
    (hs : s ∈ item.tables) (h : Relation.ReflTransGen b.Adjoining s t) : t ∈ item.tables := by
  induction h with
  | refl => exact hs
  | @tail t u _ hadjoining ih =>
    obtain ⟨other, hother, ht, hu⟩ := exists_item_of_adjoining hids hadjoining
    have hsame : item = other := eq_of_mem_flatMap (fromItems_arranged b).1.nodup hitem hother
      (List.mem_map_of_mem ih) (List.mem_map_of_mem ht)
    rw [hsame]
    exact hu

/-- **The items of a `FROM` clause are the connected components of the joins.**  No join waits after
as many rounds as there are joins.  All tables of the block have one place each, the first one that
at the beginning, and two of them stand in one item exactly if a chain of joins between different
tables connects them. -/
theorem items_are_components (b : Block) (hids : (b.tables.map (·.id)).Nodup) :
    (∀ n, b.joins.length ≤ n →
        (Stage.round b.tables)^[n] (Stage.start b) = ⟨joinedItems b, []⟩) ∧
      ((fromItems b).flatMap FromItem.tables).Perm b.tables ∧
      (fromItems b).head?.map (·.base) = b.tables.head? ∧
      ∀ s ∈ b.tables, ∀ t ∈ b.tables,
        (∃ item ∈ fromItems b, s ∈ item.tables ∧ t ∈ item.tables) ↔
          Relation.ReflTransGen b.Adjoining s t := by
  refine ⟨fun n hn => ?_, tables_fromItems_perm hids, head?_fromItems b, fun s hs t ht => ?_⟩
  · have hlinks : (Stage.start b).pending.length ≤ b.joins.length :=
      Nat.le_trans (List.length_filter_le _ _) (List.length_filterMap_le _ _)
    exact Stage.iterate_round (Nat.le_trans hlinks hn)
  constructor
  · rintro ⟨item, hitem, hs, ht⟩
    have hback : Relation.ReflTransGen b.Adjoining s item.base :=
      Relation.ReflTransGen.stdSymm.symm _ _ (connected_of_mem_item hids hitem hs)
    exact hback.trans (connected_of_mem_item hids hitem ht)
  · intro hconnected
    have hplaced := (tables_fromItems_perm hids).mem_iff.2 hs
    obtain ⟨item, hitem, hs⟩ := List.mem_flatMap.1 hplaced
    exact ⟨item, hitem, hs, mem_item_of_connected hids hitem hs hconnected⟩

/-! ## Tables that joins leave apart -/

/-- A table without columns, known by the identifier of a serial number. -/
def bareTable (n : Nat) (name : String) : Table := .create (EntityId.minted n) name [] default

/-- An inner join of two tables by their serial numbers. -/
def bareJoin (n source target : Nat) : Join :=
  { id := EntityId.minted n, sourceTable := EntityId.minted source, sourceColumn := "x"
    targetTable := EntityId.minted target, targetColumn := "x", kind := .inner }

/-- Five tables.  The first join has to wait and begins an item, the third one leads nowhere, and
the last one leads from a table to itself. -/
def scattered : Block :=
  { Block.empty with
    tables := [bareTable 0 "a", bareTable 1 "b", bareTable 2 "c", bareTable 3 "d", bareTable 4 "e"]
    joins := [bareJoin 5 2 3, bareJoin 6 1 0, bareJoin 7 0 9, bareJoin 8 4 4] }

theorem items_are_components_scattered :
    (scattered.tables.map (·.id)).Nodup ∧
      ((fromItems scattered).map fun item => item.tables.map (·.name)) =
        [["a", "b"], ["c", "d"], ["e"]] ∧
      Relation.ReflTransGen scattered.Adjoining (bareTable 2 "c") (bareTable 3 "d") ∧
      ¬Relation.ReflTransGen scattered.Adjoining (bareTable 0 "a") (bareTable 2 "c") := by
  have hids : (scattered.tables.map (·.id)).Nodup := by decide +kernel
  obtain ⟨-, -, -, hcomponents⟩ := items_are_components scattered hids
  have ha : bareTable 0 "a" ∈ scattered.tables := by simp [scattered]
  have hc : bareTable 2 "c" ∈ scattered.tables := by simp [scattered]
  have hd : bareTable 3 "d" ∈ scattered.tables := by simp [scattered]
  refine ⟨hids, by decide +kernel, ?_, ?_⟩
  · exact (hcomponents _ hc _ hd).1 (by decide +kernel)
  · exact (hcomponents _ ha _ hc).not.1 (by decide +kernel)

end Sql

end QueryCanvas
