import Mathlib.Logic.Function.Basic
import QueryCanvas.Proofs.Canvas.Tree

/-!
# A drawing under other identifiers

Of an identifier only its equality with others means anything.  A drawing can therefore be
relabelled: every identifier in it gives way to another one, different ones to different ones.  Here
is what relabelling does to blocks and canvases, and that what is looked up, added and replaced in
them comes out the same under the new identifiers.
-/

set_option autoImplicit false

namespace QueryCanvas

universe u v

/-! ## Relabelling -/

section Relabelling

variable (f : EntityId → EntityId)

def Table.relabel (t : Table) : Table := { t with id := f t.id, cte := t.cte.map f }

def Join.relabel (j : Join) : Join :=
  { j with id := f j.id, sourceTable := f j.sourceTable, targetTable := f j.targetTable }

def Operand.relabel : Operand → Operand
  | .value text => .value text
  | .subquery id => .subquery (f id)

def Filter.relabel (x : Filter) : Filter := { x with id := f x.id, operand := x.operand.relabel f }

def Grouping.relabel (g : Grouping) : Grouping := { g with id := f g.id }

def Having.relabel (h : Having) : Having := { h with id := f h.id }

def SortTerm.relabel (o : SortTerm) : SortTerm := { o with id := f o.id }

def SelectAggregate.relabel (a : SelectAggregate) : SelectAggregate := { a with id := f a.id }

mutual

/-- The block with other identifiers, in the blocks nested in it too. -/
def Block.relabel : Block → Block
  | ⟨t, j, x, g, h, o, l, a, subs⟩ =>
    ⟨t.map (Table.relabel f), j.map (Join.relabel f), x.map (Filter.relabel f),
      g.map (Grouping.relabel f), h.map (Having.relabel f), o.map (SortTerm.relabel f), l,
      a.map (SelectAggregate.relabel f), Block.relabelNested subs⟩

/-- Nested queries with other identifiers. -/
def Block.relabelNested : List (SubqueryOf Block) → List (SubqueryOf Block)
  | [] => []
  | ⟨i, r, a, k, fr, b⟩ :: rest =>
    ⟨f i, r, a, k.map f, fr, Block.relabel b⟩ :: Block.relabelNested rest

end

/-- A nested query with other identifiers, those in its block apart. -/
def SubqueryOf.relabelShell {β : Type} (s : SubqueryOf β) : SubqueryOf β :=
  { s with id := f s.id, linkedFilter := s.linkedFilter.map f }

/-- A nested query with other identifiers, those in its block too. -/
def Subquery.relabel (s : Subquery) : Subquery :=
  { s.relabelShell f with block := s.block.relabel f }

def Cte.relabel (q : Cte) : Cte := { q with id := f q.id, block := q.block.relabel f }

def Canvas.relabel (c : Canvas) : Canvas :=
  { ctes := c.ctes.map (Cte.relabel f), root := c.root.relabel f }

def Focus.relabel : Focus → Focus
  | .root => .root
  | .subquery id => .subquery (f id)
  | .cte id => .cte (f id)

end Relabelling

section Parts

variable (f : EntityId → EntityId)

theorem Block.relabelNested_eq (subs : List Subquery) :
    Block.relabelNested f subs = subs.map (Subquery.relabel f) := by
  induction subs with
  | nil => rfl
  | cons s rest ih => rw [Block.relabelNested, ih]; rfl

/-- A relabelled block by its parts. -/
theorem Block.relabel_eq (b : Block) :
    b.relabel f =
      { tables := b.tables.map (Table.relabel f), joins := b.joins.map (Join.relabel f)
        filters := b.filters.map (Filter.relabel f), groupBy := b.groupBy.map (Grouping.relabel f)
        having := b.having.map (Having.relabel f), orderBy := b.orderBy.map (SortTerm.relabel f)
        limit := b.limit, aggregates := b.aggregates.map (SelectAggregate.relabel f)
        subqueries := b.subqueries.map (Subquery.relabel f) } := by
  rw [← relabelNested_eq]
  cases b
  rfl

section Projections

variable (b : Block) (t : Table) (j : Join) (x : Filter) (s : Subquery) (q : Cte) (c : Canvas)

@[simp] theorem Block.relabel_tables : (b.relabel f).tables = b.tables.map (Table.relabel f) := by
  rw [relabel_eq]

@[simp] theorem Block.relabel_joins : (b.relabel f).joins = b.joins.map (Join.relabel f) := by
  rw [relabel_eq]

@[simp] theorem Block.relabel_filters :
    (b.relabel f).filters = b.filters.map (Filter.relabel f) := by
  rw [relabel_eq]

@[simp] theorem Block.relabel_groupBy :
    (b.relabel f).groupBy = b.groupBy.map (Grouping.relabel f) := by
  rw [relabel_eq]

@[simp] theorem Block.relabel_having :
    (b.relabel f).having = b.having.map (Having.relabel f) := by
  rw [relabel_eq]

@[simp] theorem Block.relabel_orderBy :
    (b.relabel f).orderBy = b.orderBy.map (SortTerm.relabel f) := by
  rw [relabel_eq]

@[simp] theorem Block.relabel_limit : (b.relabel f).limit = b.limit := by rw [relabel_eq]

@[simp] theorem Block.relabel_aggregates :
    (b.relabel f).aggregates = b.aggregates.map (SelectAggregate.relabel f) := by
  rw [relabel_eq]

@[simp] theorem Block.relabel_subqueries :
    (b.relabel f).subqueries = b.subqueries.map (Subquery.relabel f) := by
  rw [relabel_eq]

@[simp] theorem Table.relabel_id : (t.relabel f).id = f t.id := rfl

@[simp] theorem Table.relabel_name : (t.relabel f).name = t.name := rfl

@[simp] theorem Join.relabel_sourceTable : (j.relabel f).sourceTable = f j.sourceTable := rfl

@[simp] theorem Join.relabel_targetTable : (j.relabel f).targetTable = f j.targetTable := rfl

@[simp] theorem Filter.relabel_id : (x.relabel f).id = f x.id := rfl

@[simp] theorem Filter.relabel_operand : (x.relabel f).operand = x.operand.relabel f := rfl

@[simp] theorem Subquery.relabel_id : (s.relabel f).id = f s.id := rfl

@[simp] theorem Subquery.relabel_role : (s.relabel f).role = s.role := rfl

@[simp] theorem Subquery.relabel_block : (s.relabel f).block = s.block.relabel f := rfl

@[simp] theorem Cte.relabel_id : (q.relabel f).id = f q.id := rfl

@[simp] theorem Cte.relabel_name : (q.relabel f).name = q.name := rfl

@[simp] theorem Cte.relabel_block : (q.relabel f).block = q.block.relabel f := rfl

@[simp] theorem Canvas.relabel_ctes : (c.relabel f).ctes = c.ctes.map (Cte.relabel f) := rfl

@[simp] theorem Canvas.relabel_root : (c.relabel f).root = c.root.relabel f := rfl

@[simp] theorem Operand.relabel_value? (o : Operand) : (o.relabel f).value? = o.value? := by
  cases o <;> rfl

end Projections

/-! ## The identifiers of a drawing -/

/-- All identifiers that stand in a block, those in the blocks nested in it apart. -/
def Block.ownIds (b : Block) : List EntityId :=
  b.tables.flatMap (fun t => t.id :: t.cte.toList)
    ++ b.joins.flatMap (fun j => [j.id, j.sourceTable, j.targetTable])
    ++ b.filters.flatMap (fun x => x.id :: x.operand.subquery?.toList)
    ++ b.groupBy.map (·.id) ++ b.having.map (·.id) ++ b.orderBy.map (·.id)
    ++ b.aggregates.map (·.id)
    ++ b.subqueries.flatMap (fun s => s.id :: s.linkedFilter.toList)

/-- All identifiers that stand in a canvas. -/
def Canvas.ids (c : Canvas) : List EntityId :=
  c.ctes.map (·.id) ++ c.blocks.flatMap Block.ownIds

variable {f}

theorem map_eq_of_fixed {α : Type u} {g : α → α} {l : List α} (h : ∀ a ∈ l, g a = a) :
    l.map g = l :=
  (List.map_congr_left h).trans (List.map_id' l)

theorem map_eq_of_fixed_toList {o : Option EntityId} (h : ∀ id ∈ o.toList, f id = id) :
    o.map f = o := by
  cases o with
  | none => rfl
  | some id => rw [Option.map_some, h id (by simp)]

theorem Table.relabel_eq_self {t : Table} (h : ∀ id ∈ t.id :: t.cte.toList, f id = id) :
    t.relabel f = t := by
  obtain ⟨hid, hcte⟩ := List.forall_mem_cons.1 h
  rw [relabel, hid, map_eq_of_fixed_toList hcte]

theorem Join.relabel_eq_self {j : Join}
    (h : ∀ id ∈ [j.id, j.sourceTable, j.targetTable], f id = id) : j.relabel f = j := by
  rw [relabel, h j.id (by simp), h j.sourceTable (by simp), h j.targetTable (by simp)]

theorem Filter.relabel_eq_self {x : Filter}
    (h : ∀ id ∈ x.id :: x.operand.subquery?.toList, f id = id) : x.relabel f = x := by
  obtain ⟨hid, hoperand⟩ := List.forall_mem_cons.1 h
  have hsame : x.operand.relabel f = x.operand := by
    cases hx : x.operand with
    | value text => rfl
    | subquery id => rw [Operand.relabel, hoperand id (by simp [hx, Operand.subquery?])]
  rw [relabel, hid, hsame]

theorem Subquery.relabel_eq_self {s : Subquery}
    (h : ∀ id ∈ s.id :: s.linkedFilter.toList, f id = id) (hblock : s.block.relabel f = s.block) :
    s.relabel f = s := by
  obtain ⟨hid, hlink⟩ := List.forall_mem_cons.1 h
  rw [relabel, SubqueryOf.relabelShell, hid, map_eq_of_fixed_toList hlink, hblock]

/-- A block stays as it is where its identifiers do. -/
theorem Block.relabel_eq_self (b : Block)
    (h : b.Everywhere fun c => ∀ id ∈ c.ownIds, f id = id) : b.relabel f = b := by
  induction b using Block.tree_induction with
  | step b ih =>
    obtain ⟨hown, hnested⟩ := everywhere_iff.1 h
    have hbelow : ∀ s ∈ b.subqueries, s.block.relabel f = s.block :=
      fun s hs => ih s hs (hnested s hs)
    simp only [ownIds, List.forall_mem_append, List.forall_mem_flatMap, List.forall_mem_map] at hown
    obtain ⟨⟨⟨⟨⟨⟨⟨htables, hjoins⟩, hfilters⟩, hgroupBy⟩, hhaving⟩, horderBy⟩, haggregates⟩,
      hsubs⟩ := hown
    rw [relabel_eq, map_eq_of_fixed fun t ht => Table.relabel_eq_self (htables t ht),
      map_eq_of_fixed fun j hj => Join.relabel_eq_self (hjoins j hj),
      map_eq_of_fixed fun x hx => Filter.relabel_eq_self (hfilters x hx),
      map_eq_of_fixed fun g hg => by rw [Grouping.relabel, hgroupBy g hg],
      map_eq_of_fixed fun g hg => by rw [Having.relabel, hhaving g hg],
      map_eq_of_fixed fun o ho => by rw [SortTerm.relabel, horderBy o ho],
      map_eq_of_fixed fun a ha => by rw [SelectAggregate.relabel, haggregates a ha],
      map_eq_of_fixed fun s hs => Subquery.relabel_eq_self (hsubs s hs) (hbelow s hs)]
    cases b
    rfl

/-- The identifier under which a nested query is found stands in a block of the tree. -/
theorem Block.mem_ownIds_of_nested? {id : EntityId} : ∀ b found : Block, b.nested? id = some found →
    ∃ c ∈ b.blocks, id ∈ c.ownIds := by
  refine tree_induction fun b ih found h => ?_
  rw [nested?_eq] at h
  obtain ⟨s, hs, hfound⟩ := List.exists_of_findSome?_eq_some h
  split at hfound
  · rename_i hid
    refine ⟨b, self_mem_blocks b, List.mem_append_right _ (List.mem_flatMap.2 ⟨s, hs, ?_⟩)⟩
    rw [hid]
    exact List.mem_cons_self
  · obtain ⟨c, hc, hmem⟩ := ih s hs found hfound
    exact ⟨c, mem_blocks.2 (.inr ⟨s, hs, hc⟩), hmem⟩

/-- The identifier of a pointer that leads to a block stands in the canvas. -/
theorem Focus.relabel_eq_self {c : Canvas} (h : ∀ id ∈ c.ids, f id = id) {focus : Focus}
    {b : Block} (hb : c.block? focus = some b) : focus.relabel f = focus := by
  have hblocks : ∀ c' ∈ c.blocks, ∀ id ∈ c'.ownIds, f id = id := fun c' hc' id hid =>
    h id (List.mem_append_right _ (List.mem_flatMap.2 ⟨c', hc', hid⟩))
  cases focus with
  | root => rfl
  | cte id =>
    obtain ⟨q, hq, -⟩ := Option.map_eq_some_iff.1 hb
    have hid : q.id = id := by simpa using List.find?_some hq
    rw [relabel, ← hid, h q.id (List.mem_append_left _
      (List.mem_map_of_mem (List.mem_of_find?_eq_some hq)))]
  | subquery id =>
    simp only [Canvas.block?, Canvas.nested?] at hb
    split at hb
    · rename_i found hfound
      obtain ⟨c', hc', hid⟩ := Block.mem_ownIds_of_nested? c.root found hfound
      rw [relabel, hblocks c' (List.mem_append_left _ hc') id hid]
    · obtain ⟨q, hq, hfound⟩ := List.exists_of_findSome?_eq_some hb
      obtain ⟨c', hc', hid⟩ := Block.mem_ownIds_of_nested? q.block b hfound
      have hmem : c' ∈ c.blocks := List.mem_append_right _ (List.mem_flatMap.2 ⟨q, hq, hc'⟩)
      rw [relabel, hblocks c' hmem id hid]

theorem Cte.relabel_eq_self {c : Canvas} (h : ∀ id ∈ c.ids, f id = id) {q : Cte}
    (hq : q ∈ c.ctes) : q.relabel f = q := by
  obtain ⟨hctes, hblocks⟩ := List.forall_mem_append.1 h
  have hblock : q.block.relabel f = q.block := q.block.relabel_eq_self fun b hb id hid =>
    hblocks id (List.mem_flatMap.2
      ⟨b, List.mem_append_right _ (List.mem_flatMap.2 ⟨q, hq, hb⟩), hid⟩)
  rw [relabel, hctes q.id (List.mem_map_of_mem hq), hblock]

/-- A canvas stays as it is where its identifiers do. -/
theorem Canvas.relabel_eq_self (c : Canvas) (h : ∀ id ∈ c.ids, f id = id) : c.relabel f = c := by
  have hroot : c.root.relabel f = c.root := c.root.relabel_eq_self fun b hb id hid =>
    h id (List.mem_append_right _ (List.mem_flatMap.2 ⟨b, List.mem_append_left _ hb, hid⟩))
  rw [relabel, map_eq_of_fixed fun q hq => Cte.relabel_eq_self h hq, hroot]

end Parts

/-! ## Looking up -/

section Lookup

variable {f : EntityId → EntityId}

/-- What is found under an identifier is found under the new one. -/
theorem find?_map_key {α : Type u} {β : Type v} (hf : Function.Injective f) (key : α → EntityId)
    (key' : β → EntityId) {g : α → β} (hkey : ∀ a, key' (g a) = f (key a)) (id : EntityId)
    (l : List α) :
    (l.map g).find? (fun b => key' b = f id) = (l.find? fun a => key a = id).map g := by
  rw [List.find?_map]
  simp only [Function.comp_def, hkey, hf.eq_iff]

theorem Block.table?_relabel (hf : Function.Injective f) (b : Block) (id : EntityId) :
    (b.relabel f).table? (f id) = (b.table? id).map (Table.relabel f) := by
  rw [table?, relabel_tables]
  exact find?_map_key hf Table.id Table.id (fun _ => rfl) id b.tables

theorem Block.tableNamed?_relabel (b : Block) (name : String) :
    (b.relabel f).tableNamed? name = (b.tableNamed? name).map (Table.relabel f) := by
  rw [tableNamed?, relabel_tables, List.find?_map]
  rfl

theorem Block.subqueriesIn_relabel (b : Block) (role : SubqueryRole) :
    (b.relabel f).subqueriesIn role = (b.subqueriesIn role).map (Subquery.relabel f) := by
  rw [subqueriesIn, relabel_subqueries, List.filter_map]
  rfl

@[simp] theorem Block.hasNoSource_relabel (b : Block) :
    (b.relabel f).hasNoSource = b.hasNoSource := by
  simp [hasNoSource, subqueriesIn_relabel]

@[simp] theorem Block.outputColumns_relabel (b : Block) :
    (b.relabel f).outputColumns = b.outputColumns := by
  simp only [outputColumns, relabel_tables, relabel_aggregates, subqueriesIn_relabel,
    List.flatMap_map, List.filterMap_map]
  rfl

theorem Canvas.cte?_relabel (hf : Function.Injective f) (c : Canvas) (id : EntityId) :
    (c.relabel f).cte? (f id) = (c.cte? id).map (Cte.relabel f) :=
  find?_map_key hf Cte.id Cte.id (fun _ => rfl) id c.ctes

theorem Canvas.cteNamed?_relabel (c : Canvas) (name : String) :
    (c.relabel f).cteNamed? name = (c.cteNamed? name).map (Cte.relabel f) := by
  rw [cteNamed?, relabel_ctes, List.find?_map]
  rfl

mutual

theorem Block.nested?_relabel (hf : Function.Injective f) (id : EntityId) : ∀ b : Block,
    (b.relabel f).nested? (f id) = (b.nested? id).map (Block.relabel f)
  | ⟨_, _, _, _, _, _, _, _, subs⟩ => nestedIn?_relabel hf id subs

theorem Block.nestedIn?_relabel (hf : Function.Injective f) (id : EntityId) :
    ∀ subs : List (SubqueryOf Block),
      nestedIn? (f id) (relabelNested f subs) = (nestedIn? id subs).map (Block.relabel f)
  | [] => rfl
  | ⟨i, r, al, k, fr, b⟩ :: rest => by
    simp only [relabelNested, nestedIn?, hf.eq_iff, nested?_relabel hf id b,
      nestedIn?_relabel hf id rest]
    split
    · rfl
    · cases b.nested? id <;> rfl

end

theorem Canvas.block?_relabel (hf : Function.Injective f) (c : Canvas) (focus : Focus) :
    (c.relabel f).block? (focus.relabel f) = (c.block? focus).map (Block.relabel f) := by
  cases focus with
  | root => rfl
  | cte id =>
    simp only [block?, Focus.relabel, cte?_relabel hf, Option.map_map]
    rfl
  | subquery id =>
    simp only [block?, Focus.relabel, nested?, relabel_root, relabel_ctes,
      Block.nested?_relabel hf, List.findSome?_map, Function.comp_def, Cte.relabel_block]
    cases c.root.nested? id with
    | some b => rfl
    | none => rw [List.map_findSome?]; rfl

theorem Block.canJoin_relabel (hf : Function.Injective f) (b : Block) (source target : EntityId) :
    (b.relabel f).canJoin (f source) (f target) = b.canJoin source target := by
  simp only [canJoin, table?_relabel hf, Option.isSome_map, ne_eq, hf.eq_iff]

end Lookup

/-! ## Changing one block -/

section Changes

variable {f : EntityId → EntityId}

/-- A change of the first member that satisfies a test, after all members were changed. -/
theorem updateFirst_map {α : Type u} {β : Type v} {g : α → β} {p : α → Bool} {q : β → Bool}
    {change : α → α} {change' : β → β} (hp : ∀ a, q (g a) = p a)
    (hchange : ∀ a, change' (g a) = g (change a)) (l : List α) :
    updateFirst q change' (l.map g) = (updateFirst p change l).map g := by
  induction l with
  | nil => rfl
  | cons a rest ih =>
    simp only [List.map_cons, updateFirst, hp]
    split
    · rw [List.map_cons, hchange]
    · rw [List.map_cons, ih]

theorem Table.select_relabel (t : Table) (column : String) :
    (t.relabel f).select column = (t.select column).relabel f := by
  unfold select
  rw [show (t.relabel f).isSelected column = t.isSelected column from rfl]
  split <;> rfl

theorem Table.setAggregate_relabel (t : Table) (column : String)
    (aggregate : Option ColumnAggregate) :
    (t.relabel f).setAggregate column aggregate = (t.setAggregate column aggregate).relabel f := by
  cases aggregate with
  | none => rfl
  | some a => simp only [setAggregate, select_relabel]; rfl

variable (b : Block)

theorem Block.addTable_relabel (t : Table) :
    (b.relabel f).addTable (t.relabel f) = (b.addTable t).relabel f := by
  simp [addTable, relabel_eq]

theorem Block.addJoin_relabel (hf : Function.Injective f) (j : Join) :
    (b.relabel f).addJoin (j.relabel f) = (b.addJoin j).relabel f := by
  simp only [addJoin, Join.relabel_sourceTable, Join.relabel_targetTable, canJoin_relabel hf]
  split
  · simp [relabel_eq]
  · rfl

theorem Block.updateTable_relabel (hf : Function.Injective f) {change : Table → Table}
    (hchange : ∀ t, change (t.relabel f) = (change t).relabel f) (id : EntityId) :
    (b.relabel f).updateTable (f id) change = (b.updateTable id change).relabel f := by
  have htables : updateFirst (fun t : Table => decide (t.id = f id)) change
      (b.tables.map (Table.relabel f)) =
        (updateFirst (fun t : Table => decide (t.id = id)) change b.tables).map (Table.relabel f) :=
    updateFirst_map (fun t => by simp [hf.eq_iff]) hchange b.tables
  simp [updateTable, relabel_eq, htables]

theorem Block.addFilter_relabel (x : Filter) :
    (b.relabel f).addFilter (x.relabel f) = (b.addFilter x).relabel f := by
  simp [addFilter, relabel_eq]

theorem Block.addGrouping_relabel (g : Grouping) :
    (b.relabel f).addGrouping (g.relabel f) = (b.addGrouping g).relabel f := by
  simp [addGrouping, relabel_eq]

theorem Block.addHaving_relabel (h : Having) :
    (b.relabel f).addHaving (h.relabel f) = (b.addHaving h).relabel f := by
  simp [addHaving, relabel_eq]

theorem Block.addSortTerm_relabel (o : SortTerm) :
    (b.relabel f).addSortTerm (o.relabel f) = (b.addSortTerm o).relabel f := by
  simp [addSortTerm, relabel_eq]

theorem Block.addAggregate_relabel (a : SelectAggregate) :
    (b.relabel f).addAggregate (a.relabel f) = (b.addAggregate a).relabel f := by
  simp [addAggregate, relabel_eq]

theorem Block.addNested_relabel (s : Subquery) :
    ({ b.relabel f with subqueries := (b.relabel f).subqueries ++ [s.relabel f] } : Block) =
      ({ b with subqueries := b.subqueries ++ [s] } : Block).relabel f := by
  simp [relabel_eq]

theorem Block.updateLinked_relabel (hf : Function.Injective f) {change : Table → Table}
    (hchange : ∀ t, change (t.relabel f) = (change t).relabel f) (id : EntityId) :
    (b.relabel f).updateLinked (f id) change = (b.updateLinked id change).relabel f := by
  have htable : ∀ t : Table,
      (if (t.relabel f).cte = some (f id) then change (t.relabel f) else t.relabel f) =
        (if t.cte = some id then change t else t).relabel f := by
    intro t
    have hcte : (t.relabel f).cte = some (f id) ↔ t.cte = some id :=
      (Option.map_injective hf).eq_iff (a := t.cte) (b := some id)
    simp only [hcte, hchange]
    split <;> rfl
  simp [updateLinked, relabel_eq, Function.comp_def, htable]

end Changes

/-! ## Changing a canvas -/

section Canvases

variable {f : EntityId → EntityId} (change change' : Block → Block)

mutual

theorem Block.updateNested?_relabel (hf : Function.Injective f)
    (hchange : ∀ b, change' (b.relabel f) = (change b).relabel f) (id : EntityId) : ∀ b : Block,
    (b.relabel f).updateNested? (f id) change' = (b.updateNested? id change).map (Block.relabel f)
  | ⟨t, j, x, g, h, o, l, a, subs⟩ => by
    simp only [relabel, updateNested?, updateNestedIn?_relabel hf hchange id subs, Option.map_map]
    rfl

theorem Block.updateNestedIn?_relabel (hf : Function.Injective f)
    (hchange : ∀ b, change' (b.relabel f) = (change b).relabel f) (id : EntityId) :
    ∀ subs : List (SubqueryOf Block), updateNestedIn? (f id) change' (relabelNested f subs) =
      (updateNestedIn? id change subs).map (relabelNested f)
  | [] => rfl
  | ⟨i, r, al, k, fr, b⟩ :: rest => by
    simp only [relabelNested, updateNestedIn?, hf.eq_iff,
      updateNested?_relabel hf hchange id b,
      updateNestedIn?_relabel hf hchange id rest]
    split
    · simp [relabelNested, hchange]
    · cases b.updateNested? id change with
      | some b' => simp [relabelNested]
      | none => simp [relabelNested, Function.comp_def]

end

theorem Block.mapBlocks_relabel (hchange : ∀ b, change' (b.relabel f) = (change b).relabel f)
    (b : Block) : (b.relabel f).mapBlocks change' = (b.mapBlocks change).relabel f := by
  induction b using Block.tree_induction with
  | step b ih =>
    rw [mapBlocks_eq, mapBlocks_eq, ← hchange]
    congr 1
    rw [relabel_eq, relabel_eq]
    simp only [List.map_map, Block.mk.injEq, true_and]
    refine List.map_congr_left fun s hs => ?_
    have hblock : (Subquery.relabel f s).block.mapBlocks change' =
        (s.block.mapBlocks change).relabel f := ih s hs
    simp only [Function.comp_apply, hblock]
    rfl

theorem Canvas.mapBlocks_relabel (hchange : ∀ b, change' (b.relabel f) = (change b).relabel f)
    (c : Canvas) : (c.relabel f).mapBlocks change' = (c.mapBlocks change).relabel f := by
  simp only [mapBlocks, relabel, List.map_map, Block.mapBlocks_relabel _ _ hchange]
  refine congrArg (Canvas.mk · _) (List.map_congr_left fun q _ => ?_)
  simp only [Function.comp_apply, Cte.relabel, Block.mapBlocks_relabel _ _ hchange]

theorem Canvas.updateNestedInCtes_relabel (hf : Function.Injective f)
    (hchange : ∀ b, change' (b.relabel f) = (change b).relabel f) (id : EntityId)
    (ctes : List Cte) : updateNestedInCtes (f id) change' (ctes.map (Cte.relabel f)) =
      (updateNestedInCtes id change ctes).map (Cte.relabel f) := by
  induction ctes with
  | nil => rfl
  | cons q rest ih =>
    simp only [List.map_cons, updateNestedInCtes, Cte.relabel_block,
      Block.updateNested?_relabel change change' hf hchange]
    cases q.block.updateNested? id change with
    | some b => rfl
    | none => simp only [Option.map_none, List.map_cons, ih]

theorem Canvas.updateBlock_relabel (hf : Function.Injective f)
    (hchange : ∀ b, change' (b.relabel f) = (change b).relabel f) (c : Canvas) (focus : Focus) :
    (c.relabel f).updateBlock (focus.relabel f) change' =
      (c.updateBlock focus change).relabel f := by
  cases focus with
  | root => simp only [updateBlock, Focus.relabel, relabel, hchange]
  | cte id =>
    have hctes : updateFirst (fun q : Cte => decide (q.id = f id))
        (fun q => { q with block := change' q.block }) (c.ctes.map (Cte.relabel f)) =
          (updateFirst (fun q : Cte => decide (q.id = id))
            (fun q => { q with block := change q.block }) c.ctes).map (Cte.relabel f) :=
      updateFirst_map (fun q => by simp [hf.eq_iff]) (fun q => by simp [Cte.relabel, hchange]) _
    simp only [updateBlock, Focus.relabel, relabel, hctes]
  | subquery id =>
    simp only [updateBlock, Focus.relabel, relabel_root, relabel_ctes,
      Block.updateNested?_relabel change change' hf hchange,
      updateNestedInCtes_relabel change change' hf hchange]
    cases c.root.updateNested? id change <;> rfl

theorem Canvas.refreshCteColumns_relabel (hf : Function.Injective f) (c : Canvas) (id : EntityId) :
    (c.relabel f).refreshCteColumns (f id) = (c.refreshCteColumns id).relabel f := by
  simp only [refreshCteColumns, cte?_relabel hf]
  cases c.cte? id with
  | none => rfl
  | some q =>
    simp only [Option.map_some, Cte.relabel_block, Block.outputColumns_relabel]
    refine mapBlocks_relabel _ _ (fun b => ?_) c
    exact b.updateLinked_relabel hf (fun t => by simp only [Table.relabel]) id

end Canvases

end QueryCanvas
