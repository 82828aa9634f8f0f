import QueryCanvas.Proofs.Canvas.Links
import QueryCanvas.Proofs.Sql.Qualifier

/-!
# What a removed table takes along

Removing a table takes its joins along and, if no other table is left with its name, what is written
with its columns and the nested queries of the filters among that.  What is written with a column is
found by the name that is told from the text of the column.  This is the name of the table for
ordinary names only, so the removal is exact exactly where every column of the removed table, and no
column of another one, is told to be one of the removed table.
-/

set_option autoImplicit false

namespace QueryCanvas.Block

variable {b : Block} {id i : EntityId} {name : String} {t : Table}

/-! ## What is removed -/

/-- Some filter of one of the identifiers compares with the nested query. -/
def comparedBy (b : Block) (ids : List EntityId) (s : EntityId) : Bool :=
  b.filters.any fun f => ids.contains f.id && f.operand = .subquery s

theorem comparedBy_iff {ids : List EntityId} {s : EntityId} :
    b.comparedBy ids s ↔ ∃ f ∈ b.filters, f.id ∈ ids ∧ f.operand = .subquery s := by
  simp [comparedBy]

theorem removeFilter_eq (h : (b.filters.map (·.id)).Nodup) (i : EntityId) :
    b.removeFilter i = { b with
      filters := b.filters.filter (·.id ≠ i)
      subqueries := b.subqueries.filter (!b.comparedBy [i] ·.id) } := by
  unfold removeFilter
  cases hf : b.filter? i with
  | none =>
    have hnone : ∀ f ∈ b.filters, f.id ≠ i := fun f hf' heq => by
      simpa [heq] using List.find?_eq_none.1 hf f hf'
    have hfilters : b.filters.filter (·.id ≠ i) = b.filters :=
      List.filter_eq_self.2 fun f hf' => decide_eq_true (hnone f hf')
    have hnested : b.subqueries.filter (!b.comparedBy [i] ·.id) = b.subqueries := by
      refine List.filter_eq_self.2 fun s _ => ?_
      rw [Bool.not_eq_true', Bool.eq_false_iff, ne_eq, comparedBy_iff]
      rintro ⟨f, hf', hid, -⟩
      exact hnone f hf' (List.mem_singleton.1 hid)
    rw [hfilters, hnested]
    cases b
    rfl
  | some f =>
    obtain ⟨hmem, hid⟩ := mem_of_filter? hf
    have hcompared : ∀ s, b.comparedBy [i] s ↔ f.operand = .subquery s := by
      intro s
      rw [comparedBy_iff]
      constructor
      · rintro ⟨g, hg, hgid, hop⟩
        have hsame : g.id = f.id := (List.mem_singleton.1 hgid).trans hid.symm
        obtain rfl := List.inj_on_of_nodup_map h hg hmem hsame
        exact hop
      · exact fun hop => ⟨f, hmem, List.mem_singleton.2 hid, hop⟩
    have hnested :
        ({ b with filters := b.filters.eraseP (·.id = i) }.dropLinked f.operand).subqueries
        = b.subqueries.filter (!b.comparedBy [i] ·.id) := by
      rw [subqueries_dropLinked]
      refine List.filter_congr fun s _ => ?_
      rw [Bool.eq_iff_iff, decide_eq_true_eq, Bool.not_eq_true', Bool.eq_false_iff, ne_eq, ne_eq,
        hcompared]
    rw [← hnested, ← eraseP_eq_filter_of_nodup h]
    simp only [dropLinked]
    split <;> rfl

/-- Removing filters, one after the other, leaves the other ones and the nested queries that none of
the removed ones compares with. -/
theorem foldl_removeFilter (h : (b.filters.map (·.id)).Nodup) (ids : List EntityId) :
    ids.foldl removeFilter b = { b with
      filters := b.filters.filter (!ids.contains ·.id)
      subqueries := b.subqueries.filter (!b.comparedBy ids ·.id) } := by
  induction ids generalizing b with
  | nil =>
    have hnone : ∀ s, b.comparedBy [] s = false := fun s => by
      rw [Bool.eq_false_iff, ne_eq, comparedBy_iff]
      simp
    cases b
    simp [hnone, List.filter_true]
  | cons i rest ih =>
    have hfirst := removeFilter_eq h i
    have hrest : ((b.removeFilter i).filters.map (·.id)).Nodup := by
      rw [hfirst]
      exact h.sublist (List.filter_sublist.map _)
    rw [List.foldl_cons, ih hrest, hfirst]
    have hfilters : (b.filters.filter (·.id ≠ i)).filter (!rest.contains ·.id) =
        b.filters.filter (!(i :: rest).contains ·.id) := by
      rw [List.filter_filter]
      exact List.filter_congr fun f _ => by simp [Bool.and_comm]
    have hnested : ∀ s, ({ b with
          filters := b.filters.filter (·.id ≠ i)
          subqueries := b.subqueries.filter (!b.comparedBy [i] ·.id) } : Block).comparedBy rest s ∨
          b.comparedBy [i] s ↔ b.comparedBy (i :: rest) s := by
      intro s
      simp only [comparedBy_iff, List.mem_filter, decide_eq_true_eq, List.mem_cons,
        List.not_mem_nil, or_false]
      constructor
      · rintro (⟨f, ⟨hf, -⟩, hid, hop⟩ | ⟨f, hf, hid, hop⟩)
        · exact ⟨f, hf, .inr hid, hop⟩
        · exact ⟨f, hf, .inl hid, hop⟩
      · rintro ⟨f, hf, hid, hop⟩
        by_cases hi : f.id = i
        · exact .inr ⟨f, hf, hi, hop⟩
        · exact .inl ⟨f, ⟨hf, hi⟩, hid.resolve_left hi, hop⟩
    have hqueries : (b.subqueries.filter (!b.comparedBy [i] ·.id)).filter (!({ b with
          filters := b.filters.filter (·.id ≠ i)
          subqueries := b.subqueries.filter (!b.comparedBy [i] ·.id) } : Block).comparedBy
            rest ·.id) =
        b.subqueries.filter (!b.comparedBy (i :: rest) ·.id) := by
      rw [List.filter_filter]
      refine List.filter_congr fun s _ => ?_
      rw [Bool.eq_iff_iff, Bool.and_eq_true, Bool.not_eq_true', Bool.not_eq_true',
        Bool.not_eq_true', Bool.eq_false_iff, Bool.eq_false_iff, Bool.eq_false_iff, ne_eq, ne_eq,
        ne_eq, ← hnested, not_or]
    rw [← hfilters, ← hqueries]

/-- The nested query is compared with by a filter of a column that is taken for one of the table. -/
def comparedUnder (b : Block) (name : String) (s : EntityId) : Bool :=
  b.filters.any fun f => refersTo f.column name && f.operand = .subquery s

theorem removeReferences_eq (h : (b.filters.map (·.id)).Nodup) (name : String) :
    b.removeReferences name = { b with
      filters := b.filters.filter (!refersTo ·.column name)
      subqueries := b.subqueries.filter (!b.comparedUnder name ·.id)
      groupBy := b.groupBy.filter (!refersTo ·.column name)
      having := b.having.filter (!refersTo ·.column name)
      orderBy := b.orderBy.filter (!refersTo ·.column name) } := by
  set dropped := (b.filters.filter (refersTo ·.column name)).map (·.id) with hdropped
  have hmem : ∀ f ∈ b.filters, f.id ∈ dropped ↔ refersTo f.column name := by
    intro f hf
    rw [hdropped, List.mem_map]
    constructor
    · rintro ⟨g, hg, hid⟩
      obtain ⟨hg, hrefers⟩ := List.mem_filter.1 hg
      obtain rfl := List.inj_on_of_nodup_map h hg hf hid
      exact hrefers
    · exact fun hrefers => ⟨f, List.mem_filter.2 ⟨hf, hrefers⟩, rfl⟩
  have hfilters : b.filters.filter (!dropped.contains ·.id) =
      b.filters.filter (!refersTo ·.column name) := by
    refine List.filter_congr fun f hf => congrArg _ ?_
    rw [Bool.eq_iff_iff, List.contains_iff_mem]
    exact hmem f hf
  have hcompared : ∀ s, b.comparedBy dropped s = b.comparedUnder name s := by
    intro s
    rw [Bool.eq_iff_iff, comparedBy_iff]
    simp only [comparedUnder, List.any_eq_true, Bool.and_eq_true, decide_eq_true_eq]
    exact exists_congr fun f => and_congr_right fun hf => and_congr_left fun _ => hmem f hf
  simp only [removeReferences, ← hdropped, foldl_removeFilter h, hfilters, hcompared]

/-! ## An exact removal -/

/-- No table is left with the name once the table of the identifier is gone. -/
def LosesName (b : Block) (id : EntityId) (name : String) : Prop :=
  ∀ u ∈ b.tables.eraseP (·.id = id), ¬Text.sameName u.name name

instance : Decidable (b.LosesName id name) :=
  inferInstanceAs (Decidable (∀ u ∈ b.tables.eraseP (·.id = id), ¬Text.sameName u.name name))

/-- The block without a table and its joins. -/
def withoutTable (b : Block) (id : EntityId) : Block :=
  { b with
    tables := b.tables.eraseP (·.id = id)
    joins := b.joins.filter fun j => j.sourceTable ≠ id && j.targetTable ≠ id }

theorem removeTable_of_losesName (ht : b.table? id = some t) (h : b.LosesName id t.name) :
    b.removeTable id = (b.withoutTable id).removeReferences t.name := by
  have hnone : ((b.withoutTable id).tableNamed? t.name).isNone := by
    rw [Option.isNone_iff_eq_none, tableNamed?, List.find?_eq_none]
    exact fun u hu => h u hu
  unfold removeTable
  rw [ht]
  exact if_pos hnone

theorem removeTable_of_shared (ht : b.table? id = some t) (h : ¬b.LosesName id t.name) :
    b.removeTable id = b.withoutTable id := by
  have hsome : ¬((b.withoutTable id).tableNamed? t.name).isNone := by
    rw [Option.isNone_iff_eq_none, tableNamed?, List.find?_eq_none]
    exact fun hnone => h fun u hu => hnone u hu
  unfold removeTable
  rw [ht]
  exact if_neg hsome

/-- The entries of a clause with one of these columns. -/
def restrict {α : Type} (column : α → String) (keep : String → Bool) (entries : List α) : List α :=
  entries.filter fun a => keep (column a)

/-- Both blocks have the same filters, groupings, conditions on groups and sorting terms with these
columns, in the same order. -/
structure AgreeOn (keep : String → Bool) (b b' : Block) : Prop where
  filters : restrict (·.column) keep b'.filters = restrict (·.column) keep b.filters
  groupBy : restrict (·.column) keep b'.groupBy = restrict (·.column) keep b.groupBy
  having : restrict (·.column) keep b'.having = restrict (·.column) keep b.having
  orderBy : restrict (·.column) keep b'.orderBy = restrict (·.column) keep b.orderBy

/-- A block is left by a removal of a table of some name that no table has any more: nothing is
written with a column of that name, all that is written with columns of the tables that are left is
there, and exactly the nested queries of the lost filters are lost. -/
structure LeavesRest (b b' : Block) (name : String) : Prop where
  forgotten : ∀ column, Sql.columnRef name column ∉ b'.clauseColumns
  kept : ∀ keep : String → Bool,
    (∀ x, keep x → ∃ u ∈ b'.tables, ∃ column, x = Sql.columnRef u.name column) → AgreeOn keep b b'
  nested : b'.subqueries = b.subqueries.filter fun s =>
    ∀ f ∈ b.filters, f ∉ b'.filters → f.operand ≠ .subquery s.id
  clauses : b'.filters.Sublist b.filters ∧ b'.groupBy.Sublist b.groupBy ∧
    b'.having.Sublist b.having ∧ b'.orderBy.Sublist b.orderBy
  result : b'.limit = b.limit ∧ b'.aggregates = b.aggregates

/-- Removing a table removes the table, its joins and every reference to its name that no other
table has, and nothing else. -/
structure RemovesReferences (b : Block) (id : EntityId) (name : String) : Prop where
  tables : (b.removeTable id).tables = b.tables.eraseP (·.id = id)
  joins : (b.removeTable id).joins =
    b.joins.filter fun j => j.sourceTable ≠ id && j.targetTable ≠ id
  shared : ¬b.LosesName id name → b.removeTable id = b.withoutTable id
  alone : b.LosesName id name → LeavesRest b (b.removeTable id) name

/-- Exactly the columns of the removed table are told to be of its name: no column of it has a point
in its own name, its quotes stand at the ends of its name, and no column of a table that is left is
told to be of this name. -/
structure ToldApart (b : Block) (id : EntityId) (name : String) : Prop where
  own : ∀ column, Sql.columnRef name column ∈ b.clauseColumns →
    '.' ∉ column.toList ∧ Sql.isEdgeQuoted name
  others : ∀ u ∈ b.tables.eraseP (·.id = id), ∀ column,
    Sql.columnRef u.name column ∈ b.clauseColumns →
      ¬Text.sameName (Sql.toldTable u.name column) name

theorem toldApart_iff_refersTo : b.ToldApart id name ↔
    (∀ column, Sql.columnRef name column ∈ b.clauseColumns →
      refersTo (Sql.columnRef name column) name) ∧
    ∀ u ∈ b.tables.eraseP (·.id = id), ∀ column,
      Sql.columnRef u.name column ∈ b.clauseColumns →
        ¬refersTo (Sql.columnRef u.name column) name := by
  simp only [Sql.refersTo_columnRef, Sql.sameName_toldTable_iff]
  exact ⟨fun h => ⟨h.own, h.others⟩, fun h => ⟨h.1, h.2⟩⟩

theorem restrict_filter {α : Type} {column : α → String} {keep : String → Bool} {l : List α}
    (h : ∀ a ∈ l, keep (column a) → ¬refersTo (column a) name) :
    restrict column keep (l.filter fun a => !refersTo (column a) name)
      = restrict column keep l := by
  rw [restrict, restrict, List.filter_filter]
  refine List.filter_congr fun a ha => ?_
  cases hkeep : keep (column a) with
  | false => rfl
  | true => simpa using h a ha hkeep

theorem mem_of_restrict_eq {α : Type} {column : α → String} {x : String} {l : List α}
    (h : restrict column (· = x) (l.filter fun a => !refersTo (column a) name) =
      restrict column (· = x) l) (hx : x ∈ l.map column) : ¬refersTo x name := by
  obtain ⟨a, ha, rfl⟩ := List.mem_map.1 hx
  have hmem : a ∈ restrict column (· = column a) l :=
    List.mem_filter.2 ⟨ha, decide_eq_true rfl⟩
  rw [← h] at hmem
  simpa using (List.mem_filter.1 (List.mem_filter.1 hmem).1).2

/-- A removal from a block is exact exactly if the columns are told apart. -/
theorem leavesRest_iff (hids : (b.filters.map (·.id)).Nodup) (ht : b.table? id = some t)
    (h : b.LosesName id t.name) :
    LeavesRest b (b.removeTable id) t.name ↔ b.ToldApart id t.name := by
  have heq : b.removeTable id = (b.withoutTable id).removeReferences t.name :=
    removeTable_of_losesName ht h
  rw [removeReferences_eq (b := b.withoutTable id) hids] at heq
  have htables : (b.removeTable id).tables = b.tables.eraseP (·.id = id) := by
    rw [heq]
    rfl
  have hcolumns : ∀ x, x ∈ (b.removeTable id).clauseColumns ↔
      x ∈ b.clauseColumns ∧ ¬refersTo x t.name := by
    intro x
    rw [heq]
    simp only [clauseColumns, withoutTable, List.mem_append, List.mem_map, List.mem_filter,
      Bool.not_eq_true', Bool.not_eq_true]
    grind
  rw [toldApart_iff_refersTo]
  constructor
  · intro hrest
    refine ⟨fun column hcolumn => ?_, fun u hu column hcolumn => ?_⟩
    · by_contra hnot
      exact hrest.forgotten column ((hcolumns _).2 ⟨hcolumn, hnot⟩)
    · have hagree := hrest.kept (· = Sql.columnRef u.name column) fun x hx =>
        ⟨u, htables ▸ hu, column, of_decide_eq_true hx⟩
      rw [heq] at hagree
      rw [clauseColumns, List.mem_append, List.mem_append, List.mem_append] at hcolumn
      rcases hcolumn with ((hcolumn | hcolumn) | hcolumn) | hcolumn
      · exact mem_of_restrict_eq hagree.filters hcolumn
      · exact mem_of_restrict_eq hagree.groupBy hcolumn
      · exact mem_of_restrict_eq hagree.having hcolumn
      · exact mem_of_restrict_eq hagree.orderBy hcolumn
  · rintro ⟨hown, hothers⟩
    refine ⟨fun column hcolumn => ?_, fun keep hkeep => ?_, ?_, ?_, ?_⟩
    · obtain ⟨hmem, hnot⟩ := (hcolumns _).1 hcolumn
      exact hnot (hown column hmem)
    · have hkept : ∀ x ∈ b.clauseColumns, keep x → ¬refersTo x t.name := by
        intro x hx hkeepx
        obtain ⟨u, hu, column, rfl⟩ := hkeep x hkeepx
        exact hothers u (htables ▸ hu) column hx
      have hmem : ∀ x, (x ∈ b.filters.map (·.column) ∨ x ∈ b.groupBy.map (·.column) ∨
          x ∈ b.having.map (·.column) ∨ x ∈ b.orderBy.map (·.column)) → x ∈ b.clauseColumns := by
        intro x hx
        simpa only [clauseColumns, List.mem_append, or_assoc] using hx
      rw [heq]
      exact ⟨restrict_filter fun f hf => hkept _ (hmem _ (.inl (List.mem_map_of_mem hf))),
        restrict_filter fun g hg => hkept _ (hmem _ (.inr (.inl (List.mem_map_of_mem hg)))),
        restrict_filter fun c hc => hkept _ (hmem _ (.inr (.inr (.inl (List.mem_map_of_mem hc))))),
        restrict_filter fun o ho => hkept _ (hmem _ (.inr (.inr (.inr (List.mem_map_of_mem ho)))))⟩
    · rw [heq]
      refine List.filter_congr fun s _ => ?_
      rw [Bool.eq_iff_iff, decide_eq_true_eq, Bool.not_eq_true', comparedUnder,
        List.any_eq_false]
      refine forall₂_congr fun f hf => ?_
      simp only [withoutTable, List.mem_filter, Bool.and_eq_true, decide_eq_true_eq, not_and,
        Bool.not_eq_true', Bool.not_eq_false]
      exact ⟨fun hnot hlost => hnot (hlost hf), fun hnot hrefers => hnot fun _ => hrefers⟩
    · rw [heq]
      exact ⟨List.filter_sublist, List.filter_sublist, List.filter_sublist, List.filter_sublist⟩
    · rw [heq]
      exact ⟨rfl, rfl⟩

/-- Removing a table removes every reference to it and nothing else exactly if another table is left
with its name or its columns are told apart from those of the tables that are left. -/
theorem removesReferences_iff (hids : (b.filters.map (·.id)).Nodup) (ht : b.table? id = some t) :
    b.RemovesReferences id t.name ↔ (b.LosesName id t.name → b.ToldApart id t.name) := by
  constructor
  · exact fun h hlost => (leavesRest_iff hids ht hlost).1 (h.alone hlost)
  · intro h
    refine ⟨removeTable_tables b id, ?_, removeTable_of_shared ht,
      fun hlost => (leavesRest_iff hids ht hlost).2 (h hlost)⟩
    by_cases hlost : b.LosesName id t.name
    · rw [removeTable_of_losesName ht hlost, removeReferences_eq (b := b.withoutTable id) hids]
      rfl
    · rw [removeTable_of_shared ht hlost]
      rfl

/-- Orders of one schema and customers, with a filter on a column of each; the filter on the orders
compares with a nested query. -/
def ordersOfCustomers : Block :=
  let orders := Table.create ⟨"orders"⟩ "public.orders" ["id"] default
  let customers := Table.create ⟨"customers"⟩ "customers" ["sign up"] default
  { Block.empty with
    tables := [orders, customers]
    filters :=
      [{ id := ⟨"among"⟩, column := Sql.columnRef "public.orders" "id", operator := .isIn
         operand := .subquery ⟨"some"⟩, connector := .and },
       { id := ⟨"since"⟩, column := Sql.columnRef "customers" "sign up", operator := .gt
         operand := .value "2020", connector := .and }]
    subqueries := [{
      id := ⟨"some"⟩, role := .whereClause, aliasName := none, linkedFilter := some ⟨"among"⟩
      frame := default, block := Block.empty }] }

/-- With the orders go the filter on them and its nested query, and nothing else. -/
theorem removesReferences_orders :
    (ordersOfCustomers.filters.map (·.id)).Nodup ∧
      ordersOfCustomers.LosesName ⟨"orders"⟩ "public.orders" ∧
      ordersOfCustomers.RemovesReferences ⟨"orders"⟩ "public.orders" ∧
      (ordersOfCustomers.removeTable ⟨"orders"⟩).clauseColumns = ["customers.\"sign up\""] ∧
      (ordersOfCustomers.removeTable ⟨"orders"⟩).subqueries = [] := by
  have hids : (ordersOfCustomers.filters.map (·.id)).Nodup := by decide +kernel
  have htable : ordersOfCustomers.table? ⟨"orders"⟩ =
      some (Table.create ⟨"orders"⟩ "public.orders" ["id"] default) := by decide +kernel
  refine ⟨hids, by decide +kernel, (removesReferences_iff hids htable).2 fun _ => ?_,
    by decide +kernel, by decide +kernel⟩
  refine ⟨fun column hcolumn => ?_, fun u hu column hcolumn => ?_⟩
  · rcases List.mem_pair.1 hcolumn with h | h
    · obtain ⟨-, rfl⟩ := Sql.columnRef_injective h
      decide +kernel
    · exact absurd (Sql.columnRef_injective h).1 (by decide)
  · have hname : ∀ u ∈ ordersOfCustomers.tables.eraseP (·.id = ⟨"orders"⟩),
        u.name = "customers" := by decide +kernel
    rw [hname u hu] at hcolumn ⊢
    rcases List.mem_pair.1 hcolumn with h | h
    · exact absurd (Sql.columnRef_injective h).1 (by decide)
    · obtain ⟨-, rfl⟩ := Sql.columnRef_injective h
      decide +kernel

/-- A table, another one whose name is that of the first with quotes in it, and a filter on a column
of each, where the column of the first has a point in its name. -/
def quotedTwin : Block :=
  { Block.empty with
    tables :=
      [Table.create ⟨"plain"⟩ "t" ["a.b"] default, Table.create ⟨"quoted"⟩ "\"t\"" ["x"] default]
    filters :=
      [{ id := ⟨"own"⟩, column := Sql.columnRef "t" "a.b", operator := .eq, operand := .value "1"
         connector := .and },
       { id := ⟨"other"⟩, column := Sql.columnRef "\"t\"" "x", operator := .eq
         operand := .value "2", connector := .and }] }

/-- The filter on the removed table stays, and that on the table that is left goes. -/
theorem references_mistaken :
    quotedTwin.LosesName ⟨"plain"⟩ "t" ∧
      (quotedTwin.removeTable ⟨"plain"⟩).clauseColumns = [Sql.columnRef "t" "a.b"] ∧
      ¬quotedTwin.RemovesReferences ⟨"plain"⟩ "t" := by
  have hlost : quotedTwin.LosesName ⟨"plain"⟩ "t" := by decide +kernel
  have hleft : (quotedTwin.removeTable ⟨"plain"⟩).clauseColumns = [Sql.columnRef "t" "a.b"] := by
    decide +kernel
  refine ⟨hlost, hleft, fun h => (h.alone hlost).forgotten "a.b" ?_⟩
  rw [hleft]
  exact List.mem_singleton.2 rfl

end QueryCanvas.Block
