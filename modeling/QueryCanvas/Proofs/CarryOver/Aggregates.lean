import Mathlib.Data.List.Perm.Subperm
import QueryCanvas.Proofs.Canvas.Results
import QueryCanvas.Proofs.CarryOver.Anchored
import QueryCanvas.Proofs.Shape.Sets
import QueryCanvas.Proofs.Sql.Quote

/-!
# Aggregates that go back around columns

A text does not tell an aggregate around a column from another aggregate, so it is read as one among
the results.  Where the block before had the same aggregate around a column, it goes back there.
Here it is said which aggregates go back, and what the tables and the results are afterwards.
-/

set_option autoImplicit false

namespace QueryCanvas

/-! ## Entries of maps -/

namespace NameMap

universe u

variable {α : Type u}

theorem find?_insertEntry (name key : String) (value : α) (l : List (String × α)) :
    ((insertEntry name value l).find? fun e => e.1 = key).map (·.2) =
      if name = key then some value else (l.find? fun e => e.1 = key).map (·.2) := by
  induction l with
  | nil =>
    by_cases h : name = key
    · simp [insertEntry, h]
    · simp [insertEntry, h]
  | cons e rest ih =>
    rw [insertEntry]
    split
    · by_cases h : name = key
      · simp [h]
      · simp [h]
    · split
      · rename_i heq
        by_cases h : name = key
        · simp [h]
        · have hne : e.1 ≠ key := fun he => h (heq.trans he)
          simp [h, hne]
      · rename_i hne
        by_cases h : e.1 = key
        · have hname : name ≠ key := fun hn => hne (hn.trans h.symm)
          simp [h, hname]
        · simpa [h] using ih

theorem find?_insert (m : NameMap α) (name key : String) (value : α) :
    (m.insert name value).find? key = if name = key then some value else m.find? key :=
  find?_insertEntry name key value m.entries

end NameMap

/-! ## Putting aggregates around columns -/

/-- An aggregate around a column of the tables of a name. -/
structure Put where
  table : String
  column : String
  aggregate : ColumnAggregate

/-- The aggregate as it stands among the results of a query. -/
def Put.shape (p : Put) : AggregateShape :=
  ⟨p.aggregate.function, Sql.columnRef p.table p.column, p.aggregate.aliasName⟩

/-- The aggregate without its identifier. -/
def SelectAggregate.shape (s : SelectAggregate) : AggregateShape :=
  ⟨s.function, s.expression, s.aliasName⟩

namespace Table

/-- Puts an aggregate around a column. -/
def put (t : Table) (p : Put) : Table := t.setAggregate p.column (some p.aggregate)

variable {t : Table}

theorem mem_selected_select {c column : String} :
    c ∈ (t.select column).selected ↔ c ∈ t.selected ∨ c = column := by
  unfold select
  split
  · rename_i hsel
    have hmem : column ∈ t.selected := List.contains_iff_mem.1 hsel
    exact ⟨.inl, fun h => h.elim (fun h => h) fun heq => heq ▸ hmem⟩
  · simp

theorem mem_selected_put {c : String} {p : Put} :
    c ∈ (t.put p).selected ↔ c ∈ t.selected ∨ p.column = c := by
  rw [eq_comm (a := p.column)]
  exact mem_selected_select

theorem aggregates_select (t : Table) (column : String) :
    (t.select column).aggregates = t.aggregates := by
  unfold select
  split <;> rfl

theorem find?_put (t : Table) (p : Put) (c : String) :
    (t.put p).aggregates.find? c =
      if p.column = c then some p.aggregate else t.aggregates.find? c := by
  show ((t.select p.column).aggregates.insert p.column p.aggregate).find? c = _
  rw [NameMap.find?_insert, aggregates_select]

theorem name_put (t : Table) (p : Put) : (t.put p).name = t.name := by
  show (t.select p.column).name = t.name
  unfold select
  split <;> rfl

theorem name_foldl_put (ps : List Put) (t : Table) : (ps.foldl put t).name = t.name := by
  induction ps generalizing t with
  | nil => rfl
  | cons p rest ih => exact (ih (t.put p)).trans (name_put t p)

/-- The chosen columns after aggregates were put around some. -/
theorem mem_selected_foldl_put {c : String} (ps : List Put) (t : Table) :
    c ∈ (ps.foldl put t).selected ↔ c ∈ t.selected ∨ ∃ p ∈ ps, p.column = c := by
  induction ps generalizing t with
  | nil => simp
  | cons p rest ih =>
    rw [List.foldl_cons, ih, mem_selected_put]
    simp [or_assoc]

/-- The columns without an aggregate after aggregates were put around some. -/
theorem find?_foldl_put_eq_none {c : String} (ps : List Put) (t : Table) :
    (ps.foldl put t).aggregates.find? c = none ↔
      t.aggregates.find? c = none ∧ ∀ p ∈ ps, p.column ≠ c := by
  induction ps generalizing t with
  | nil => simp
  | cons p rest ih =>
    rw [List.foldl_cons, ih, find?_put, List.forall_mem_cons]
    by_cases h : p.column = c
    · simp [h]
    · simp [h]

theorem mem_plainColumns {x : String} :
    x ∈ t.plainColumns ↔
      ∃ c ∈ t.selected, t.aggregates.find? c = none ∧ Sql.columnRef t.name c = x := by
  simp only [plainColumns, List.mem_map, List.mem_filter, mem_orderedSelection,
    Option.isNone_iff_eq_none, and_assoc]

end Table

namespace Block

/-! ## Which aggregates go back -/

/-- The aggregates around columns of a block. -/
def puts (b : Block) : List Put :=
  b.tables.flatMap fun t => t.aggregates.entries.map fun e => ⟨t.name, e.1, e.2⟩

/-- The aggregates among the results of a block. -/
def results (b : Block) : List AggregateShape := b.aggregates.map SelectAggregate.shape

/-- The names of the tables. -/
def tableNames (b : Block) : List String := b.tables.map (·.name)

/-- Takes an aggregate from the results and puts it around a column. -/
def putBack (b : Block) (p : Put) : Block :=
  { b with
    aggregates := b.aggregates.eraseP (·.shape = p.shape)
    tables := updateFirst (·.name = p.table) (·.put p) b.tables }

/-- The aggregates that go back around columns, if the given results are left: each that is among
them, around a column of a table that is there. -/
def restored (names : List String) : List AggregateShape → List Put → List Put
  | _, [] => []
  | left, p :: rest =>
    if p.shape ∈ left ∧ p.table ∈ names then p :: restored names (left.erase p.shape) rest
    else restored names left rest

theorem restoreAggregate_eq (b : Block) (p : Put) :
    b.restoreAggregate p.table p.column p.aggregate =
      if p.shape ∈ b.results ∧ p.table ∈ b.tableNames then b.putBack p else b := by
  have hsame : (fun s : SelectAggregate => decide (s.function = p.aggregate.function) &&
      decide (s.expression = Sql.columnRef p.table p.column) &&
      decide (s.aliasName = p.aggregate.aliasName)) = fun s => decide (s.shape = p.shape) := by
    funext s
    simp [SelectAggregate.shape, Put.shape, Bool.and_assoc]
  have hthere : (b.aggregates.any (fun s => decide (s.shape = p.shape)) &&
      b.tables.any fun t => decide (t.name = p.table)) = true ↔
        p.shape ∈ b.results ∧ p.table ∈ b.tableNames := by
    simp [results, tableNames]
  unfold restoreAggregate
  dsimp only
  rw [hsame]
  by_cases h : p.shape ∈ b.results ∧ p.table ∈ b.tableNames
  · rw [if_pos h, if_pos (hthere.2 h)]
    rfl
  · rw [if_neg h, if_neg fun hany => h (hthere.1 hany)]

theorem restoreAggregates_eq_foldl (old b : Block) :
    restoreAggregates old b =
      old.puts.foldl (fun b p => b.restoreAggregate p.table p.column p.aggregate) b := by
  rw [puts, List.foldl_flatMap]
  simp only [List.foldl_map]
  rfl

theorem results_putBack (b : Block) (p : Put) :
    (b.putBack p).results = b.results.erase p.shape := by
  rw [results, results, List.erase_eq_eraseP', List.eraseP_map]
  rfl

theorem tableNames_putBack (b : Block) (p : Put) : (b.putBack p).tableNames = b.tableNames :=
  map_updateFirst (fun t => t.name_put p) b.tables

/-- Exactly the restored aggregates are put back, one after the other. -/
theorem restoreAggregates_eq (old b : Block) :
    restoreAggregates old b = (restored b.tableNames b.results old.puts).foldl putBack b := by
  rw [restoreAggregates_eq_foldl]
  induction old.puts generalizing b with
  | nil => rfl
  | cons p rest ih =>
    rw [List.foldl_cons, ih, restoreAggregate_eq, restored]
    split
    · rw [tableNames_putBack, results_putBack, List.foldl_cons]
    · rfl

/-- Aggregates that go back are among the results, each as often as it goes back. -/
theorem restored_subperm (names : List String) (left : List AggregateShape) (ps : List Put) :
    ((restored names left ps).map Put.shape).Subperm left := by
  induction ps generalizing left with
  | nil => exact List.nil_subperm
  | cons p rest ih =>
    rw [restored]
    split
    · rename_i hthere
      rw [List.map_cons]
      exact ((List.subperm_cons p.shape).2 (ih (left.erase p.shape))).trans
        (List.perm_cons_erase hthere.1).symm.subperm
    · exact ih left

/-! ## What putting back changes -/

/-- Only tables and results change. -/
theorem foldl_putBack (ps : List Put) (b : Block) :
    ∃ tables aggregates, ps.foldl putBack b = { b with tables, aggregates } := by
  induction ps generalizing b with
  | nil => exact ⟨b.tables, b.aggregates, by cases b; rfl⟩
  | cons p rest ih => exact ih (b.putBack p)

theorem results_foldl_putBack (ps : List Put) (b : Block) :
    (ps.foldl putBack b).results = b.results.diff (ps.map Put.shape) := by
  induction ps generalizing b with
  | nil => rfl
  | cons p rest ih => rw [List.foldl_cons, ih, results_putBack, List.map_cons, List.diff_cons]

/-- Where names are different, changing the first table of a name changes all tables of it. -/
theorem updateFirst_name {tables : List Table} (hnames : (tables.map (·.name)).Nodup)
    (name : String) (f : Table → Table) :
    updateFirst (·.name = name) f tables =
      tables.map fun t => if t.name = name then f t else t := by
  induction tables with
  | nil => rfl
  | cons t rest ih =>
    obtain ⟨hfirst, hrest⟩ := List.nodup_cons.1 hnames
    rw [updateFirst, List.map_cons]
    by_cases h : t.name = name
    · rw [if_pos (decide_eq_true h), if_pos h]
      congr 1
      refine ((List.map_congr_left fun u hu => if_neg fun hu' => hfirst ?_).trans
        (List.map_id rest)).symm
      exact List.mem_map.2 ⟨u, hu, hu'.trans h.symm⟩
    · rw [if_neg (by simpa using h), if_neg h, ih hrest]

/-- The tables after aggregates were put back: each table gets those of its name. -/
theorem tables_foldl_putBack (ps : List Put) (b : Block) (hnames : b.tableNames.Nodup) :
    (ps.foldl putBack b).tables =
      b.tables.map fun t => (ps.filter (·.table = t.name)).foldl Table.put t := by
  induction ps generalizing b with
  | nil => simp
  | cons p rest ih =>
    have hput : (b.putBack p).tables =
        b.tables.map fun t => if t.name = p.table then t.put p else t :=
      updateFirst_name hnames p.table (·.put p)
    rw [List.foldl_cons, ih (b.putBack p) (by rwa [tableNames_putBack]), hput, List.map_map]
    refine List.map_congr_left fun t _ => ?_
    show List.foldl Table.put (if t.name = p.table then t.put p else t)
      (rest.filter fun q => q.table = (if t.name = p.table then t.put p else t).name) = _
    by_cases h : t.name = p.table
    · rw [if_pos h, Table.name_put, List.filter_cons_of_pos (by simp [h]), List.foldl_cons]
    · rw [if_neg h, List.filter_cons_of_neg (by simpa using fun heq => h heq.symm)]

/-! ## What is carried over -/

/-- The aggregates that go back around columns where a block takes over from the one before. -/
def takenBack (old b : Block) : List Put := restored b.tableNames b.results old.puts

/-- The aggregates around columns, in the order in which the tables list them. -/
def listed (b : Block) : List AggregateShape := b.tables.flatMap Table.columnAggregates

theorem name_carryTable (old : Block) (t : Table) : (carryTable old t).name = t.name := by
  unfold carryTable
  split <;> rfl

theorem selected_carryTable (old : Block) (t : Table) :
    (carryTable old t).selected = t.selected := by
  unfold carryTable
  split <;> rfl

theorem aggregates_carryTable (old : Block) (t : Table) :
    (carryTable old t).aggregates = t.aggregates := by
  unfold carryTable
  split <;> rfl

/-- The table in place of a new one, with the aggregates that go back to it. -/
def carriedTable (old b : Block) (t : Table) : Table :=
  ((takenBack old b).filter (·.table = t.name)).foldl Table.put (carryTable old t)

/-- A block after its tables and joins took over what they do, before aggregates go back. -/
def renamed (old b : Block) : Block :=
  { b with
    tables := b.tables.map (carryTable old)
    joins := b.joins.map (carryJoin old (tableRenaming old b.tables)) }

theorem tableNames_renamed (old b : Block) : (renamed old b).tableNames = b.tableNames := by
  rw [tableNames, tableNames, renamed, List.map_map]
  exact List.map_congr_left fun t _ => name_carryTable old t

theorem restoreAggregates_renamed (old b : Block) :
    restoreAggregates old (renamed old b) = (takenBack old b).foldl putBack (renamed old b) := by
  rw [restoreAggregates_eq, tableNames_renamed]
  rfl

theorem carryOver_tables (old b : Block) (hnames : b.tableNames.Nodup) :
    (old.carryOver b).tables = b.tables.map (carriedTable old b) := by
  rw [carryOver_eq]
  show (restoreAggregates old (renamed old b)).tables = _
  rw [restoreAggregates_renamed, tables_foldl_putBack _ _ (by rwa [tableNames_renamed]), renamed,
    List.map_map]
  refine List.map_congr_left fun t _ => ?_
  rw [Function.comp_apply, name_carryTable]
  rfl

theorem carryOver_results (old b : Block) :
    (old.carryOver b).results = b.results.diff ((takenBack old b).map Put.shape) := by
  rw [carryOver_eq]
  show (restoreAggregates old (renamed old b)).results = _
  rw [restoreAggregates_renamed, results_foldl_putBack]
  rfl

/-! ## When the results stay the same -/

/-- The aggregates that go back leave the results of a block as they are. -/
structure AggregatesInPlace (old b : Block) : Prop where
  /-- No column that an aggregate goes back to is chosen by itself. -/
  unchosen : ∀ p ∈ takenBack old b, ∀ t ∈ b.tables, t.name = p.table → p.column ∉ t.selected
  /-- The tables list each aggregate that went back, and each once. -/
  once : (old.carryOver b).listed.Perm ((takenBack old b).map Put.shape)
  /-- These aggregates come first among the results, in the order in which the tables list them. -/
  first : (old.carryOver b).listed <+: b.results

variable {lo hi : Nat} {ctes : List EntityId} {old b : Block}

theorem Drawn.nodup_names (hb : b.Drawn lo hi ctes) : b.tableNames.Nodup := by
  refine hb.names.imp ?_
  rintro name _ hne rfl
  exact hne (Text.sameName_refl name)

/-- The plainly chosen columns of a carried table: those that no aggregate went back to. -/
theorem mem_plainColumns_carriedTable {t : Table} {x : String} (hplain : t.aggregates = .empty) :
    x ∈ (carriedTable old b t).plainColumns ↔
      ∃ c ∈ t.selected, (∀ p ∈ takenBack old b, p.table = t.name → p.column ≠ c) ∧
        Sql.columnRef t.name c = x := by
  have hname : (carriedTable old b t).name = t.name :=
    (Table.name_foldl_put _ _).trans (name_carryTable old t)
  rw [Table.mem_plainColumns, hname]
  refine exists_congr fun c => ?_
  rw [carriedTable, Table.mem_selected_foldl_put, Table.find?_foldl_put_eq_none,
    selected_carryTable, aggregates_carryTable, hplain]
  simp only [List.mem_filter, decide_eq_true_eq, and_imp]
  constructor
  · rintro ⟨hsel | ⟨p, hp, hc⟩, ⟨-, hnone⟩, hx⟩
    · exact ⟨hsel, hnone, hx⟩
    · exact (hnone p hp.1 hp.2 hc).elim
  · rintro ⟨hsel, hnone, hx⟩
    exact ⟨.inl hsel, ⟨rfl, hnone⟩, hx⟩

/-- The plainly chosen columns stay the same exactly if no aggregate goes back to one of them. -/
theorem columns_carryOver_iff (old : Block) (hb : b.Drawn lo hi ctes) :
    textSet ((old.carryOver b).tables.flatMap Table.plainColumns) =
        textSet (b.tables.flatMap Table.plainColumns) ↔
      ∀ p ∈ takenBack old b, ∀ t ∈ b.tables, t.name = p.table → p.column ∉ t.selected := by
  have hafter : ∀ x, x ∈ (old.carryOver b).tables.flatMap Table.plainColumns ↔
      ∃ t ∈ b.tables, ∃ c ∈ t.selected, (∀ p ∈ takenBack old b, p.table = t.name → p.column ≠ c) ∧
        Sql.columnRef t.name c = x := by
    intro x
    rw [carryOver_tables old b hb.nodup_names, List.flatMap_map, List.mem_flatMap]
    exact exists_congr fun t => and_congr_right fun ht =>
      mem_plainColumns_carriedTable (hb.plain t ht)
  have hbefore : ∀ x, x ∈ b.tables.flatMap Table.plainColumns ↔
      ∃ t ∈ b.tables, ∃ c ∈ t.selected, Sql.columnRef t.name c = x := by
    intro x
    rw [List.mem_flatMap]
    refine exists_congr fun t => and_congr_right fun ht => ?_
    rw [Table.mem_plainColumns, hb.plain t ht]
    exact exists_congr fun c => and_congr_right fun _ => and_iff_right rfl
  rw [textSet_eq_iff]
  constructor
  · intro hsame p hp t ht hname hsel
    have hmem := (hsame (Sql.columnRef t.name p.column)).2
      ((hbefore _).2 ⟨t, ht, p.column, hsel, rfl⟩)
    obtain ⟨u, -, c, -, hnone, hx⟩ := (hafter _).1 hmem
    obtain ⟨hu, hc⟩ := Sql.columnRef_injective hx
    exact hnone p hp (hname.symm.trans hu.symm) hc.symm
  · intro hunchosen x
    rw [hafter, hbefore]
    constructor
    · rintro ⟨t, ht, c, hc, -, hx⟩
      exact ⟨t, ht, c, hc, hx⟩
    · rintro ⟨t, ht, c, hc, hx⟩
      refine ⟨t, ht, c, hc, fun p hp hname heq => ?_, hx⟩
      exact hunchosen p hp t ht hname.symm (heq ▸ hc)

theorem listed_eq_nil (hb : b.Drawn lo hi ctes) : b.listed = [] := by
  refine List.flatMap_eq_nil_iff.2 fun t ht => ?_
  rw [Table.columnAggregates, hb.plain t ht]
  exact List.filterMap_eq_nil_iff.2 fun _ _ => rfl

/-- Putting a list in front of what is left of another list without some members gives the other
list exactly if the first one is made up of these members and stands at the beginning. -/
theorem append_diff_eq_iff {α : Type} [DecidableEq α] {front taken all : List α}
    (hsub : taken.Subperm all) :
    front ++ all.diff taken = all ↔ front.Perm taken ∧ front <+: all := by
  have hall : (taken ++ all.diff taken).Perm all :=
    List.subperm_append_diff_self_of_count_le fun x _ => hsub.count_le x
  constructor
  · intro h
    refine ⟨(List.perm_append_right_iff (all.diff taken)).1 ?_, ⟨_, h⟩⟩
    rw [h]
    exact hall.symm
  · rintro ⟨hperm, rest, rfl⟩
    have hskip : ∀ (front rest : List α), (front ++ rest).diff front = rest := by
      intro front rest
      induction front with
      | nil => rfl
      | cons a front ih => rw [List.cons_append, List.diff_cons, List.erase_cons_head, ih]
    rw [← hperm.diff_left, hskip]

/-- The aggregates stay the same exactly if those that go back come first, and each is listed
once. -/
theorem aggregates_carryOver_iff (old : Block) (hb : b.Drawn lo hi ctes) :
    (old.carryOver b).listed ++ (old.carryOver b).results = b.listed ++ b.results ↔
      (old.carryOver b).listed.Perm ((takenBack old b).map Put.shape) ∧
        (old.carryOver b).listed <+: b.results := by
  rw [carryOver_results, listed_eq_nil hb, List.nil_append]
  exact append_diff_eq_iff (restored_subperm _ _ _)

end Block

end QueryCanvas
