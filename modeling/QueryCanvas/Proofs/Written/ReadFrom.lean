import QueryCanvas.Proofs.Canvas.Numbered
import QueryCanvas.Proofs.Reading.Clauses
import QueryCanvas.Proofs.Reading.Heeded
import QueryCanvas.Proofs.Reading.Sources
import QueryCanvas.Proofs.Written.Canonical
import QueryCanvas.Proofs.Written.Normal

/-!
# Reading the `FROM` clause of a written select

Every table, join and nested query of a written `FROM` clause can be read.  The draft that this
leads to knows each table by its own name, and nothing in it is written in capitals.  So names refer
to the tables of these very names, and columns are written as they were.
-/

set_option autoImplicit false

namespace QueryCanvas.Sql

section Drafts

/-! ## Scopes without capitals -/

/-- The columns that a table of that name declares. -/
def Scope.declared (s : Scope) (name : String) : List String :=
  match s.ctes.find? (Text.sameName ·.name name) with
  | some q => q.block.outputColumns
  | none => s.catalog.columns name

/-- The named queries and the columns that are known are written without capitals. -/
structure Scope.Lower (s : Scope) : Prop where
  names : ∀ q ∈ s.ctes, q.name.toLower = q.name
  columns : ∀ name, ∀ c ∈ s.declared name, c.toLower = c

/-- Without capitals, names are the same only if they are equal. -/
theorem eq_of_sameName {a b : String} (h : Text.sameName a b) (ha : a.toLower = a)
    (hb : b.toLower = b) : a = b := by
  rw [Text.sameName, beq_iff_eq, ha, hb] at h
  exact h

/-- The table that a name stands for. -/
def Scope.box (s : Scope) (id : EntityId) (name : String) : Table :=
  match s.ctes.find? (Text.sameName ·.name name) with
  | some q => { Table.create id q.name q.block.outputColumns default with cte := some q.id }
  | none => Table.create id name (s.catalog.columns name) default

/-- A new table of that name, in which nothing is chosen. -/
structure Scope.Boxes (s : Scope) (t : Table) : Prop where
  columns : t.columns = s.declared t.name
  selected : t.selected = []
  aggregates : t.aggregates = .empty

variable {s : Scope} {name : String} {n n' : Nat} {d : Draft}

theorem Scope.Lower.box (hs : s.Lower) (hname : name.toLower = name) (id : EntityId) :
    (s.box id name).id = id ∧ (s.box id name).name = name ∧ s.Boxes (s.box id name) := by
  unfold Scope.box
  cases hfind : s.ctes.find? (Text.sameName ·.name name) with
  | none => exact ⟨rfl, rfl, by simp [Table.create, Scope.declared, hfind], rfl, rfl⟩
  | some q =>
    have hsame : q.name = name := by
      have hfound := List.find?_some (p := fun q : Cte => Text.sameName q.name name) hfind
      exact eq_of_sameName hfound (hs.names q (List.mem_of_find?_eq_some hfind)) hname
    exact ⟨rfl, hsame, by simp [Table.create, Scope.declared, hsame, hfind], rfl, rfl⟩

/-! ## Drafts -/

/-- The name by which a table is known. -/
def knownAs (t : Table) : SourceName := ⟨t.name, some (t.id, t.name)⟩

/-- A draft of which tables and joins were read, each table under its own name. -/
structure Draft.Entered (s : Scope) (lo n : Nat) (d : Draft) : Prop where
  sources : ∃ aliases : List String, (∀ a ∈ aliases, a.toLower = a) ∧
    d.sources = d.block.tables.map knownAs ++ aliases.map (⟨·, none⟩)
  names : (d.block.tables.map (·.name)).Nodup
  lower : ∀ t ∈ d.block.tables, t.name.toLower = t.name
  ids : Serial lo n (d.block.tables.map (·.id))
  boxes : ∀ t ∈ d.block.tables, s.Boxes t

namespace Draft.Entered

variable {lo : Nat} {t : Table} {c : String}

theorem table? (h : d.Entered s lo n) (ht : t ∈ d.block.tables) :
    d.block.table? t.id = some t := find?_of_nodup h.ids.nodup ht

theorem find?_knownAs {l : List Table} (hnames : (l.map (·.name)).Nodup)
    (hlower : ∀ t ∈ l, t.name.toLower = t.name) (ht : t ∈ l) :
    (l.map knownAs).find? (Text.sameName ·.key t.name) = some (knownAs t) := by
  induction l with
  | nil => cases ht
  | cons u l ih =>
    obtain ⟨hnew, hrest⟩ := List.nodup_cons.1 hnames
    rw [List.map_cons, List.find?_cons]
    rcases List.mem_cons.1 ht with rfl | hmem
    · rw [knownAs, Text.sameName_refl]
    · have hother : Text.sameName (knownAs u).key t.name = false := by
        refine Bool.eq_false_iff.2 fun hsame => hnew ?_
        have heq : u.name = t.name :=
          eq_of_sameName hsame (hlower u List.mem_cons_self) (hlower t ht)
        exact List.mem_map.2 ⟨t, hmem, heq.symm⟩
      rw [hother]
      exact ih hrest (fun v hv => hlower v (List.mem_cons_of_mem _ hv)) hmem

/-- A table is found by its name. -/
theorem source? (h : d.Entered s lo n) (ht : t ∈ d.block.tables) :
    d.source? t.name = some (knownAs t) := by
  obtain ⟨aliases, -, hsources⟩ := h.sources
  rw [Draft.source?, hsources, List.find?_append, find?_knownAs h.names h.lower ht]
  rfl

/-- What is found by a name is the table of that very name, or no table. -/
theorem of_source? (h : d.Entered s lo n) (hname : name.toLower = name) {k : SourceName}
    (hk : d.source? name = some k) : k.table = none ∨ ∃ t ∈ d.block.tables, t.name = name ∧
      k = knownAs t := by
  obtain ⟨aliases, -, hsources⟩ := h.sources
  have hmem : k ∈ d.sources := List.mem_of_find?_eq_some hk
  have hsame := List.find?_some (p := fun k : SourceName => Text.sameName k.key name) hk
  rw [hsources, List.mem_append] at hmem
  rcases hmem with hmem | hmem
  · obtain ⟨t, ht, rfl⟩ := List.mem_map.1 hmem
    exact .inr ⟨t, ht, eq_of_sameName hsame (h.lower t ht) hname, rfl⟩
  · obtain ⟨a, -, rfl⟩ := List.mem_map.1 hmem
    exact .inl rfl

/-- A column is declared in the spelling in which it is written. -/
theorem declared (h : d.Entered s lo n) (hs : s.Lower) (ht : t ∈ d.block.tables)
    (hc : c.toLower = c) : d.declared t.id c = c := by
  rw [Draft.declared, h.table? ht]
  show (t.columns.find? (Text.sameName · c)).getD c = c
  cases hfind : t.columns.find? (Text.sameName · c) with
  | none => rfl
  | some c' =>
    have hsame := List.find?_some (p := fun c' : String => Text.sameName c' c) hfind
    have hmem : c' ∈ s.declared t.name := by
      rw [← (h.boxes t ht).columns]
      exact List.mem_of_find?_eq_some hfind
    exact eq_of_sameName hsame (hs.columns _ c' hmem) hc

/-- A column is written as it was. -/
theorem columnText (h : d.Entered s lo n) (hs : s.Lower) {c : TableColumn} (hc : c.Plain) :
    d.columnText ⟨some c.table, c.column⟩ = c.text := by
  unfold Draft.columnText
  simp only
  cases hsource : d.source? c.table with
  | none => rfl
  | some k =>
    rcases h.of_source? hc.table.lower hsource with hnone | ⟨t, ht, hname, rfl⟩
    · rw [Option.bind_some, hnone]
      rfl
    · show columnRef t.name (d.declared t.id c.column) = _
      rw [h.declared hs ht hc.column.lower, hname]
      rfl

end Draft.Entered

theorem columnName?_part (c : TableColumn) :
    c.part.value.columnName? = some ⟨some c.table, c.column⟩ := rfl

end Drafts

section Clause

open Drafting

variable {s : Scope} {name : String} {lo n : Nat} {d : Draft} {t u v : Table}

/-! ## Tables -/

/-- The draft with further tables and joins. -/
def Draft.joining (d : Draft) (ts : List Table) (js : List Join) : Draft :=
  { d with
    sources := d.sources ++ ts.map knownAs
    block := { d.block with tables := d.block.tables ++ ts, joins := d.block.joins ++ js } }

theorem Draft.joining_joining (d : Draft) (ts ts' : List Table) (js js' : List Join) :
    (d.joining ts js).joining ts' js' = d.joining (ts ++ ts') (js ++ js') := by
  simp [Draft.joining]

theorem Draft.joining_nil (d : Draft) : d.joining [] [] = d := by
  obtain ⟨⟨⟩, sources, aliases⟩ := d
  simp only [Draft.joining, List.map_nil, List.append_nil]

/-- Only tables were read so far, and the joins between them. -/
structure Draft.Plain (s : Scope) (lo n : Nat) (d : Draft) : Prop extends d.Entered s lo n where
  known : d.sources = d.block.tables.map knownAs
  le : lo ≤ n

theorem Draft.Plain.table (h : d.Plain s lo n) (hid : t.id = EntityId.minted n)
    (hlower : t.name.toLower = t.name) (hnew : t.name ∉ d.block.tables.map (·.name))
    (hbox : s.Boxes t) : (d.joining [t] []).Plain s lo (n + 1) := by
  have hknown : (d.joining [t] []).sources = (d.joining [t] []).block.tables.map knownAs := by
    simp [Draft.joining, h.known]
  have htables : (d.joining [t] []).block.tables = d.block.tables ++ [t] := rfl
  refine ⟨⟨⟨[], by simp, by rw [hknown, List.map_nil, List.append_nil]⟩, ?_, ?_, ?_, ?_⟩, hknown,
    Nat.le_succ_of_le h.le⟩
  · rw [htables, List.map_append]
    refine List.nodup_append.2 ⟨h.names, by simp, ?_⟩
    rintro a ha b hb rfl
    rw [List.map_singleton, List.mem_singleton] at hb
    exact hnew (hb ▸ ha)
  · rw [htables]
    simpa [or_imp, forall_and] using ⟨h.lower, hlower⟩
  · rw [htables, List.map_append, List.map_singleton, hid]
    exact h.ids.push h.le
  · rw [htables]
    simpa [or_imp, forall_and] using ⟨h.boxes, hbox⟩

theorem Draft.Plain.joins (h : d.Plain s lo n) (js : List Join) {n' : Nat} (hn : n ≤ n') :
    (d.joining [] js).Plain s lo n' := by
  have htables : (d.joining [] js).block.tables = d.block.tables := List.append_nil _
  have hknown : (d.joining [] js).sources = (d.joining [] js).block.tables.map knownAs := by
    rw [htables, ← h.known]
    exact List.append_nil _
  refine ⟨⟨⟨[], by simp, by rw [hknown, List.map_nil, List.append_nil]⟩, ?_, ?_, ?_, ?_⟩, hknown,
    Nat.le_trans h.le hn⟩
  · rw [htables]
    exact h.names
  · rw [htables]
    exact h.lower
  · rw [htables]
    exact h.ids.mono (Nat.le_refl lo) hn
  · rw [htables]
    exact h.boxes

/-- How a table without an alias is read. -/
theorem readTable_bare : readTable s [.bare name] none = (do
    if ((← get).block.tableNamed? name).isSome then
      refuse ("table " ++ name ++ " referenced more than once")
    let id ← mint
    modify fun d =>
      { d with
        sources := d.sources ++ [⟨(s.box id name).name, some (id, (s.box id name).name)⟩]
        block := d.block.addTable (s.box id name) }
    return id) := by
  have hpath : plainPath [.bare name] = name := rfl
  unfold readTable
  simp only [hpath, List.length_singleton, if_true, Option.any_none, Option.map_none,
    Option.toList_none, List.append_nil]
  rfl

/-- A table of a new name can be read. -/
theorem goes_table (hs : s.Lower) (h : d.Plain s lo n) (hname : name.toLower = name)
    (hnew : name ∉ d.block.tables.map (·.name)) :
    ∃ t, t.name = name ∧ Goes (readSource s (tablePart name).value) n d (some t.id) (n + 1)
      (d.joining [t] []) ∧ (d.joining [t] []).Plain s lo (n + 1) := by
  obtain ⟨hid, hnamed, hbox⟩ := hs.box hname (EntityId.minted n)
  have hnone : d.block.tableNamed? name = none := by
    refine List.find?_eq_none.2 fun u hu hsame => hnew ?_
    rw [← eq_of_sameName hsame (h.lower u hu) hname]
    exact List.mem_map_of_mem hu
  refine ⟨s.box (EntityId.minted n) name, hnamed, ?_, ?_⟩
  · have hjoined : d.joining [s.box (EntityId.minted n) name] [] = { d with
        sources := d.sources ++ [⟨(s.box (EntityId.minted n) name).name,
          some (EntityId.minted n, (s.box (EntityId.minted n) name).name)⟩]
        block := d.block.addTable (s.box (EntityId.minted n) name) } := by
      simp [Draft.joining, knownAs, Block.addTable, hid]
    rw [tablePart, readSource, Goes.guard_iff, Goes.map_iff, readTable_bare, hjoined, hid]
    simp [hnone]
  · refine h.table hid ?_ ?_ hbox <;> rw [hnamed]
    · exact hname
    · exact hnew

/-! ## Joins -/

theorem joinSide_column (hs : s.Lower) (h : d.Plain s lo n) {c : TableColumn} (hc : c.Plain)
    (hu : u ∈ d.block.tables) (hname : u.name = c.table) :
    joinSide c.part.value d = .ok (u.id, c.column) := by
  have hsource : d.source? c.table = some (knownAs u) := by
    rw [← hname]
    exact h.source? hu
  rw [joinSide, columnName?_part]
  simp only [hsource, knownAs, Option.bind_some, h.declared hs hu hc.column.lower]

/-- The join of an equality between columns of two tables. -/
def equalityJoin (n : Nat) (kind : JoinKind) (u v : Table) (c : TableColumn × TableColumn) : Join :=
  ⟨EntityId.minted n, u.id, c.1.column, v.id, c.2.column, kind⟩

theorem goes_equality (hs : s.Lower) (h : d.Plain s lo n) {c : TableColumn × TableColumn}
    (hc : c.1.Plain ∧ c.2.Plain) (hu : u ∈ d.block.tables) (hv : v ∈ d.block.tables)
    (hun : u.name = c.1.table) (hvn : v.name = c.2.table) (hne : u.id ≠ v.id) {joined : EntityId}
    (hjoined : u.id = joined ∨ v.id = joined) (kind : JoinKind) :
    Goes (readEquality joined kind (WrittenStep.equality c).value) n d () (n + 1)
      (d.joining [] [equalityJoin n kind u v c]) := by
  have hcan : d.block.canJoin u.id v.id = true := by
    simp [Block.canJoin, h.table? hu, h.table? hv, hne]
  have hadd : d.joining [] [equalityJoin n kind u v c] =
      { d with block := d.block.addJoin (equalityJoin n kind u v c) } := by
    simp [Draft.joining, Block.addJoin, equalityJoin, hcan]
  rw [hadd]
  simp only [WrittenStep.equality, comparePart, readEquality, Goes.bind_iff, Goes.ask_iff,
    joinSide_column hs h hc.1 hu hun]
  refine ⟨_, _, _, ⟨rfl, rfl, rfl⟩, _, _, _, ⟨joinSide_column hs h hc.2 hv hvn, rfl, rfl⟩, ?_⟩
  simp only [Goes.guard_iff, Goes.bind_iff, Goes.get_iff, Goes.mint_iff, Goes.edit_iff]
  refine ⟨hne, ?_, _, _, _, ⟨rfl, rfl, rfl⟩, by simp [hcan], _, _, _, ⟨rfl, rfl, rfl⟩, rfl, rfl⟩
  rcases hjoined with rfl | rfl <;> simp

/-- What a join is read off: it compares the columns of a table that is joined and of one before
it. -/
structure JoinRead (before : List Table) (kind : JoinKind) (t : Table)
    (c : TableColumn × TableColumn) (j : Join) : Prop where
  kind : j.kind = kind
  columns : j.sourceColumn = c.1.column ∧ j.targetColumn = c.2.column
  tables : ∃ u ∈ before,
    (j.sourceTable = u.id ∧ c.1.table = u.name ∧ j.targetTable = t.id ∧ c.2.table = t.name) ∨
      (j.sourceTable = t.id ∧ c.1.table = t.name ∧ j.targetTable = u.id ∧ c.2.table = u.name)

/-- All conditions of a step can be read. -/
theorem goes_equalities (hs : s.Lower) {before : List Table} (kind : JoinKind)
    {cs : List (TableColumn × TableColumn)} : ∀ {n : Nat} {d : Draft}, d.Plain s lo n →
    (∀ u ∈ before, u ∈ d.block.tables ∧ u.id ≠ t.id) → t ∈ d.block.tables →
    (∀ c ∈ cs, c.1.Plain ∧ c.2.Plain) →
    (∀ c ∈ cs, ∃ u ∈ before, (c.1.table = u.name ∧ c.2.table = t.name) ∨
      (c.1.table = t.name ∧ c.2.table = u.name)) →
    ∃ n' js, Goes (cs.forM fun c => readEquality t.id kind (WrittenStep.equality c).value) n d ()
        n' (d.joining [] js) ∧ n ≤ n' ∧ cs.Forall₂ (JoinRead before kind t) js := by
  induction cs with
  | nil =>
    intro n d h _ _ _ _
    exact ⟨n, [], Goes.forM_nil.2 ⟨rfl, d.joining_nil⟩, Nat.le_refl n, .nil⟩
  | cons c cs ih =>
    intro n d h hbefore ht hplain htied
    obtain ⟨hc, hplain⟩ := List.forall_mem_cons.1 hplain
    obtain ⟨⟨u, hu, hties⟩, htied⟩ := List.forall_mem_cons.1 htied
    obtain ⟨humem, hne⟩ := hbefore u hu
    have hstep : ∃ j, Goes (readEquality t.id kind (WrittenStep.equality c).value) n d () (n + 1)
        (d.joining [] [j]) ∧ JoinRead before kind t c j := by
      rcases hties with ⟨hleft, hright⟩ | ⟨hleft, hright⟩
      · exact ⟨_, goes_equality hs h hc humem ht hleft.symm hright.symm hne (.inr rfl) kind, rfl,
          ⟨rfl, rfl⟩, u, hu, .inl ⟨rfl, hleft, rfl, hright⟩⟩
      · exact ⟨_, goes_equality hs h hc ht humem hleft.symm hright.symm hne.symm (.inl rfl) kind,
          rfl, ⟨rfl, rfl⟩, u, hu, .inr ⟨rfl, hleft, rfl, hright⟩⟩
    obtain ⟨j, hj, hread⟩ := hstep
    have htables : (d.joining [] [j]).block.tables = d.block.tables := List.append_nil _
    obtain ⟨n', js, hrest, hle, hall⟩ := ih (h.joins [j] (Nat.le_succ n)) (by rwa [htables])
      (by rwa [htables]) hplain htied
    refine ⟨n', j :: js, Goes.forM_cons.2 ⟨n + 1, _, hj, ?_⟩, by omega, .cons hread hall⟩
    rw [Draft.joining_joining] at hrest
    exact hrest

/-! ## Steps -/

/-- The steps are read off written ones, behind the given tables. -/
inductive StepsRead : List Table → List WrittenStep → List JoinStep → Prop where
  | nil {before : List Table} : StepsRead before [] []
  | cons {before : List Table} {w : WrittenStep} {ws : List WrittenStep} {t : Table}
      {js : List Join} {steps : List JoinStep} (hname : t.name = w.joined)
      (hjoins : w.conditions.Forall₂ (JoinRead before w.kind t) js)
      (hrest : StepsRead (before ++ [t]) ws steps) :
      StepsRead before (w :: ws) (⟨w.kind, some t, js⟩ :: steps)

theorem StepsRead.names {before : List Table} {ws : List WrittenStep} {steps : List JoinStep}
    (h : StepsRead before ws steps) :
    (steps.filterMap (·.joined)).map (·.name) = ws.map (·.joined) := by
  induction h with
  | nil => rfl
  | @cons before w ws t js steps hname _ _ ih =>
    show t.name :: (steps.filterMap (·.joined)).map (·.name) = w.joined :: ws.map (·.joined)
    rw [hname, ih]

/-- The condition of a written step is read equality by equality. -/
theorem readConstraint_step {joined : EntityId} {kind : JoinKind}
    {cs : List (TableColumn × TableColumn)} (hne : cs ≠ []) :
    readConstraint joined kind
        (.on (wholeTree (memberValues (cs.map fun c => (WrittenStep.equality c, .and))))) =
      cs.forM fun c => readEquality joined kind (WrittenStep.equality c).value := by
  have hlast : ∀ l : List (TableColumn × TableColumn),
      updateLast (fun x : Expr × Connector => (x.1, Connector.and))
          (memberValues (l.map fun c => (WrittenStep.equality c, .and))) =
        l.map fun c => ((WrittenStep.equality c).value, .and) := by
    intro l
    induction l with
    | nil => rfl
    | cons c l ih =>
      rw [List.map_cons, List.map_cons, ← ih]
      cases l <;> rfl
  have hconditions : (wholeTree
      (memberValues (cs.map fun c => (WrittenStep.equality c, .and)))).conditions .and =
        cs.map fun c => ((WrittenStep.equality c).value, .and) := by
    rw [conditions_wholeTree, hlast]
    · simpa [memberValues] using hne
    · intro x hx k
      simp only [memberValues, List.map_map] at hx
      obtain ⟨c, -, rfl⟩ := List.mem_map.1 hx
      rfl
  have hand : (cs.map fun c => ((WrittenStep.equality c).value, Connector.and)).any
      (·.2 = .or) = false := by
    simp
  rw [readConstraint, readJoinCondition, hconditions]
  simp only [hand, Bool.false_eq_true, if_false, forM_map, Function.comp_def]

/-- Each step can be read, and ties its table to one of the given names or to a table before it. -/
structure StepsTied (names : List String) (ws : List WrittenStep) : Prop where
  plain : ∀ w ∈ ws, w.Plain
  tied : ∀ front w after, ws = front ++ w :: after → ∀ c ∈ w.conditions,
    ∃ u ∈ names ++ front.map (·.joined),
      (c.1.table = u ∧ c.2.table = w.joined) ∨ (c.1.table = w.joined ∧ c.2.table = u)

theorem StepsTied.cons {names : List String} {w : WrittenStep} {ws : List WrittenStep}
    (h : StepsTied names (w :: ws)) : w.Plain ∧
      (∀ c ∈ w.conditions, ∃ u ∈ names,
        (c.1.table = u ∧ c.2.table = w.joined) ∨ (c.1.table = w.joined ∧ c.2.table = u)) ∧
      StepsTied (names ++ [w.joined]) ws := by
  obtain ⟨hw, hws⟩ := List.forall_mem_cons.1 h.plain
  refine ⟨hw, ?_, hws, fun front v after hsplit => ?_⟩
  · simpa using h.tied [] w ws rfl
  · have htied := h.tied (w :: front) v after (by rw [hsplit, List.cons_append])
    rwa [List.map_cons, List.append_cons] at htied

/-- A step can be read. -/
theorem goes_step (hs : s.Lower) (h : d.Plain s lo n) {before : List Table}
    (hbefore : ∀ u ∈ before, u ∈ d.block.tables) {w : WrittenStep} (hw : w.Plain)
    (hnew : w.joined ∉ d.block.tables.map (·.name))
    (htied : ∀ c ∈ w.conditions, ∃ u ∈ before.map (·.name),
      (c.1.table = u ∧ c.2.table = w.joined) ∨ (c.1.table = w.joined ∧ c.2.table = u)) :
    ∃ n' t js, Goes (readJoin s w.part.value) n d () n' (d.joining [t] js) ∧
      (d.joining [t] js).Plain s lo n' ∧ t.name = w.joined ∧
        w.conditions.Forall₂ (JoinRead before w.kind t) js := by
  obtain ⟨t, hname, hsource, hplain⟩ := goes_table hs h hw.joined.lower hnew
  have hids := hplain.ids.nodup
  have htables : (d.joining [t] []).block.tables = d.block.tables ++ [t] := rfl
  rw [htables, List.map_append] at hids
  have hmem : ∀ u ∈ before, u ∈ (d.joining [t] []).block.tables ∧ u.id ≠ t.id := by
    intro u hu
    rw [htables]
    refine ⟨List.mem_append_left _ (hbefore u hu), ?_⟩
    exact (List.nodup_append.1 hids).2.2 u.id (List.mem_map_of_mem (hbefore u hu)) t.id (by simp)
  obtain ⟨n', js, hequalities, hle, hjoins⟩ := goes_equalities hs w.kind hplain hmem
    (by rw [htables]; simp) hw.conditions fun c hc => by
      obtain ⟨u, hu, hties⟩ := htied c hc
      obtain ⟨v, hv, rfl⟩ := List.mem_map.1 hu
      exact ⟨v, hv, by rwa [hname]⟩
  have hfinal := hplain.joins js hle
  rw [Draft.joining_joining, List.append_nil, List.nil_append] at hequalities hfinal
  refine ⟨n', t, js, ?_, hfinal, hname, hjoins⟩
  rw [WrittenStep.part, joinPart, readJoin, Goes.bind_iff]
  refine ⟨some t.id, n + 1, _, hsource, ?_⟩
  show Goes (readConstraint _ _ _) _ _ _ _ _
  rw [readConstraint_step hw.some_condition]
  exact hequalities

/-- All steps of an item can be read. -/
theorem goes_steps (hs : s.Lower) {ws : List WrittenStep} : ∀ {n : Nat} {d : Draft}
    {before : List Table}, d.Plain s lo n → (∀ u ∈ before, u ∈ d.block.tables) →
    StepsTied (before.map (·.name)) ws →
    (d.block.tables.map (·.name) ++ ws.map (·.joined)).Nodup →
    ∃ n' steps, StepsRead before ws steps ∧
      Goes (readJoins s (ws.map (·.part.value))) n d () n'
        (d.joining (steps.filterMap (·.joined)) (steps.flatMap (·.conditions))) ∧
      (d.joining (steps.filterMap (·.joined)) (steps.flatMap (·.conditions))).Plain s lo n' := by
  induction ws with
  | nil =>
    intro n d before h _ _ _
    refine ⟨n, [], .nil, ?_, ?_⟩
    · exact Goes.pure_iff.2 ⟨rfl, rfl, d.joining_nil⟩
    · rw [List.filterMap_nil, List.flatMap_nil, Draft.joining_nil]
      exact h
  | cons w ws ih =>
    intro n d before h hbefore htied hnodup
    obtain ⟨hw, hties, htied⟩ := htied.cons
    have hnew : w.joined ∉ d.block.tables.map (·.name) := fun hmem =>
      (List.nodup_append.1 hnodup).2.2 _ hmem _ (by simp) rfl
    obtain ⟨n₁, t, js, hstep, hplain, hname, hjoins⟩ := goes_step hs h hbefore hw hnew hties
    have htables : (d.joining [t] js).block.tables = d.block.tables ++ [t] := rfl
    obtain ⟨n', steps, hread, hrest, hfinal⟩ := ih hplain
      (by
        intro u hu
        rw [htables]
        exact (List.mem_append.1 hu).elim (fun hu => List.mem_append_left _ (hbefore u hu))
          (List.mem_append_right _))
      (by rwa [List.map_append, List.map_singleton, hname])
      (by
        rw [htables, List.map_append, List.map_singleton, hname]
        rwa [List.map_cons, List.append_cons] at hnodup)
    rw [Draft.joining_joining] at hrest hfinal
    exact ⟨n', ⟨w.kind, some t, js⟩ :: steps, .cons hname hjoins hread,
      goes_readJoins_cons.2 ⟨n₁, _, hstep, hrest⟩, hfinal⟩

/-! ## Items -/

/-- The item is read off a written one. -/
structure ItemRead (w : WrittenItem) (i : FromItem) : Prop where
  base : i.base.name = w.base
  steps : StepsRead [i.base] w.steps i.steps

theorem ItemRead.names {w : WrittenItem} {i : FromItem} (h : ItemRead w i) :
    i.tables.map (·.name) = w.names := by
  rw [FromItem.tables, WrittenItem.names, List.map_cons, h.base, h.steps.names]

/-- All items of tables can be read. -/
theorem goes_items (hs : s.Lower) {ws : List WrittenItem} (hplain : ∀ w ∈ ws, w.Plain)
    (htied : ∀ w ∈ ws, w.Tied) {rest : List FromPart} :
    ∀ {n : Nat} {d : Draft}, d.Plain s lo n →
      (d.block.tables.map (·.name) ++ ws.flatMap (·.names)).Nodup →
      ∃ n' items, ws.Forall₂ ItemRead items ∧
        (d.joining (items.flatMap FromItem.tables) (written items)).Plain s lo n' ∧
        ∀ m d', Goes (readSources s rest) n'
            (d.joining (items.flatMap FromItem.tables) (written items)) () m d' →
          Goes (readSources s (ws.map (·.part.value) ++ rest)) n d () m d' := by
  induction ws with
  | nil =>
    intro n d h _
    refine ⟨n, [], .nil, ?_, fun m d' hrest => ?_⟩
    · exact d.joining_nil.symm ▸ h
    · exact d.joining_nil ▸ hrest
  | cons w ws ih =>
    intro n d h hnodup
    obtain ⟨hw, hplain⟩ := List.forall_mem_cons.1 hplain
    obtain ⟨hwtied, htied⟩ := List.forall_mem_cons.1 htied
    rw [List.flatMap_cons, ← List.append_assoc] at hnodup
    have hown := (List.nodup_append.1 hnodup).1
    rw [WrittenItem.names, List.append_cons] at hown
    have hnew : w.base ∉ d.block.tables.map (·.name) := fun hmem =>
      (List.nodup_append.1 (List.nodup_append.1 hown).1).2.2 _ hmem _ (by simp) rfl
    obtain ⟨t, hname, hsource, hbase⟩ := goes_table hs h hw.base.lower hnew
    have htables : (d.joining [t] []).block.tables = d.block.tables ++ [t] := rfl
    have hbefore : ∀ u ∈ [t], u ∈ (d.joining [t] []).block.tables := by
      rw [htables]
      simp
    obtain ⟨n₁, steps, hread, hjoins, hsteps⟩ := goes_steps hs hbase hbefore
      ⟨hw.steps, fun front v after hsplit c hc => by
        rw [List.map_singleton, hname]
        exact hwtied front v after hsplit c hc⟩
      (by rwa [htables, List.map_append, List.map_singleton, hname])
    rw [Draft.joining_joining, List.nil_append, List.singleton_append] at hjoins hsteps
    have hitem : ItemRead w ⟨t, steps⟩ := ⟨hname, hread⟩
    have hnames : (t :: steps.filterMap (·.joined)).map (·.name) = w.names := hitem.names
    obtain ⟨n', items, hitems, hfinal, hrest⟩ := ih hplain htied hsteps (by
      show ((d.block.tables ++ _).map _ ++ _).Nodup
      rw [List.map_append, hnames]
      exact hnodup)
    rw [Draft.joining_joining] at hrest hfinal
    refine ⟨n', ⟨t, steps⟩ :: items, .cons hitem hitems, hfinal, fun m d' hgoes => ?_⟩
    exact goes_readSources_cons.2 ⟨some t.id, n + 1, _, hsource, n₁, _, by
      rw [List.map_map]
      exact hjoins, hrest m d' hgoes⟩

/-! ## Nested queries -/

/-- Wherever counting stands, the nested query is read as a block of that text. -/
def NestsAs (s : Scope) (q : Query) (text : String) : Prop :=
  ∀ n, ∃ b n', Gives (readBlock s true q) n b n' ∧ innerText b = text

/-- The nested query is read off a written one, of which the text is given. -/
structure SubqueryRead {ν : Type} (t : ν → String) (role : SubqueryRole) (q : ν × Option String)
    (sub : Subquery) : Prop where
  role : sub.role = role
  aliasName : sub.aliasName = q.2
  text : innerText sub.block = t q.1

/-- The nested query that is read off a source or a result. -/
def nestedAt (n : Nat) (role : SubqueryRole) (aliasName : Option String) (block : Block) :
    Subquery :=
  { id := EntityId.minted n, role, aliasName, linkedFilter := none, frame := default, block }

/-- The draft with nested queries as further sources. -/
def Draft.nesting (d : Draft) (subs : List Subquery) : Draft :=
  { d with
    sources := d.sources ++ (subs.filterMap (·.aliasName)).map (⟨·, none⟩)
    block := { d.block with subqueries := d.block.subqueries ++ subs } }

/-- All nested queries can be read as sources. -/
theorem goes_derived {ν : Type} {p : ν → Part Query} {t : ν → String}
    {qs : List (ν × Option String)} (hread : ∀ q ∈ qs, NestsAs s (p q.1).value (t q.1)) :
    ∀ n d, ∃ n' subs, qs.Forall₂ (SubqueryRead t .fromClause) subs ∧
      Goes (readSources s (qs.map fun q => (derivedItem (p q.1) q.2).value)) n d () n'
        (d.nesting subs) := by
  induction qs with
  | nil =>
    intro n d
    refine ⟨n, [], .nil, Goes.pure_iff.2 ⟨rfl, rfl, ?_⟩⟩
    obtain ⟨⟨⟩, sources, aliases⟩ := d
    simp [Draft.nesting]
  | cons q qs ih =>
    intro n d
    obtain ⟨hq, hqs⟩ := List.forall_mem_cons.1 hread
    obtain ⟨b, n₁, hgives, htext⟩ := hq n
    obtain ⟨n', subs, hsubs, hrest⟩ :=
      ih hqs (n₁ + 1) (d.nesting [nestedAt n₁ .fromClause q.2 b])
    have hnesting : ∀ sub : Subquery, (d.nesting [sub]).nesting subs = d.nesting (sub :: subs) := by
      intro sub
      cases hname : sub.aliasName <;> simp [Draft.nesting, hname]
    have hsource : Goes (readSource s (derivedPart (p q.1) q.2).value) n d none (n₁ + 1)
        (d.nesting [nestedAt n₁ .fromClause q.2 b]) := by
      have hcolumns : (q.2.map fun name => Alias.mk (.bare name) []).any (!·.columns.isEmpty) =
          false := by
        cases q.2 <;> rfl
      rw [derivedPart, readSource, Goes.guard_iff]
      simp only [Goes.bind_iff, Goes.lift_iff, Goes.mint_iff, Goes.guard_iff, Goes.modify_iff,
        Goes.pure_iff, hcolumns]
      refine ⟨by decide, b, n₁, d, ⟨hgives, rfl⟩, _, _, _, ⟨rfl, rfl, rfl⟩, by decide, (), _, _,
        ⟨rfl, rfl⟩, trivial, rfl, ?_⟩
      cases q.2 <;> rfl
    rw [hnesting] at hrest
    exact ⟨n', _ :: subs, .cons ⟨rfl, rfl, htext⟩ hsubs,
      goes_readSources_cons.2 ⟨none, n₁ + 1, _, hsource, n₁ + 1, _,
        Goes.pure_iff.2 ⟨rfl, rfl, rfl⟩, hrest⟩⟩

/-! ## The whole clause -/

/-- The draft behind a `FROM` clause of items of tables and of nested queries. -/
def draftOf (items : List FromItem) (subs : List Subquery) : Draft :=
  (Draft.empty.joining (items.flatMap FromItem.tables) (written items)).nesting subs

theorem fromClausePart_value (l : List (Part FromPart)) :
    (fromClausePart l).value = l.map (·.value) := by
  cases l <;> rfl

/-- **The `FROM` clause of a select can be read.** -/
theorem goes_readFrom {ν : Type} {p : ν → Part Query} {t : ν → String} {x : WrittenSelect ν}
    (hs : s.Lower) (hx : x.Plain) (harranged : x.Arranged)
    (hread : ∀ q ∈ x.derived, NestsAs s (p q.1).value (t q.1)) (n : Nat) :
    ∃ items subs m n', x.items.Forall₂ ItemRead items ∧
      x.derived.Forall₂ (SubqueryRead t .fromClause) subs ∧ (draftOf items subs).Entered s n m ∧
      Goes (readSources s (fromClausePart (x.parts p).sources).value) n Draft.empty () n'
        (draftOf items subs) := by
  have hempty : Draft.empty.Plain s n n :=
    ⟨⟨⟨[], by simp, rfl⟩, List.nodup_nil, by simp [Draft.empty, Block.empty], Serial.nil,
      by simp [Draft.empty, Block.empty]⟩, rfl, Nat.le_refl n⟩
  obtain ⟨m, items, hitems, hplain, hgoes⟩ := goes_items
    hs hx.items harranged.tied
    hempty harranged.names
  obtain ⟨n', subs, hsubs, hderived⟩ := goes_derived hread m
    (Draft.empty.joining (items.flatMap FromItem.tables) (written items))
  refine ⟨items, subs, m, n', hitems, hsubs, ?_, ?_⟩
  · obtain ⟨-, hnames, hlower, hids, hboxes⟩ := hplain.toEntered
    refine ⟨⟨subs.filterMap (·.aliasName), fun a ha => ?_, ?_⟩, hnames, hlower, hids, hboxes⟩
    · obtain ⟨sub, hsub, hname⟩ := List.mem_filterMap.1 ha
      obtain ⟨q, hq, hread⟩ := exists_of_mem_right hsubs hsub
      exact (hx.derived q hq a (hread.aliasName ▸ hname)).lower
    · show _ ++ _ = _
      rw [hplain.known]
      rfl
  · have hvalue : (fromClausePart (x.parts p).sources).value =
        x.items.map (·.part.value) ++ x.derived.map fun q => (derivedItem (p q.1) q.2).value := by
      rw [fromClausePart_value, WrittenSelect.parts, List.map_append, List.map_map, List.map_map]
      rfl
    rw [hvalue]
    exact hgoes _ _ hderived

end Clause

end QueryCanvas.Sql
