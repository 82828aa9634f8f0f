import QueryCanvas.Canvas.Cte
import QueryCanvas.Proofs.Canvas.Anchored
import QueryCanvas.Proofs.Canvas.Tree
import QueryCanvas.Proofs.Diagnosis.Columns
import QueryCanvas.Sql.Render

/-!
# Columns of a named query that gets another name

Where a named query gets another name, the tables that read it get that name too.  Joins lead to
these tables by identifier, and chosen columns are theirs, so both follow.  The columns of filters,
grouping, conditions on groups and sorting are texts with the name of a table in them, and stay as
they are written.  Here it is said exactly when such a column still belongs to a table of its block,
when the diagnosis has something new to say, and when the name from before is left behind.
-/

set_option autoImplicit false

namespace QueryCanvas

/-! ## What a column is written with -/

namespace Block

/-- The column is written with the name of a table of the block. -/
def OfTable (b : Block) (x : String) : Prop := ∃ t ∈ b.tables, refersTo x t.name

/-- The column is written with the name of a table that reads the named query. -/
def OfReader (id : EntityId) (b : Block) (x : String) : Prop :=
  ∃ t ∈ b.tables, t.cte = some id ∧ refersTo x t.name

/-- The column is written with the name of a table that does not read the named query. -/
def OfOther (id : EntityId) (b : Block) (x : String) : Prop :=
  ∃ t ∈ b.tables, t.cte ≠ some id ∧ refersTo x t.name

/-- The column is written with the alias of a nested query in the `FROM` clause. -/
def OfDerived (b : Block) (x : String) : Prop :=
  ∃ s ∈ b.subqueriesIn .fromClause, s.aliasName.any (refersTo x)

/-- The column is one of a table that reads the named query, and of no table any more once these
tables have the name. -/
def Stranded (id : EntityId) (name : String) (b : Block) (x : String) : Prop :=
  b.OfReader id x ∧ ¬refersTo x name ∧ ¬b.OfOther id x

instance (b : Block) (x : String) : Decidable (b.OfTable x) :=
  inferInstanceAs (Decidable (∃ t ∈ b.tables, _))

instance (id : EntityId) (b : Block) (x : String) : Decidable (b.OfReader id x) :=
  inferInstanceAs (Decidable (∃ t ∈ b.tables, _))

instance (id : EntityId) (b : Block) (x : String) : Decidable (b.OfOther id x) :=
  inferInstanceAs (Decidable (∃ t ∈ b.tables, _))

instance (b : Block) (x : String) : Decidable (b.OfDerived x) :=
  inferInstanceAs (Decidable (∃ s ∈ b.subqueriesIn .fromClause, _))

instance (id : EntityId) (name : String) (b : Block) (x : String) :
    Decidable (b.Stranded id name x) :=
  inferInstanceAs (Decidable (_ ∧ _))

end Block

/-! ## Columns before and after -/

/-- What holds of a block and the one in its place, and of each column of the clauses and the one in
its place, holds of two canvases. -/
def Canvas.EachColumn (P : Block → Block → String → String → Prop) (c c' : Canvas) : Prop :=
  ∀ p ∈ c.blocks.zip c'.blocks, ∀ x ∈ p.1.clauseColumns.zip p.2.clauseColumns, P p.1 p.2 x.1 x.2

/-- Columns of the tables that read the named query are columns of some table afterwards. -/
def Canvas.KeepsColumns (id : EntityId) : Canvas → Canvas → Prop :=
  EachColumn fun b b' x x' => b.OfReader id x → b'.OfTable x'

/-- Columns on which there was no finding have none afterwards. -/
def Canvas.WarnsOfNothingNew : Canvas → Canvas → Prop :=
  EachColumn fun b b' x x' => Diagnosis.isKnown b x → Diagnosis.isKnown b' x'

/-- No column of the tables that read the named query is still written with their name from before,
if this is not the new one. -/
def Canvas.LeavesNoName (id : EntityId) (name : String) : Canvas → Canvas → Prop :=
  EachColumn fun b _ x x' => ∀ t ∈ b.tables, t.cte = some id → refersTo x t.name →
    refersTo x' t.name → refersTo x' name

instance (P : Block → Block → String → String → Prop) [∀ b b' x x', Decidable (P b b' x x')]
    (c c' : Canvas) : Decidable (c.EachColumn P c') :=
  inferInstanceAs (Decidable (∀ p ∈ _, ∀ x ∈ _, _))

instance (id : EntityId) (c c' : Canvas) : Decidable (c.KeepsColumns id c') :=
  inferInstanceAs (Decidable (c.EachColumn _ c'))

instance (c c' : Canvas) : Decidable (c.WarnsOfNothingNew c') :=
  inferInstanceAs (Decidable (c.EachColumn _ c'))

instance (id : EntityId) (name : String) (c c' : Canvas) : Decidable (c.LeavesNoName id name c') :=
  inferInstanceAs (Decidable (c.EachColumn _ c'))

/-! ## Blocks after a named query got another name -/

namespace Block

/-- The block with another name of the tables that read the named query. -/
def nameReaders (id : EntityId) (name : String) (b : Block) : Block :=
  b.updateLinked id fun t => { t with name := name }

variable {id : EntityId} {name x : String} {b : Block}

theorem clauseColumns_nameReaders :
    (b.mapBlocks (nameReaders id name)).clauseColumns = b.clauseColumns := by
  rw [mapBlocks_eq]
  rfl

/-- A column belongs to a table afterwards if it is written with the new name, or with that of a
table that reads something else. -/
theorem ofTable_nameReaders :
    (b.mapBlocks (nameReaders id name)).OfTable x ↔
      (refersTo x name ∧ ∃ t ∈ b.tables, t.cte = some id) ∨ b.OfOther id x := by
  have htables : (b.mapBlocks (nameReaders id name)).tables =
      b.tables.map fun t => if t.cte = some id then { t with name := name } else t := by
    rw [mapBlocks_eq]
    rfl
  rw [OfTable, htables]
  constructor
  · rintro ⟨_, ht', hrefers⟩
    obtain ⟨t, ht, rfl⟩ := List.mem_map.1 ht'
    by_cases hreads : t.cte = some id
    · rw [if_pos hreads] at hrefers
      exact .inl ⟨hrefers, t, ht, hreads⟩
    · rw [if_neg hreads] at hrefers
      exact .inr ⟨t, ht, hreads, hrefers⟩
  · rintro (⟨hrefers, t, ht, hreads⟩ | ⟨t, ht, hreads, hrefers⟩)
    · exact ⟨_, List.mem_map_of_mem ht, by rwa [if_pos hreads]⟩
    · exact ⟨_, List.mem_map_of_mem ht, by rwa [if_neg hreads]⟩

theorem ofDerived_nameReaders :
    (b.mapBlocks (nameReaders id name)).OfDerived x ↔ b.OfDerived x := by
  have hsubs : (b.mapBlocks (nameReaders id name)).subqueriesIn .fromClause =
      (b.subqueriesIn .fromClause).map fun s =>
        { s with block := s.block.mapBlocks (nameReaders id name) } := by
    rw [mapBlocks_eq, subqueriesIn, subqueriesIn]
    show List.filter _ (b.subqueries.map _) = _
    rw [List.filter_map]
    rfl
  simp only [OfDerived, hsubs, List.mem_map, exists_exists_and_eq_and]

theorem ofTable_iff (id : EntityId) : b.OfTable x ↔ b.OfReader id x ∨ b.OfOther id x := by
  constructor
  · rintro ⟨t, ht, hrefers⟩
    by_cases hreads : t.cte = some id
    · exact .inl ⟨t, ht, hreads, hrefers⟩
    · exact .inr ⟨t, ht, hreads, hrefers⟩
  · rintro (⟨t, ht, -, hrefers⟩ | ⟨t, ht, -, hrefers⟩)
    · exact ⟨t, ht, hrefers⟩
    · exact ⟨t, ht, hrefers⟩

/-- The diagnosis takes a column for known if it is written without a table, or with that of the
block. -/
theorem isKnown_iff :
    Diagnosis.isKnown b x ↔ columnQualifier? x = none ∨ b.OfTable x ∨ b.OfDerived x := by
  unfold Diagnosis.isKnown OfTable OfDerived refersTo
  cases columnQualifier? x with
  | none => simp
  | some q => simp [Text.sameName_comm q]

/-- A column of a table that reads the named query belongs to a table afterwards, unless it is
stranded. -/
theorem ofTable_nameReaders_iff (hreader : b.OfReader id x) :
    (b.mapBlocks (nameReaders id name)).OfTable x ↔ ¬b.Stranded id name x := by
  have hreads : ∃ t ∈ b.tables, t.cte = some id := by
    obtain ⟨t, ht, hreads, -⟩ := hreader
    exact ⟨t, ht, hreads⟩
  rw [ofTable_nameReaders, and_iff_left hreads, Stranded, and_iff_right hreader, not_and_or,
    not_not, not_not]

/-- What was known is known afterwards, unless it is stranded and not the column of a nested
query. -/
theorem isKnown_nameReaders_iff (hknown : Diagnosis.isKnown b x) :
    Diagnosis.isKnown (b.mapBlocks (nameReaders id name)) x ↔
      (b.Stranded id name x → b.OfDerived x) := by
  rw [isKnown_iff, ofDerived_nameReaders]
  constructor
  · rintro (hnone | htable | hderived) hstranded
    · obtain ⟨⟨t, -, -, hrefers⟩, -⟩ := hstranded
      rw [refersTo, hnone] at hrefers
      cases hrefers
    · exact absurd hstranded ((ofTable_nameReaders_iff hstranded.1).1 htable)
    · exact hderived
  · intro hstranded
    rcases isKnown_iff.1 hknown with hnone | htable | hderived
    · exact .inl hnone
    · rcases (ofTable_iff id).1 htable with hreader | hother
      · by_cases h : b.Stranded id name x
        · exact .inr (.inr (hstranded h))
        · exact .inr (.inl ((ofTable_nameReaders_iff hreader).2 h))
      · exact .inr (.inl (ofTable_nameReaders.2 (.inr hother)))
    · exact .inr (.inr hderived)

end Block

namespace Canvas

variable {c : Canvas} {id : EntityId} {name : String}

theorem blocks_mapBlocks (change : Block → Block)
    (hchange : ∀ b, (change b).subqueries = b.subqueries) (c : Canvas) :
    (c.mapBlocks change).blocks = c.blocks.map (·.mapBlocks change) := by
  rw [blocks, blocks, mapBlocks, Block.blocks_mapBlocks hchange, List.map_append, List.flatMap_map,
    List.map_flatMap]
  exact congrArg _ (List.flatMap_congr fun q _ => Block.blocks_mapBlocks hchange q.block)

/-- The blocks of a canvas in which a named query got another name. -/
theorem blocks_renameCte (h : (c.cte? id).isSome) (name : String) :
    (c.renameCte id name).blocks =
      c.blocks.map (·.mapBlocks (Block.nameReaders id name)) := by
  have hnone : (c.cte? id).isNone = false := by
    cases hcte : c.cte? id with
    | none => simp [hcte] at h
    | some q => rfl
  rw [renameCte, hnone]
  refine (blocks_mapBlocks (Block.nameReaders id name) (fun _ => rfl) _).trans (congrArg _ ?_)
  have hbodies := map_updateFirst (p := fun q : Cte => q.id = id)
    (f := fun q => { q with name := name }) (g := fun q => q.block.blocks) (fun _ => rfl) c.ctes
  show c.root.blocks ++ _ = c.root.blocks ++ _
  rw [List.flatMap_def, hbodies, ← List.flatMap_def]

/-- Columns before and after are the same texts, in blocks with and without the new name. -/
theorem eachColumn_renameCte {P : Block → Block → String → String → Prop}
    (h : (c.cte? id).isSome) :
    c.EachColumn P (c.renameCte id name) ↔ ∀ b ∈ c.blocks, ∀ x ∈ b.clauseColumns,
      P b (b.mapBlocks (Block.nameReaders id name)) x x := by
  have hblocks : c.blocks.zip (c.renameCte id name).blocks =
      c.blocks.map fun b => (b, b.mapBlocks (Block.nameReaders id name)) := by
    rw [blocks_renameCte h, List.map_prod_left_eq_zip]
  have hself : ∀ l : List String, l.zip l = l.map fun x => (x, x) := by
    intro l
    rw [List.map_prod_left_eq_zip, List.map_id']
  rw [EachColumn, hblocks, List.forall_mem_map]
  refine forall₂_congr fun b _ => ?_
  rw [Block.clauseColumns_nameReaders, hself, List.forall_mem_map]

/-- A named query gets another name.  The columns of the tables that read it keep to a table exactly
if none is stranded.  There is a new finding exactly on those that are stranded and no columns of a
nested query.  No name from before is left exactly if all were written with the new name already. -/
theorem columns_after_rename (c : Canvas) (id : EntityId) (name : String)
    (h : (c.cte? id).isSome) :
    (c.KeepsColumns id (c.renameCte id name) ↔
      ∀ b ∈ c.blocks, ∀ x ∈ b.clauseColumns, ¬b.Stranded id name x) ∧
    (c.WarnsOfNothingNew (c.renameCte id name) ↔
      ∀ b ∈ c.blocks, ∀ x ∈ b.clauseColumns, b.Stranded id name x → b.OfDerived x) ∧
    (c.LeavesNoName id name (c.renameCte id name) ↔
      ∀ b ∈ c.blocks, ∀ x ∈ b.clauseColumns, b.OfReader id x → refersTo x name) ∧
    ((¬∃ f ∈ c.diagnose, f.SaysUnknownTable) →
      ((∃ f ∈ (c.renameCte id name).diagnose, f.SaysUnknownTable) ↔
        ∃ b ∈ c.blocks, ∃ x ∈ b.clauseColumns, b.Stranded id name x ∧ ¬b.OfDerived x)) := by
  refine ⟨?_, ?_, ?_, fun hquiet => ?_⟩
  · refine (eachColumn_renameCte h).trans (forall₂_congr fun b _ => forall₂_congr fun x _ => ?_)
    constructor
    · intro hkeeps hstranded
      exact (Block.ofTable_nameReaders_iff hstranded.1).1 (hkeeps hstranded.1) hstranded
    · exact fun hstranded hreader => (Block.ofTable_nameReaders_iff hreader).2 hstranded
  · refine (eachColumn_renameCte h).trans (forall₂_congr fun b _ => forall₂_congr fun x _ => ?_)
    constructor
    · intro hwarns hstranded
      obtain ⟨t, ht, -, hrefers⟩ := hstranded.1
      have hknown := Block.isKnown_iff.2 (.inr (.inl ⟨t, ht, hrefers⟩))
      exact (Block.isKnown_nameReaders_iff hknown).1 (hwarns hknown) hstranded
    · exact fun hstranded hknown => (Block.isKnown_nameReaders_iff hknown).2 hstranded
  · refine (eachColumn_renameCte h).trans (forall₂_congr fun b _ => forall₂_congr fun x _ => ?_)
    constructor
    · rintro hleaves ⟨t, ht, hreads, hrefers⟩
      exact hleaves t ht hreads hrefers hrefers
    · exact fun hnew t ht hreads hrefers _ => hnew ⟨t, ht, hreads, hrefers⟩
  · rw [saysUnknownTable_iff] at hquiet ⊢
    simp only [not_exists, not_and, Bool.not_eq_false] at hquiet
    rw [blocks_renameCte h]
    simp only [List.mem_map, exists_exists_and_eq_and, Block.clauseColumns_nameReaders]
    refine exists_congr fun b => and_congr_right fun hb => exists_congr fun x =>
      and_congr_right fun hx => ?_
    rw [← Bool.not_eq_true, Block.isKnown_nameReaders_iff (hquiet b hb x hx), Classical.not_imp]

/-- The root reads a named query, and has a filter on the column that it reads. -/
def readingRecent : Canvas :=
  let orders : Table := { Table.create ⟨"orders"⟩ "orders" ["id"] default with selected := ["id"] }
  let recent : Table :=
    { Table.create ⟨"box"⟩ "recent" ["id"] default with selected := ["id"], cte := some ⟨"cte"⟩ }
  let above : Filter :=
    { id := ⟨"above"⟩, column := "recent.id", operator := .gt, operand := .value "10"
      connector := .and }
  { ctes := [{ id := ⟨"cte"⟩, name := "recent", frame := default
               block := { Block.empty with tables := [orders] } }]
    root := { Block.empty with tables := [recent], filters := [above] } }

/-- In another case the name is the same, and nothing changes for the columns. -/
theorem columns_after_rename_in_capitals :
    (readingRecent.cte? ⟨"cte"⟩).isSome ∧
      (∃ x ∈ readingRecent.root.clauseColumns, readingRecent.root.OfReader ⟨"cte"⟩ x) ∧
      readingRecent.KeepsColumns ⟨"cte"⟩ (readingRecent.renameCte ⟨"cte"⟩ "RECENT") ∧
      readingRecent.WarnsOfNothingNew (readingRecent.renameCte ⟨"cte"⟩ "RECENT") ∧
      readingRecent.LeavesNoName ⟨"cte"⟩ "RECENT" (readingRecent.renameCte ⟨"cte"⟩ "RECENT") := by
  have hthere : (readingRecent.cte? ⟨"cte"⟩).isSome := by decide +kernel
  obtain ⟨hkeeps, hwarns, hleaves, -⟩ := columns_after_rename readingRecent ⟨"cte"⟩ "RECENT" hthere
  have hcolumns : ∀ b ∈ readingRecent.blocks, ∀ x ∈ b.clauseColumns, x = "recent.id" := by
    decide +kernel
  have hlower : String.toLower "RECENT" = String.toLower "recent" := by
    show String.map _ _ = String.map _ _
    rw [← String.toList_inj, String.toList_map, String.toList_map]
    decide
  have hqualifier : columnQualifier? "recent.id" = some "recent" := by decide +kernel
  have hnew : refersTo "recent.id" "RECENT" := by
    rw [refersTo, hqualifier, Option.any_some, Text.sameName, hlower, beq_self_eq_true]
  have hsafe : ∀ b ∈ readingRecent.blocks, ∀ x ∈ b.clauseColumns, refersTo x "RECENT" := by
    intro b hb x hx
    rw [hcolumns b hb x hx]
    exact hnew
  refine ⟨hthere, by decide +kernel, hkeeps.2 fun b hb x hx hstranded => ?_,
    hwarns.2 fun b hb x hx hstranded => ?_, hleaves.2 fun b hb x hx _ => hsafe b hb x hx⟩
  · exact hstranded.2.1 (hsafe b hb x hx)
  · exact absurd (hsafe b hb x hx) hstranded.2.1

/-- With a name that no table has, the filter is left on a table that is not in the query, under the
name from before. -/
theorem rename_strands_filter :
    let renamed := readingRecent.renameCte ⟨"cte"⟩ "latest"
    (readingRecent.cte? ⟨"cte"⟩).isSome ∧ Sql.isPlainName "latest" ∧
      (∀ b ∈ readingRecent.blocks, ∀ t ∈ b.tables, ¬Text.sameName t.name "latest") ∧
      ¬readingRecent.KeepsColumns ⟨"cte"⟩ renamed ∧ ¬readingRecent.WarnsOfNothingNew renamed ∧
      ¬readingRecent.LeavesNoName ⟨"cte"⟩ "latest" renamed ∧ readingRecent.diagnose = [] ∧
      renamed.diagnose.map (·.message) =
        ["filter column recent.id refers to a table not in this query"] ∧
      Sql.render .compact renamed = "WITH latest AS (SELECT orders.id FROM orders) " ++
        "SELECT latest.id FROM latest WHERE recent.id > 10" := by
  decide +kernel

end Canvas

end QueryCanvas
