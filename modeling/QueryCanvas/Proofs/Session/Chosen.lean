import QueryCanvas.Proofs.Canvas.Chosen
import QueryCanvas.Proofs.Session.Identifiers
import QueryCanvas.Proofs.Session.References
import QueryCanvas.Proofs.Sql.ResultNames

/-!
# Chosen columns in the course of a session

A text chooses each column once and puts aggregates around none; where aggregates go back around
columns, the columns are chosen.  So from the empty canvas on the choice and the aggregates of every
table fit together, whatever is drawn and typed, and no aggregate around a column is left unwritten.
-/

set_option autoImplicit false

namespace QueryCanvas

open Sql

/-! ## Reading -/

/-- On every block that is read the choice and the aggregates fit together. -/
theorem Sql.Scope.Reaches.wellChosen {s : Scope} {lo n : Nat} {b : Block}
    (h : s.Reaches lo n b) : b.Everywhere Block.WellChosen := by
  induction h with
  | empty n => exact Block.everywhere_eachTable_empty
  | @table lo n b h t hbox hnew ih =>
    refine ih.change ((Block.everywhere_iff.1 ih).1.addTable ?_) rfl
    cases hbox <;> exact Table.wellChosen_of_plain rfl .nil
  | @join lo n b h j hid ih =>
    have hsubs : (b.addJoin j).subqueries = b.subqueries := by
      unfold Block.addJoin
      split <;> rfl
    exact ih.change ((Block.everywhere_iff.1 ih).1.addJoin j) hsubs
  | @choose lo n b h id columns ih =>
    exact ih.change ((Block.everywhere_iff.1 ih).1.updateTable id
      fun _ ht => ht.foldl_select columns) rfl
  | @nest lo n m b h q hinner hid hrole hlink ih ihinner =>
    exact ih.push ihinner ((Block.everywhere_iff.1 ih).1.same rfl) rfl
  | @compare lo n m b h q hinner f hfilter hid hrole hoperand hlink ih ihinner =>
    exact ih.push ihinner ((Block.everywhere_iff.1 ih).1.same rfl) rfl
  | filter | limit | aggregate | grouping | having | sortTerm =>
    rename_i ih
    exact ih.change ((Block.everywhere_iff.1 ih).1.same rfl) rfl

theorem Sql.CtesReached.wellChosen {catalog : Catalog} {lo n : Nat} {ctes : List Cte}
    (h : CtesReached catalog lo n ctes) : ∀ q ∈ ctes, q.block.Everywhere Block.WellChosen := by
  induction h with
  | nil => simp
  | push h hnew hblock hid ih =>
    intro q hq
    rcases List.mem_append.1 hq with hq | hq
    · exact ih q hq
    · exact List.mem_singleton.1 hq ▸ hblock.wellChosen

theorem Sql.CanvasReached.wellChosen {catalog : Catalog} {lo n : Nat} {c : Canvas}
    (h : CanvasReached catalog lo n c) : c.WellChosen := by
  obtain ⟨m, hctes, hroot⟩ := h
  exact ⟨hroot.wellChosen, hctes.wellChosen⟩

/-! ## Taking over identities -/

namespace Block

variable {b : Block}

/-- A column is chosen when an aggregate goes back around it. -/
theorem WellChosen.restoreAggregates (h : b.WellChosen) (old : Block) :
    (restoreAggregates old b).WellChosen := by
  have hstep : ∀ (table column : String) (a : ColumnAggregate) (b : Block),
      b.WellChosen → (b.restoreAggregate table column a).WellChosen := by
    intro table column a b hb
    unfold restoreAggregate
    dsimp only
    split
    · exact (hb.updateFirst (·.name = table) fun _ ht => ht.setAggregate column (some a)).same rfl
    · exact hb
  unfold Block.restoreAggregates
  refine List.foldlRecOn _ _ h fun b hb t _ => ?_
  exact List.foldlRecOn _ _ hb fun b hb e _ => hstep _ _ _ b hb

theorem WellChosen.carryOver (h : b.WellChosen) (old : Block) : (old.carryOver b).WellChosen := by
  have hcarried : Block.WellChosen { b with
      tables := b.tables.map (carryTable old)
      joins := b.joins.map (carryJoin old (tableRenaming old b.tables)) } :=
    (h.mapTables fun t ht =>
      ht.same (selected_carryTable old t) (aggregates_carryTable old t)).same rfl
  rw [carryOver_eq]
  exact (hcarried.restoreAggregates old).same rfl

theorem everywhere_wellChosen_carryOver (h : b.Everywhere WellChosen) (old : Block) :
    (old.carryOver b).Everywhere WellChosen :=
  everywhere_carryOver (Q := fun _ => True) (fun _ hb => hb) (fun _ old hb _ => hb.carryOver old)
    b old h fun _ _ => trivial

end Block

theorem Canvas.WellChosen.carryOver {c : Canvas} (h : c.WellChosen) (old : Canvas) :
    (old.carryOver c).WellChosen := by
  have hold : old.Everywhere fun _ => True := Canvas.everywhere_iff_blocks.2 fun _ _ => trivial
  have hcarried := Canvas.everywhere_carried (fun _ hb => hb)
    (fun _ old hb _ => Block.WellChosen.carryOver hb old) h hold
  exact hcarried.mapBlocks Block.shallow_eachTable
    (fun _ hb => hb.mapTables fun _ ht => ht.same rfl rfl) fun _ _ hs => hs

/-- A canvas that takes over a text fits. -/
theorem Reader.Takes.wellChosen {r : Reader} {n m : Nat} {c next : Canvas} {focus : Focus}
    {text : String} (h : r.Takes c text n m focus next) (hc : c.WellChosen) : next.WellChosen := by
  cases h with
  | root hrun hm => exact ((r.reads_reached text n).result _ _ hrun).wellChosen.carryOver c
  | @nested _ old parsed n' hfocus hold hrun hm =>
    have hparsed := ((r.reads_reaching c focus text n).result _ _ hrun).wellChosen
    have hupdated := hc.updateBlock
      (fun _ _ => Block.everywhere_wellChosen_carryOver hparsed old) focus
    exact Reader.replaceBlock_induction hupdated fun id hd => hd.refreshCteColumns id

/-! ## What is written -/

/-- The item is one of the results in the query of a block. -/
def Sql.WritesResult (l : Layout) (b : Block) (item : String) : Prop :=
  ∃ before after rest, renderBlock l b =
    "SELECT " ++ commaList (before ++ item :: after) ++ l.clauseBreak ++ rest

theorem Sql.hasNoSource_of_mem {b : Block} {t : Table} (ht : t ∈ b.tables) :
    b.hasNoSource = false := by
  have hne : b.tables.isEmpty = false := List.isEmpty_eq_false_iff.2 (List.ne_nil_of_mem ht)
  rw [Block.hasNoSource, hne, Bool.false_and]

/-- An aggregate around a listed column is written among the results of its block. -/
theorem Sql.writesResult_of_mem {b : Block} {t : Table} (ht : t ∈ b.tables) {column : String}
    (hcolumn : column ∈ t.orderedSelection) {a : ColumnAggregate}
    (ha : t.aggregates.find? column = some a) (l : Layout) :
    WritesResult l b (aliased (call a.function (columnRef t.name column)) a.aliasName) := by
  have hitem : ResultItem.applied a.function t.name column a.aliasName ∈ Sql.results l b := by
    refine List.mem_append_left _ (List.mem_append_left _ (List.mem_flatMap.2 ⟨t, ht, ?_⟩))
    exact List.mem_map.2 ⟨column, hcolumn, by rw [ha]⟩
  obtain ⟨before, after, hitems⟩ := List.append_of_mem hitem
  obtain ⟨rest, hrest⟩ := renderBlock_results l (hasNoSource_of_mem ht)
  refine ⟨before.map ResultItem.text, after.map ResultItem.text, rest, ?_⟩
  have hwritten : resultList (before ++ .applied a.function t.name column a.aliasName :: after) =
      commaList (before.map ResultItem.text
        ++ aliased (call a.function (columnRef t.name column)) a.aliasName
          :: after.map ResultItem.text) := by
    rw [resultList, List.map_append, List.map_cons, if_neg (by simp)]
    rfl
  rw [hrest, hitems, hwritten]

namespace Session

variable {s : Session}

/-- The text that a session shows of a block ends with the query of the block. -/
theorem exists_textOf {focus : Focus} {b : Block} (h : s.canvas.block? focus = some b)
    (hsource : b.hasNoSource = false) :
    ∃ front, s.textOf focus = front ++ renderBlock s.settings.layout b := by
  cases focus with
  | root =>
    cases h
    unfold textOf generated render
    rw [if_neg (Bool.eq_false_iff.1 hsource)]
    dsimp only
    split
    · exact ⟨"", String.empty_append.symm⟩
    · exact ⟨_, rfl⟩
  | cte id => exact ⟨"", by simp [textOf, h]⟩
  | subquery id => exact ⟨"", by simp [textOf, h]⟩

/-! ## Sessions -/

/-- What a session says of a table of a block: no column is chosen twice, and an aggregate around a
column is around a chosen one, which is listed, and is written among the results of the block, also
in the text that the session shows of the block. -/
structure ShowsTable (s : Session) (b : Block) (t : Table) : Prop where
  once : t.selected.Nodup
  chosen : ∀ column a, t.aggregates.find? column = some a → column ∈ t.selected
  listed : ∀ column a, t.aggregates.find? column = some a → column ∈ t.orderedSelection
  written : ∀ column a, t.aggregates.find? column = some a → ∀ l,
    WritesResult l b (aliased (call a.function (columnRef t.name column)) a.aliasName)
  shown : ∀ focus, s.canvas.block? focus = some b →
    ∃ front, s.textOf focus = front ++ renderBlock s.settings.layout b

theorem showsTable_of_wellChosen {b : Block} {t : Table} (ht : t ∈ b.tables)
    (h : t.WellChosen) : s.ShowsTable b t where
  once := h.once
  chosen := fun _ _ => h.applied
  listed := fun _ _ ha => Table.mem_orderedSelection.2 (h.applied ha)
  written := fun _ _ ha => writesResult_of_mem ht (Table.mem_orderedSelection.2 (h.applied ha)) ha
  shown := fun _ hfocus => exists_textOf hfocus (hasNoSource_of_mem ht)

/-- A request leaves the choice and the aggregates of every table fitting. -/
theorem Leaves.wellChosen {n m : Nat} {request : Request} {c : Canvas}
    (h : s.Leaves n m request c) (hs : s.canvas.WellChosen) : c.WellChosen := by
  cases h with
  | kept _ => exact hs
  | edited _ _ edit => exact hs.edit _ edit
  | refreshed _ _ edit cte => exact (hs.edit _ edit).refreshCteColumns cte
  | taken _ htakes => exact htakes.wellChosen hs

/-- Whatever was asked of a session since its start, short of putting another canvas in place: no
table has a column chosen twice, and every aggregate around a column is around a chosen one, and is
listed and written. -/
theorem aggregates_written (settings : Settings) (catalog : Catalog) (requests : List Request)
    (hkeeps : ∀ r ∈ requests, r.KeepsCanvas) (n : Nat) :
    ∀ b ∈ ((start settings catalog).runAll requests n).1.canvas.blocks, ∀ t ∈ b.tables,
      ((start settings catalog).runAll requests n).1.ShowsTable b t := by
  intro b hb t ht
  have hrun := yields_runAll (I := fun _ c => c.WellChosen) (fun h _ hs => h.wellChosen hs)
    requests hkeeps (start settings catalog) n Canvas.wellChosen_empty
  exact showsTable_of_wellChosen ht (Canvas.everywhere_iff_blocks.1 hrun.result b hb t ht)

/-- A sum is put around a column, and is typed anew before a further column, which is not
declared. -/
def retyped : List Request :=
  [.edit (.addTable "t" ["c"] default),
   .edit (.setColumnAggregate (EntityId.minted 0) "c" (some ⟨.sum, none⟩)),
   .type "select SUM(t.c), t.d from t"]

theorem aggregates_written_retyped :
    (∀ r ∈ retyped, r.KeepsCanvas) ∧
      ∃ b ∈ ((start default .empty).runAll retyped 0).1.canvas.blocks, ∃ t ∈ b.tables,
        t.aggregates.find? "c" = some ⟨.sum, none⟩ ∧
        ((start default .empty).runAll retyped 0).1.ShowsTable b t := by
  have hkeeps : ∀ r ∈ retyped, r.KeepsCanvas := by simp [retyped, Request.KeepsCanvas]
  have hsum : ∃ t ∈ ((start default .empty).runAll retyped 0).1.canvas.root.tables,
      t.aggregates.find? "c" = some ⟨.sum, none⟩ := by decide +kernel
  obtain ⟨t, ht, hsum⟩ := hsum
  have hroot := List.mem_append_left
    (((start default .empty).runAll retyped 0).1.canvas.ctes.flatMap fun q => q.block.blocks)
    (Block.self_mem_blocks ((start default .empty).runAll retyped 0).1.canvas.root)
  exact ⟨hkeeps, _, hroot, t, ht, hsum,
    aggregates_written default .empty retyped hkeeps 0 _ hroot t ht⟩

end Session

end QueryCanvas
