import QueryCanvas.Proofs.Canvas.Results
import QueryCanvas.Proofs.CarryOver.Apart
import QueryCanvas.Proofs.CarryOver.Links

/-!
# What is shown of named queries after identities were taken over

A table that is read shows the results that its named query had when the text was read.  The table
keeps the columns of the table of that name before where the named query had no results, and the
named query gets other results where aggregates go back around columns.  Here it is said exactly
when the tables show the results all the same.
-/

set_option autoImplicit false

namespace QueryCanvas

namespace Block

variable {n n' : Nat} {ctes : List EntityId} {old b : Block} {A : EntityId → List String → Prop}

/-! ## Blocks -/

theorem columns_carriedTable (old b : Block) (t : Table) :
    (carriedTable old b t).columns = (carryTable old t).columns := by
  unfold carriedTable
  refine List.foldlRecOn (motive := fun u : Table => u.columns = (carryTable old t).columns) _ _
    rfl ?_
  exact fun u hu p _ => (Table.sameLink_setAggregate u p.column (some p.aggregate)).2.trans hu

/-- The tables of a block that read named queries have columns that are allowed, own ones or those
of the tables of their names before, and so have those of the nested queries. -/
inductive Shows (A : EntityId → List String → Prop) : Block → Block → Prop
  | mk {old b : Block}
      (tables : ∀ t ∈ b.tables, ∀ id, t.cte = some id → A id (carryTable old t).columns)
      (matched : ∀ p ∈ paired old.subqueries b.subqueries, ∀ o, p.2 = some o →
        Shows A o.block p.1.block)
      (apart : ∀ p ∈ paired old.subqueries b.subqueries, p.2 = none →
        p.1.block.Everywhere (Linked A)) : Shows A old b

theorem shows_iff : Shows A old b ↔
    (∀ t ∈ b.tables, ∀ id, t.cte = some id → A id (carryTable old t).columns) ∧
      (∀ p ∈ paired old.subqueries b.subqueries, ∀ o, p.2 = some o → Shows A o.block p.1.block) ∧
      ∀ p ∈ paired old.subqueries b.subqueries, p.2 = none → p.1.block.Everywhere (Linked A) :=
  ⟨fun ⟨tables, matched, apart⟩ => ⟨tables, matched, apart⟩,
    fun ⟨tables, matched, apart⟩ => .mk tables matched apart⟩

theorem linked_carryOver_iff (hb : b.Drawn n n' ctes) :
    (old.carryOver b).Linked A ↔
      ∀ t ∈ b.tables, ∀ id, t.cte = some id → A id (carryTable old t).columns := by
  rw [Linked, carryOver_tables old b hb.nodup_names, List.forall_mem_map]
  refine forall₂_congr fun t _ => ?_
  rw [carriedTable_cte, columns_carriedTable]

/-- What the tables that read named queries show in a tree that took over from another one. -/
theorem everywhere_linked_carryOver_iff : ∀ b old : Block, b.Everywhere (Drawn n n' ctes) →
    ((old.carryOver b).Everywhere (Linked A) ↔ Shows A old b) := by
  refine tree_induction fun b ih old hb => ?_
  obtain ⟨hself, hbelow⟩ := everywhere_iff.1 hb
  rw [everywhere_iff, linked_carryOver_iff hself, forall_nested_carryOver, shows_iff]
  refine and_congr_right fun _ => ⟨fun h => ⟨?_, ?_⟩, ?_⟩
  · rintro ⟨s, _⟩ hp o rfl
    have hs := (mem_paired hp).1
    exact (ih s hs o.block (hbelow s hs)).1 (h _ hp)
  · rintro ⟨s, _⟩ hp rfl
    exact h _ hp
  · rintro ⟨hmatched, hapart⟩ ⟨s, _ | o⟩ hp
    · exact hapart _ hp rfl
    · have hs := (mem_paired hp).1
      exact (ih s hs o.block (hbelow s hs)).2 (hmatched _ hp o rfl)

/-- Only what is said of known named queries matters. -/
theorem everywhere_linked_congr {A' : EntityId → List String → Prop} {ids : List EntityId}
    (hlinks : b.Everywhere fun d => ∀ t ∈ d.tables, ∀ id, t.cte = some id → id ∈ ids)
    (h : ∀ id ∈ ids, ∀ columns, A id columns ↔ A' id columns) :
    b.Everywhere (Linked A) ↔ b.Everywhere (Linked A') :=
  forall₂_congr fun d hd => forall₂_congr fun t ht => forall₂_congr fun id hid =>
    h id (hlinks d hd t ht id hid) t.columns

/-- Where links follow a renaming, what is shown under the new identifiers was shown under the old
ones. -/
theorem everywhere_linked_relinked_iff (r : Renaming) : ∀ b : Block,
    (b.mapBlocks (relinked r)).Everywhere (Linked A) ↔
      b.Everywhere (Linked fun id columns => A (r.apply id) columns) := by
  refine tree_induction fun b ih => ?_
  rw [mapBlocks_eq, everywhere_iff, everywhere_iff (b := b)]
  refine and_congr ?_ ?_
  · show (∀ t ∈ b.tables.map _, _) ↔ _
    rw [List.forall_mem_map]
    refine forall₂_congr fun t _ => ?_
    simp only [Option.map_eq_some_iff, forall_exists_index, and_imp]
    exact ⟨fun h id hid => h _ id hid rfl, fun h _ id hid heq => heq ▸ h id hid⟩
  · show (∀ s ∈ b.subqueries.map _, _) ↔ _
    rw [List.forall_mem_map]
    exact forall₂_congr ih

end Block

namespace Canvas

variable {n n' : Nat} {old c : Canvas} {catalog : Catalog} {A : EntityId → List String → Prop}

/-! ## Canvases -/

/-- A table that reads a named query shows the results that this has after it took over. -/
def ShownAfter (old c : Canvas) (id : EntityId) (columns : List String) : Prop :=
  ∀ q ∈ c.ctes, q.id = id → (carriedCte old c q).block.outputColumns = columns

/-- The tables that read named queries show the results that these have after they took over: below
the root, and in the named queries, with what those of the same names had before. -/
structure Shows (old c : Canvas) : Prop where
  root : old.root.Shows (old.ShownAfter c) c.root
  matched : ∀ q ∈ c.ctes, ∀ before, old.cteNamed? q.name = some before →
    before.block.Shows (old.ShownAfter c) q.block
  apart : ∀ q ∈ c.ctes, old.cteNamed? q.name = none →
    q.block.Everywhere (Block.Linked (old.ShownAfter c))

theorem results?_of_mem (hids : c.cteIds.Nodup) {q : Cte} (hq : q ∈ c.ctes) :
    c.results? q.id = some q.block.outputColumns := by
  have hfound : c.cte? q.id = some q := find?_of_nodup hids hq
  rw [results?, hfound]
  rfl

theorem results?_carryOver (hids : (old.carryOver c).cteIds.Nodup) {q : Cte} (hq : q ∈ c.ctes) :
    (old.carryOver c).results? (carryCte old q).id =
      some (carriedCte old c q).block.outputColumns := by
  have hmem : carriedCte old c q ∈ (old.carryOver c).ctes := by
    rw [ctes_carryOver]
    exact List.mem_map_of_mem hq
  exact results?_of_mem hids hmem

/-- A link leads to one named query that was read, and shows its results afterwards exactly if it
shows those that this has after it took over. -/
theorem results?_renamed_iff (hnodup : c.cteIds.Nodup) (hids : (old.carryOver c).cteIds.Nodup)
    {id : EntityId} (hid : id ∈ c.cteIds) (columns : List String) :
    (old.carryOver c).results? ((cteRenaming old c.ctes).apply id) = some columns ↔
      old.ShownAfter c id columns := by
  obtain ⟨q, hq, rfl⟩ := List.mem_map.1 hid
  rw [cteRenaming_apply old hnodup hq, results?_carryOver hids hq, Option.some.injEq]
  constructor
  · rintro hshown r hr hsame
    rw [List.inj_on_of_nodup_map hnodup hr hq hsame]
    exact hshown
  · exact fun h => h q hq rfl

/-- The tables of a named query that took over show what they should exactly if they did so while
the named query took over. -/
theorem everywhere_linked_carryCte_iff {q : Cte} {ctes : List EntityId}
    (hq : q.block.Everywhere (Block.Drawn n n' ctes)) :
    (carryCte old q).block.Everywhere (Block.Linked A) ↔
      (∀ before, old.cteNamed? q.name = some before → before.block.Shows A q.block) ∧
        (old.cteNamed? q.name = none → q.block.Everywhere (Block.Linked A)) := by
  unfold carryCte
  cases hname : old.cteNamed? q.name with
  | none => exact ⟨fun h => ⟨nofun, fun _ => h⟩, fun h => h.2 rfl⟩
  | some before =>
    have hiff := Block.everywhere_linked_carryOver_iff (A := A) q.block before.block hq
    refine ⟨fun h => ⟨?_, nofun⟩, fun h => hiff.2 (h.1 before rfl)⟩
    rintro _ ⟨⟩
    exact hiff.1 h

theorem links_carryCte {q : Cte} {ctes : List EntityId}
    (hq : q.block.Everywhere (Block.Drawn n n' ctes)) :
    (carryCte old q).block.Everywhere fun d =>
      ∀ t ∈ d.tables, ∀ id, t.cte = some id → id ∈ ctes := by
  unfold carryCte
  split
  · exact hq.imp fun _ hb => hb.links
  · exact Block.links_carryOver _ _ hq

/-- On a whole canvas that took over, the tables that read named queries show their results exactly
if they show those that these have after they took over. -/
theorem current_carryOver_iff (h : Sql.CanvasReached catalog n n' c)
    (hids : (old.carryOver c).cteIds.Nodup) : (old.carryOver c).Current ↔ old.Shows c := by
  have hdrawn := h.drawn
  have hrenamed : ∀ id ∈ c.cteIds, ∀ columns,
      (old.carryOver c).results? ((cteRenaming old c.ctes).apply id) = some columns ↔
        old.ShownAfter c id columns :=
    fun _ hid => results?_renamed_iff hdrawn.cteIds.nodup hids hid
  have hroot : (old.carryOver c).root.Everywhere
      (Block.Linked fun id columns => (old.carryOver c).results? id = some columns) ↔
        old.root.Shows (old.ShownAfter c) c.root := by
    refine (Block.everywhere_linked_relinked_iff _ _).trans ?_
    refine (Block.everywhere_linked_congr ?_ hrenamed).trans ?_
    · exact Block.links_carryOver _ _ hdrawn.blocks.1
    · exact Block.everywhere_linked_carryOver_iff _ _ hdrawn.blocks.1
  have hctes : (∀ q ∈ (old.carryOver c).ctes, q.block.Everywhere
      (Block.Linked fun id columns => (old.carryOver c).results? id = some columns)) ↔
        ∀ q ∈ c.ctes, (∀ before, old.cteNamed? q.name = some before →
            before.block.Shows (old.ShownAfter c) q.block) ∧
          (old.cteNamed? q.name = none →
            q.block.Everywhere (Block.Linked (old.ShownAfter c))) := by
    rw [ctes_carryOver, List.forall_mem_map]
    refine forall₂_congr fun q hq => ?_
    refine (Block.everywhere_linked_relinked_iff _ _).trans ?_
    refine (Block.everywhere_linked_congr ?_ hrenamed).trans ?_
    · exact links_carryCte (hdrawn.blocks.2 q hq)
    · exact everywhere_linked_carryCte_iff (hdrawn.blocks.2 q hq)
  constructor
  · rintro ⟨hbelow, hqueries⟩
    have hqueries := hctes.1 hqueries
    exact ⟨hroot.1 hbelow, fun q hq => (hqueries q hq).1, fun q hq => (hqueries q hq).2⟩
  · rintro ⟨root, matched, apart⟩
    exact ⟨hroot.2 root, hctes.2 fun q hq => ⟨matched q hq, apart q hq⟩⟩

end Canvas

end QueryCanvas
