import QueryCanvas.Proofs.CarryOver.Matching

/-!
# A canvas that takes over identities stays anchored

The blocks of a canvas that was read anew are anchored by their new identifiers.  Where tables get
old identifiers, the joins follow them, and where named queries do, the links follow.
-/

set_option autoImplicit false

namespace QueryCanvas

namespace Block

/-! ## Nested queries -/

theorem carryOver_eq (old b : Block) :
    carryOver old b = carryWith old b (carryNested old.subqueries b.subqueries) := by
  cases b
  rfl

/-- A nested query afterwards is one that was read, perhaps with what it takes over from one
before. -/
theorem mem_carryNested {olds subs : List Subquery} {s' : Subquery}
    (h : s' ∈ carryNested olds subs) :
    ∃ s ∈ subs, s'.block = s.block ∨ ∃ old ∈ olds, s'.block = old.block.carryOver s.block := by
  induction subs generalizing olds with
  | nil => simp [carryNested] at h
  | cons s rest ih =>
    rw [carryNested] at h
    split at h
    · rcases List.mem_cons.1 h with rfl | h
      · exact ⟨s, List.mem_cons_self, .inl rfl⟩
      · obtain ⟨r, hr, hblock⟩ := ih h
        exact ⟨r, List.mem_cons_of_mem s hr, hblock⟩
    · rename_i old hold
      rcases List.mem_cons.1 h with rfl | h
      · exact ⟨s, List.mem_cons_self, .inr ⟨old, List.mem_of_find?_eq_some hold, rfl⟩⟩
      · obtain ⟨r, hr, hblock⟩ := ih h
        refine ⟨r, List.mem_cons_of_mem s hr, hblock.imp_right ?_⟩
        rintro ⟨old', hold', heq⟩
        exact ⟨old', List.mem_of_mem_eraseP hold', heq⟩

/-! ## Tables and joins -/

variable {lo n n' : Nat} {ctes ctes' : List EntityId} {old b : Block}

/-- Identifiers that were given out earlier are not among those given out later. -/
theorem apart_of_between {ids ids' : List EntityId} (h : Serial lo n ids) (h' : Serial n n' ids') :
    ∀ id ∈ ids, id ∉ ids' :=
  fun id hid hid' => (h.between id hid).ne (h'.between id hid') rfl

theorem Drawn.matching (hb : b.Drawn n n' ctes) (hold : Serial 0 n (old.tables.map (·.id))) :
    Matching (tableMatches old b.tables) :=
  matching_tables hold.nodup hb.tableIds.nodup hb.names (apart_of_between hold hb.tableIds)

/-- Tables have different identifiers after they took some over. -/
theorem Drawn.carriedIds (hb : b.Drawn n n' ctes) (hold : Serial 0 n (old.tables.map (·.id)))
    (hn : n ≤ n') : Serial 0 n' ((b.tables.map (carryTable old)).map (·.id)) := by
  rw [map_carryTable_id]
  refine (hb.matching hold).serial_kept (fun id hid => ?_) (fun id hid => ?_) hn
  · rw [tableMatches_news] at hid
    exact hb.tableIds.between id hid
  · exact hold.between id (mem_tableMatches_olds hid)

/-- Joins follow the tables that they tie. -/
theorem Drawn.carried (hb : b.Drawn n n' ctes) (hold : old.Anchored 0 n ctes') (hn : n ≤ n') :
    Block.Anchored 0 n' ctes { b with
      tables := b.tables.map (carryTable old)
      joins := b.joins.map (carryJoin old (tableRenaming old b.tables)) } := by
  have hmatching := hb.matching hold.tableIds
  have hids := map_carryTable_id old b.tables
  refine ⟨hb.carriedIds hold.tableIds hn, fun j' hj' => ?_, fun t' ht' id hlink => ?_⟩
  · obtain ⟨j, hj, rfl⟩ := List.mem_map.1 hj'
    obtain ⟨hsource, htarget, hdistinct⟩ := hb.joins j hj
    rw [← tableMatches_news old] at hsource htarget
    rw [tableRenaming_eq]
    refine ⟨?_, ?_, fun heq => hdistinct (hmatching.apply_injective hsource htarget heq)⟩
    · rw [hids]
      exact hmatching.apply_mem hsource
    · rw [hids]
      exact hmatching.apply_mem htarget
  · obtain ⟨t, ht, rfl⟩ := List.mem_map.1 ht'
    refine hb.links t ht id ?_
    unfold carryTable at hlink
    split at hlink <;> exact hlink

/-- Aggregates around columns do not matter. -/
theorem Anchored.restoreAggregates (h : b.Anchored lo n ctes) (old : Block) :
    (restoreAggregates old b).Anchored lo n ctes := by
  have hstep : ∀ (table column : String) (a : ColumnAggregate) (b : Block),
      b.Anchored lo n ctes → (b.restoreAggregate table column a).Anchored lo n ctes := by
    intro table column a b hb
    unfold restoreAggregate
    dsimp only
    split
    · have hset := hb.updateTables (·.name = table) (Table.sameBox_setAggregate · column a)
      exact hset.same ⟨rfl, rfl⟩
    · exact hb
  unfold Block.restoreAggregates
  refine List.foldlRecOn _ _ h fun b hb t _ => ?_
  exact List.foldlRecOn _ _ hb fun b hb e _ => hstep _ _ _ b hb

/-- What is carried over of a block is anchored. -/
theorem Drawn.carryOver (hb : b.Drawn n n' ctes) (hold : old.Anchored 0 n ctes') (hn : n ≤ n') :
    (old.carryOver b).Anchored 0 n' ctes := by
  rw [carryOver_eq]
  exact ((hb.carried hold hn).restoreAggregates old).same ⟨rfl, rfl⟩

/-- What holds of every block of a tree after the tree took over from another one: it holds of what
a block takes over, and of a block that takes over nothing. -/
theorem everywhere_carryOver {P Q R : Block → Prop} (hkept : ∀ b, P b → R b)
    (hcarried : ∀ b old : Block, P b → Q old → R (old.carryOver b)) :
    ∀ b old : Block, b.Everywhere P → old.Everywhere Q → (old.carryOver b).Everywhere R := by
  refine tree_induction fun b ih old hb hold => ?_
  obtain ⟨hself, hbelow⟩ := everywhere_iff.1 hb
  obtain ⟨hself', hbelow'⟩ := everywhere_iff.1 hold
  refine everywhere_iff.2 ⟨hcarried b old hself hself', fun s' hs' => ?_⟩
  rw [carryOver_eq] at hs'
  obtain ⟨r, hr, rfl⟩ := List.mem_map.1 hs'
  obtain ⟨s, hs, hblock | ⟨o, ho, hblock⟩⟩ := mem_carryNested hr
  · show r.block.Everywhere _
    rw [hblock]
    exact (hbelow s hs).imp hkept
  · show r.block.Everywhere _
    rw [hblock]
    exact ih s hs o.block (hbelow s hs) (hbelow' o ho)

end Block

namespace Canvas

variable {n n' : Nat} {old c : Canvas}

/-- What holds of every block of a canvas after the canvas took over from another one, before the
links follow. -/
theorem everywhere_carried {P Q R : Block → Prop} (hkept : ∀ b, P b → R b)
    (hcarried : ∀ b old : Block, P b → Q old → R (old.carryOver b)) (hc : c.Everywhere P)
    (hold : old.Everywhere Q) :
    Everywhere R { ctes := c.ctes.map (carryCte old), root := old.root.carryOver c.root } := by
  refine ⟨Block.everywhere_carryOver hkept hcarried _ _ hc.1 hold.1, fun q' hq' => ?_⟩
  obtain ⟨q, hq, rfl⟩ := List.mem_map.1 hq'
  unfold carryCte
  split
  · exact (hc.2 q hq).imp hkept
  · rename_i before hbefore
    exact Block.everywhere_carryOver hkept hcarried _ _ (hc.2 q hq)
      (hold.2 before (List.mem_of_find?_eq_some hbefore))

theorem cteIds_carryOver (old c : Canvas) :
    (old.carryOver c).cteIds = (c.ctes.map (carryCte old)).map (·.id) := by
  rw [Canvas.carryOver, cteIds_mapBlocks]
  rfl

/-- What is carried over of a canvas is anchored: the links of tables follow the named queries. -/
theorem Drawn.carryOver (hc : c.Drawn n n') (hold : old.Anchored n) (hn : n ≤ n') :
    (old.carryOver c).Anchored n' := by
  have hcarried := everywhere_carried (R := Block.Anchored 0 n' c.cteIds)
    (fun b hb => hb.toAnchored.mono (Nat.zero_le n) (Nat.le_refl n') fun _ hid => hid)
    (fun b old hb hold => hb.carryOver hold hn) hc.blocks hold
  unfold Anchored
  rw [cteIds_carryOver]
  refine hcarried.mapBlocks Block.shallow_anchored (fun b hb => ?_) fun _ _ hs => hs
  refine ⟨?_, ?_, fun t' ht' id hlink => ?_⟩
  · simpa [Function.comp_def] using hb.tableIds
  · simpa [Function.comp_def] using hb.joins
  · obtain ⟨t, ht, rfl⟩ := List.mem_map.1 ht'
    obtain ⟨id', hid', rfl⟩ := Option.map_eq_some_iff.1 hlink
    exact cteRenaming_apply_mem hc.cteIds.nodup (hb.links t ht id' hid')

end Canvas

end QueryCanvas
