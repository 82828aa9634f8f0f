import QueryCanvas.Proofs.CarryOver.Numbered

/-!
# Joins of a canvas that takes over identities

A join takes over the identifier of the join that connected the same before.  A query may write one
equality twice, and then both joins take over one identifier.  The joins stay apart exactly where no
block writes an equality twice that the block has too from which it takes over.
-/

set_option autoImplicit false

namespace QueryCanvas

namespace Block

variable {n n' : Nat} {ctes : List EntityId} {old b : Block}

/-- Two joins connect the same, and so does a join of the earlier block. -/
def RepeatsTie (old b : Block) : Prop :=
  ∃ j ∈ b.joins, ∃ k ∈ b.joins, j ≠ k ∧ j.tie = k.tie ∧
    ∃ before ∈ old.joins, before.tie = (carryJoin old (tableRenaming old b.tables) j).tie

theorem tie_carryJoin_congr (old : Block) (r : Renaming) {j k : Join} (h : j.tie = k.tie) :
    (carryJoin old r j).tie = (carryJoin old r k).tie := by
  simp only [Join.tie, Prod.mk.injEq] at h
  simp only [Join.tie, carryJoin, h]

/-- Joins that connect the same afterwards connected the same before. -/
theorem tie_of_carryJoin (hb : b.Drawn n n' ctes) (hold : Serial 0 n (old.tables.map (·.id)))
    {j k : Join} (hj : j ∈ b.joins) (hk : k ∈ b.joins)
    (h : (carryJoin old (tableRenaming old b.tables) j).tie =
      (carryJoin old (tableRenaming old b.tables) k).tie) : j.tie = k.tie := by
  have hinjective : ∀ {id id'}, id ∈ b.tables.map (·.id) → id' ∈ b.tables.map (·.id) →
      (tableRenaming old b.tables).apply id = (tableRenaming old b.tables).apply id' →
        id = id' := by
    intro id id' hid hid' heq
    rw [← tableMatches_news old] at hid hid'
    rw [tableRenaming_eq] at heq
    exact (hb.matching hold).apply_injective hid hid' heq
  simp only [Join.tie, carryJoin, Prod.mk.injEq] at h
  obtain ⟨hsource, hcolumn, htarget, hcolumn'⟩ := h
  have hsource := hinjective (hb.joins j hj).source (hb.joins k hk).source hsource
  have htarget := hinjective (hb.joins j hj).target (hb.joins k hk).target htarget
  rw [Join.tie, Join.tie, hsource, hcolumn, htarget, hcolumn']

/-- Two joins have one identifier afterwards exactly if they take over the same join. -/
theorem carryJoin_id_eq_iff (hb : b.Drawn n n' ctes) (hapart : b.Apart n n') (hold : old.Apart 0 n)
    {j k : Join} (hj : j ∈ b.joins) (hk : k ∈ b.joins) (hne : j ≠ k) :
    (carryJoin old (tableRenaming old b.tables) j).id =
        (carryJoin old (tableRenaming old b.tables) k).id ↔
      j.tie = k.tie ∧
        ∃ before ∈ old.joins, before.tie = (carryJoin old (tableRenaming old b.tables) j).tie := by
  have hearlier : ∀ {tie o}, old.joinTying? tie = some o → o.id.Between 0 n :=
    fun ho => hold.1.joins _ (List.mem_map_of_mem (joinTying?_mem ho).1)
  have hlater : ∀ {i : Join}, i ∈ b.joins → i.id.Between n n' :=
    fun hi => hapart.1.joins _ (List.mem_map_of_mem hi)
  rw [carryJoin_id, carryJoin_id]
  constructor
  · intro hids
    cases hjo : old.joinTying? (carryJoin old (tableRenaming old b.tables) j).tie with
    | none =>
      cases hko : old.joinTying? (carryJoin old (tableRenaming old b.tables) k).tie with
      | none =>
        rw [hjo, hko] at hids
        exact absurd (List.inj_on_of_nodup_map hapart.2 hj hk hids) hne
      | some o =>
        rw [hjo, hko] at hids
        exact absurd hids.symm ((hearlier hko).ne (hlater hj))
    | some o =>
      cases hko : old.joinTying? (carryJoin old (tableRenaming old b.tables) k).tie with
      | none =>
        rw [hjo, hko] at hids
        exact absurd hids ((hearlier hjo).ne (hlater hk))
      | some o' =>
        rw [hjo, hko] at hids
        obtain ⟨ho, hjtie⟩ := joinTying?_mem hjo
        obtain ⟨ho', hktie⟩ := joinTying?_mem hko
        obtain rfl := List.inj_on_of_nodup_map hold.2 ho ho' hids
        have htie := tie_of_carryJoin hb hold.1.tables hj hk (hjtie.symm.trans hktie)
        exact ⟨htie, o, ho, hjtie⟩
  · rintro ⟨htie, before, hbefore, hsame⟩
    obtain ⟨o, ho⟩ :
        ∃ o, old.joinTying? (carryJoin old (tableRenaming old b.tables) j).tie = some o :=
      Option.isSome_iff_exists.1 (List.find?_isSome.2 ⟨before, hbefore, by simpa using hsame⟩)
    rw [← tie_carryJoin_congr old _ htie, ho]
    rfl

/-- The joins have different identifiers afterwards exactly if no equality that the earlier block
has is written twice. -/
theorem joinsApart_carryOver_iff (hb : b.Drawn n n' ctes) (hapart : b.Apart n n')
    (hold : old.Apart 0 n) : (old.carryOver b).JoinsApart ↔ ¬RepeatsTie old b := by
  have hnodup : b.joins.Nodup := List.Nodup.of_map _ hapart.2
  rw [JoinsApart, carryOver_joins, List.map_map, List.nodup_map_iff_inj_on hnodup]
  constructor
  · rintro hinjective ⟨j, hj, k, hk, hne, hties⟩
    exact hne (hinjective j hj k hk ((carryJoin_id_eq_iff hb hapart hold hj hk hne).2 hties))
  · intro hrepeats j hj k hk hids
    refine Classical.byContradiction fun hne => hrepeats ⟨j, hj, k, hk, hne, ?_⟩
    exact (carryJoin_id_eq_iff hb hapart hold hj hk hne).1 hids

/-! ## Trees -/

/-- In the block, or in a nested query that takes over from one before, an equality is written twice
that the block from which it takes over has too. -/
inductive Repeats : Block → Block → Prop
  | here {old b : Block} (h : RepeatsTie old b) : Repeats old b
  | nested {old b : Block} {s o : Subquery}
      (hpaired : (s, some o) ∈ paired old.subqueries b.subqueries)
      (h : Repeats o.block s.block) : Repeats old b

theorem repeats_iff : Repeats old b ↔ RepeatsTie old b ∨
    ∃ s o, (s, some o) ∈ paired old.subqueries b.subqueries ∧ Repeats o.block s.block := by
  constructor
  · rintro (h | ⟨hpaired, h⟩)
    · exact .inl h
    · exact .inr ⟨_, _, hpaired, h⟩
  · rintro (h | ⟨s, o, hpaired, h⟩)
    · exact .here h
    · exact .nested hpaired h

theorem forall_nested_carryOver {P : Block → Prop} :
    (∀ s ∈ (old.carryOver b).subqueries, P s.block) ↔
      ∀ p ∈ paired old.subqueries b.subqueries, P (carriedSubquery p).block := by
  have hblocks : (old.carryOver b).subqueries.map (·.block) =
      (paired old.subqueries b.subqueries).map fun p => (carriedSubquery p).block := by
    have hnodes := congrArg (List.map Prod.snd) (nodes_carryOver old b)
    rwa [List.map_map, List.map_map] at hnodes
  rw [← List.forall_mem_map, hblocks, List.forall_mem_map]

/-- Joins are apart throughout a tree that took over from another one exactly if no equality is
written twice that was there before. -/
theorem everywhere_joinsApart_carryOver_iff : ∀ b old : Block,
    b.Everywhere (fun c => c.Drawn n n' ctes ∧ c.Apart n n') → old.Everywhere (Apart 0 n) →
      ((old.carryOver b).Everywhere JoinsApart ↔ ¬Repeats old b) := by
  refine tree_induction fun b ih old hb hold => ?_
  obtain ⟨⟨hdrawn, hapart⟩, hbelow⟩ := everywhere_iff.1 hb
  obtain ⟨hself', hbelow'⟩ := everywhere_iff.1 hold
  rw [everywhere_iff, joinsApart_carryOver_iff hdrawn hapart hself', forall_nested_carryOver,
    repeats_iff, not_or]
  refine and_congr_right fun _ => ?_
  simp only [not_exists, not_and]
  constructor
  · intro h s o hp
    obtain ⟨hs, ho⟩ := mem_paired hp
    exact (ih s hs o.block (hbelow s hs) (hbelow' o (ho o rfl))).1 (h _ hp)
  · rintro h ⟨s, _ | o⟩ hp
    · exact (hbelow s (mem_paired hp).1).imp fun c hc => hc.2.2
    · obtain ⟨hs, ho⟩ := mem_paired hp
      exact (ih s hs o.block (hbelow s hs) (hbelow' o (ho o rfl))).2 (h s o hp)

theorem everywhere_joinsApart_relinked (r : Renaming) : ∀ b : Block,
    (b.mapBlocks (relinked r)).Everywhere JoinsApart ↔ b.Everywhere JoinsApart := by
  refine tree_induction fun b ih => ?_
  rw [mapBlocks_eq, everywhere_iff, everywhere_iff (b := b)]
  refine and_congr_right fun _ => ?_
  show (∀ s ∈ b.subqueries.map _, _) ↔ _
  rw [List.forall_mem_map]
  exact forall₂_congr ih

end Block

namespace Canvas

variable {n n' : Nat} {old c : Canvas} {catalog : Catalog}

/-- In the root, or in a named query of a name that was there before, an equality is written twice
that was there before. -/
def Repeats (old c : Canvas) : Prop :=
  old.root.Repeats c.root ∨
    ∃ q ∈ c.ctes, ∃ before, old.cteNamed? q.name = some before ∧ before.block.Repeats q.block

/-- Joins are apart throughout a canvas that took over from another one exactly if no equality is
written twice that was there before. -/
theorem everywhere_joinsApart_carryOver_iff (h : Sql.CanvasReached catalog n n' c)
    (hold : old.Everywhere (Block.Apart 0 n)) :
    (old.carryOver c).Everywhere Block.JoinsApart ↔ ¬Repeats old c := by
  have hboth := h.drawn_apart
  have hroot : (old.carryOver c).root.Everywhere Block.JoinsApart ↔ ¬old.root.Repeats c.root :=
    (Block.everywhere_joinsApart_relinked _ _).trans
      (Block.everywhere_joinsApart_carryOver_iff _ _ hboth.1 hold.1)
  rw [Everywhere, hroot, ctes_carryOver, List.forall_mem_map, Repeats, not_or]
  refine and_congr_right fun _ => ?_
  simp only [not_exists, not_and]
  refine forall₂_congr fun q hq => ?_
  refine (Block.everywhere_joinsApart_relinked _ _).trans ?_
  unfold carryCte
  cases hname : old.cteNamed? q.name with
  | none =>
    have hapart := (hboth.2 q hq).imp fun b hb => hb.2.2
    simpa using hapart
  | some before =>
    have hiff := Block.everywhere_joinsApart_carryOver_iff _ _ (hboth.2 q hq)
      (hold.2 before (List.mem_of_find?_eq_some hname))
    simpa using hiff

end Canvas

end QueryCanvas
