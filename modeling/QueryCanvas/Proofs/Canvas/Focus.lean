import QueryCanvas.Proofs.Canvas.Edits

/-!
# The block of a pointer after a change

What a pointer leads to after the block there was changed is the changed block.  This holds for
nested queries at any depth, also where an identifier stands at several places: looking up and
changing take the same one.
-/

set_option autoImplicit false

namespace QueryCanvas

namespace Block

variable {id : EntityId} {change : Block → Block}

/-- A change in a list reaches the nested query that looking up in the list finds. -/
theorem nestedIn?_updateNestedIn? {subs : List Subquery}
    (h : ∀ s ∈ subs, (s.block.updateNested? id change).map (Block.nested? id) =
      (s.block.nested? id).map fun c => some (change c)) :
    (updateNestedIn? id change subs).map (nestedIn? id) =
      (nestedIn? id subs).map fun c => some (change c) := by
  induction subs with
  | nil => rfl
  | cons s rest ih =>
    obtain ⟨hfirst, hrest⟩ := List.forall_mem_cons.1 h
    rw [updateNestedIn?, nestedIn?]
    by_cases hid : s.id = id
    · rw [if_pos hid, if_pos hid, Option.map_some, nestedIn?, if_pos hid]
      rfl
    · rw [if_neg hid, if_neg hid]
      cases hupdate : s.block.updateNested? id change with
      | none =>
        rw [hupdate, Option.map_none, eq_comm, Option.map_eq_none_iff] at hfirst
        rw [hfirst, ← ih hrest, Option.map_map]
        congr 1
        funext subs
        rw [Function.comp_apply, nestedIn?, if_neg hid, hfirst]
      | some b' =>
        rw [hupdate, Option.map_some, eq_comm] at hfirst
        obtain ⟨c, hc, hb'⟩ := Option.map_eq_some_iff.1 hfirst
        rw [hc, Option.map_some, Option.map_some, nestedIn?, if_neg hid, ← hb']

theorem nested?_updateNested? (id : EntityId) (change : Block → Block) : ∀ b : Block,
    (b.updateNested? id change).map (Block.nested? id) =
      (b.nested? id).map fun c => some (change c) := by
  refine tree_induction fun b ih => ?_
  have hlist := nestedIn?_updateNestedIn? ih
  cases b
  rw [updateNested?, nested?, Option.map_map]
  exact hlist

/-- A change that finds nothing to change is one below nothing. -/
theorem nested?_eq_none {b : Block} (h : b.updateNested? id change = none) :
    b.nested? id = none := by
  have hlaw := nested?_updateNested? id change b
  rw [h, Option.map_none, eq_comm, Option.map_eq_none_iff] at hlaw
  exact hlaw

theorem nested?_eq_some {b b' : Block} (h : b.updateNested? id change = some b') :
    ∃ c, b.nested? id = some c ∧ b'.nested? id = some (change c) := by
  have hlaw := nested?_updateNested? id change b
  rw [h, Option.map_some, eq_comm] at hlaw
  obtain ⟨c, hc, hb'⟩ := Option.map_eq_some_iff.1 hlaw
  exact ⟨c, hc, hb'.symm⟩

/-- A change that leaves every block of a tree alone leaves the tree alone. -/
theorem mapBlocks_eq_self : ∀ {b : Block}, (∀ c ∈ b.blocks, change c = c) →
    b.mapBlocks change = b := by
  intro b
  induction b using tree_induction with
  | step b ih =>
    intro h
    rw [mapBlocks_eq]
    have hsubs : b.subqueries.map (fun s => { s with block := s.block.mapBlocks change }) =
        b.subqueries := by
      refine (List.map_congr_left fun s hs => ?_).trans (List.map_id _)
      rw [ih s hs fun c hc => h c (mem_blocks.2 (.inr ⟨s, hs, hc⟩))]
      rfl
    rw [hsubs]
    have hself := h b (self_mem_blocks b)
    cases b
    exact hself

theorem updateLinked_eq_self {b : Block} (h : ∀ t ∈ b.tables, t.cte ≠ some id)
    (f : Table → Table) : b.updateLinked id f = b := by
  have hsame : b.tables.map (fun t => if t.cte = some id then f t else t) = b.tables :=
    (List.map_congr_left fun t ht => if_neg (h t ht)).trans (List.map_id _)
  rw [updateLinked, hsame]
  cases b
  rfl

end Block

theorem find?_updateFirst {α : Type} {p : α → Bool} {f : α → α} (h : ∀ a, p a → p (f a))
    (l : List α) : (updateFirst p f l).find? p = (l.find? p).map f := by
  induction l with
  | nil => rfl
  | cons a rest ih =>
    rw [updateFirst]
    split
    · rename_i ha
      rw [List.find?_cons_of_pos (h a ha), List.find?_cons_of_pos ha, Option.map_some]
    · rename_i ha
      rw [List.find?_cons_of_neg ha, List.find?_cons_of_neg ha, ih]

namespace Canvas

theorem nested?_updateNestedInCtes (id : EntityId) (change : Block → Block) (ctes : List Cte) :
    (updateNestedInCtes id change ctes).findSome? (·.block.nested? id) =
      (ctes.findSome? (·.block.nested? id)).map change := by
  induction ctes with
  | nil => rfl
  | cons q rest ih =>
    rw [updateNestedInCtes]
    split
    · rename_i b' hupdate
      obtain ⟨c, hc, hb'⟩ := Block.nested?_eq_some hupdate
      simp only [List.findSome?_cons, hc, hb', Option.map_some]
    · rename_i hupdate
      simp only [List.findSome?_cons, Block.nested?_eq_none hupdate, ih]

/-- A pointer leads to the changed block after a change of the block that it led to. -/
theorem block?_updateBlock (c : Canvas) (focus : Focus) (change : Block → Block) :
    (c.updateBlock focus change).block? focus = (c.block? focus).map change := by
  cases focus with
  | root => rfl
  | cte id =>
    show ((updateFirst _ _ c.ctes).find? _).map _ = ((c.ctes.find? _).map _).map change
    rw [find?_updateFirst (fun q hq => by exact hq), Option.map_map, Option.map_map]
    rfl
  | subquery id =>
    simp only [updateBlock, block?, nested?]
    cases hroot : c.root.updateNested? id change with
    | none =>
      have hnone := Block.nested?_eq_none hroot
      simp only [hnone]
      exact nested?_updateNestedInCtes id change c.ctes
    | some root =>
      obtain ⟨b, hb, hb'⟩ := Block.nested?_eq_some hroot
      simp only [hb, hb', Option.map_some]

/-- The tables that read a named query show the results of its block. -/
theorem refreshCteColumns_of_block? {c : Canvas} {id : EntityId} {b : Block}
    (h : c.block? (.cte id) = some b) :
    c.refreshCteColumns id =
      c.mapBlocks fun d => d.updateLinked id fun t => { t with columns := b.outputColumns } := by
  obtain ⟨q, hq, rfl⟩ := Option.map_eq_some_iff.1 h
  rw [refreshCteColumns, hq]

/-- A block without tables that are linked to a named query shows nothing of it. -/
theorem block?_refreshCteColumns {c : Canvas} {id : EntityId} {b : Block}
    (h : c.block? (.cte id) = some b)
    (hunlinked : b.Everywhere fun d => ∀ t ∈ d.tables, t.cte ≠ some id) :
    (c.refreshCteColumns id).block? (.cte id) = some b := by
  rw [refreshCteColumns_of_block? h]
  obtain ⟨q, hq, rfl⟩ := Option.map_eq_some_iff.1 h
  show (((c.ctes.map _).find? _).map _) = _
  rw [List.find?_map, Option.map_map]
  have hfind : c.ctes.find? (fun q => q.id = id) = some q := hq
  show (c.ctes.find? fun q => q.id = id).map _ = _
  rw [hfind, Option.map_some]
  exact congrArg some (Block.mapBlocks_eq_self fun d hd =>
    Block.updateLinked_eq_self (hunlinked d hd) _)

end Canvas

end QueryCanvas
