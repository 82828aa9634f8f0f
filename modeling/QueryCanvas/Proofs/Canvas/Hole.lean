import QueryCanvas.Proofs.Canvas.Focus

/-!
# A canvas around one of its blocks

A canvas from which one block is taken has a hole, and any block can be put into it.  Around the
block that a pointer leads to there is such a hole: looking up finds whatever stands in it, and a
change through the pointer changes what stands in it and nothing else.  No identifier has to be
unique for that.
-/

set_option autoImplicit false

namespace QueryCanvas

/-- A nested query of which everything but its block is given, with a block. -/
def SubqueryOf.holding (s : SubqueryOf Unit) (b : Block) : Subquery := { s with block := b }

/-- What is around a block in the tree in which it stands. -/
inductive Block.Hole where
  /-- The block is the whole tree. -/
  | here
  /-- The hole is in one nested query of a block.  Of the outer block everything but its nested
  queries counts. -/
  | inside (outer : Block) (before : List Subquery) (shell : SubqueryOf Unit)
      (hole : Block.Hole) (after : List Subquery)

/-- The tree with a block in its hole. -/
def Block.Hole.fill : Block.Hole → Block → Block
  | .here, b => b
  | .inside outer before shell hole after, b =>
    { outer with subqueries := before ++ shell.holding (hole.fill b) :: after }

/-- What is around a block on the canvas on which it stands. -/
inductive Canvas.Hole where
  | inRoot (ctes : List Cte) (hole : Block.Hole)
  /-- The hole is in one named query.  Of that named query everything but its block counts. -/
  | inCte (root : Block) (before : List Cte) (q : Cte) (hole : Block.Hole) (after : List Cte)

/-- The canvas with a block in its hole. -/
def Canvas.Hole.fill : Canvas.Hole → Block → Canvas
  | .inRoot ctes hole, b => { ctes, root := hole.fill b }
  | .inCte root before q hole after, b =>
    { ctes := before ++ { q with block := hole.fill b } :: after, root }

namespace Block

variable {id : EntityId} {change : Block → Block}

/-! ## Nested queries in a row -/

theorem nestedIn?_append {before : List Subquery} (h : nestedIn? id before = none)
    (rest : List Subquery) : nestedIn? id (before ++ rest) = nestedIn? id rest := by
  rw [nestedIn?_eq] at h
  rw [nestedIn?_eq, nestedIn?_eq, List.findSome?_append, h, Option.none_or]

theorem updateNested?_eq_none {b : Block} (h : b.nested? id = none) :
    b.updateNested? id change = none := by
  have hlaw := nested?_updateNested? id change b
  rwa [h, Option.map_none, Option.map_eq_none_iff] at hlaw

theorem updateNestedIn?_append {before : List Subquery} (h : nestedIn? id before = none)
    (rest : List Subquery) : updateNestedIn? id change (before ++ rest) =
      (updateNestedIn? id change rest).map (before ++ ·) := by
  induction before with
  | nil => exact Option.map_id'.symm
  | cons s before ih =>
    rw [nestedIn?] at h
    split at h
    · cases h
    · rename_i hid
      split at h
      · cases h
      · rename_i hnone
        rw [List.cons_append, updateNestedIn?, if_neg hid, updateNested?_eq_none hnone, ih h]
        exact Option.map_map ..

/-! ## The hole around a nested query -/

/-- In the hole stands the nested query of the identifier: looking up finds it, and a change of that
nested query changes it. -/
structure Hole.Around (id : EntityId) (hole : Hole) : Prop where
  found : ∀ b, (hole.fill b).nested? id = some b
  changed : ∀ b change, (hole.fill b).updateNested? id change = some (hole.fill (change b))

/-- The nested query itself, behind others that neither have its identifier nor have below them one
that has. -/
theorem around_self {before : List Subquery} (hbefore : nestedIn? id before = none) (outer : Block)
    {shell : SubqueryOf Unit} (hid : shell.id = id) (after : List Subquery) :
    Hole.Around id (.inside outer before shell .here after) := by
  refine ⟨fun b => ?_, fun b change => ?_⟩
  · show nestedIn? id (before ++ shell.holding b :: after) = some b
    rw [nestedIn?_append hbefore, SubqueryOf.holding, nestedIn?, if_pos hid]
  · show (updateNestedIn? id change (before ++ shell.holding b :: after)).map _ = _
    rw [updateNestedIn?_append hbefore, SubqueryOf.holding, updateNestedIn?, if_pos hid]
    rfl

/-- A nested query below another one. -/
theorem around_below {before : List Subquery} (hbefore : nestedIn? id before = none) (outer : Block)
    {shell : SubqueryOf Unit} (hid : shell.id ≠ id) {hole : Hole} (hhole : hole.Around id)
    (after : List Subquery) : Hole.Around id (.inside outer before shell hole after) := by
  refine ⟨fun b => ?_, fun b change => ?_⟩
  · show nestedIn? id (before ++ shell.holding (hole.fill b) :: after) = some b
    rw [nestedIn?_append hbefore, SubqueryOf.holding, nestedIn?, if_neg hid, hhole.found]
  · show (updateNestedIn? id change (before ++ shell.holding (hole.fill b) :: after)).map _ = _
    rw [updateNestedIn?_append hbefore, SubqueryOf.holding, updateNestedIn?, if_neg hid,
      hhole.changed]
    rfl

/-- Where looking up in a row finds a block, it stands in the first member that has the identifier
or has below it one that has. -/
theorem split_of_nestedIn? {subs : List Subquery} {old : Block} (h : nestedIn? id subs = some old) :
    ∃ before s after, subs = before ++ s :: after ∧ nestedIn? id before = none ∧
      ((s.id = id ∧ s.block = old) ∨ (s.id ≠ id ∧ s.block.nested? id = some old)) := by
  induction subs with
  | nil => cases h
  | cons s rest ih =>
    rw [nestedIn?] at h
    split at h
    · rename_i hid
      exact ⟨[], s, rest, rfl, rfl, .inl ⟨hid, Option.some.inj h⟩⟩
    · rename_i hid
      split at h
      · rename_i found hfound
        exact ⟨[], s, rest, rfl, rfl, .inr ⟨hid, hfound.trans h⟩⟩
      · rename_i hnone
        obtain ⟨before, t, after, rfl, hbefore, ht⟩ := ih h
        refine ⟨s :: before, t, after, rfl, ?_, ht⟩
        rw [nestedIn?, if_neg hid, hnone]
        exact hbefore

/-- Around each nested query that is found there is a hole. -/
theorem exists_around : ∀ b old : Block, b.nested? id = some old →
    ∃ hole : Hole, hole.Around id ∧ b = hole.fill old := by
  refine tree_induction fun b ih old hold => ?_
  rw [nested?_eq, ← nestedIn?_eq] at hold
  obtain ⟨before, s, after, hsubs, hbefore, ⟨hid, rfl⟩ | ⟨hid, hs⟩⟩ := split_of_nestedIn? hold
  · refine ⟨.inside b before s.shell .here after, around_self hbefore b hid after, ?_⟩
    cases b
    exact congrArg _ hsubs
  · have hmem : s ∈ b.subqueries := by
      rw [hsubs]
      exact List.mem_append_right _ List.mem_cons_self
    obtain ⟨hole, hhole, hfill⟩ := ih s hmem old hs
    refine ⟨.inside b before s.shell hole after, around_below hbefore b hid hhole after, ?_⟩
    have hs' : s.shell.holding (hole.fill old) = s := by
      rw [← hfill]
      rfl
    rw [← hs'] at hsubs
    cases b
    exact congrArg _ hsubs

end Block

namespace Canvas

/-! ## The hole around the block of a pointer -/

/-- In the hole stands the block of the pointer: looking up finds it, and a change through the
pointer changes it. -/
structure Hole.Around (focus : Focus) (hole : Hole) : Prop where
  found : ∀ b, (hole.fill b).block? focus = some b
  changed : ∀ b change, (hole.fill b).updateBlock focus change = hole.fill (change b)

theorem split_of_find? {α : Type} {p : α → Bool} {l : List α} {a : α} (h : l.find? p = some a) :
    ∃ before after, l = before ++ a :: after ∧ p a ∧ ∀ b ∈ before, p b = false := by
  obtain ⟨ha, before, after, hl, hbefore⟩ := List.find?_eq_some_iff_append.1 h
  exact ⟨before, after, hl, ha, fun b hb => by simpa using hbefore b hb⟩

theorem updateFirst_append {α : Type} {p : α → Bool} {f : α → α} {before : List α}
    (h : ∀ b ∈ before, p b = false) (rest : List α) :
    updateFirst p f (before ++ rest) = before ++ updateFirst p f rest := by
  induction before with
  | nil => rfl
  | cons b before ih =>
    obtain ⟨hb, hbefore⟩ := List.forall_mem_cons.1 h
    rw [List.cons_append, updateFirst, hb, ih hbefore]
    rfl

/-- The named query of an identifier, behind others that do not have it. -/
theorem around_cte {id : EntityId} (root : Block) {before : List Cte} {q : Cte}
    (hid : q.id = id) (hbefore : ∀ p ∈ before, decide (p.id = id) = false) (after : List Cte) :
    Hole.Around (.cte id) (.inCte root before q .here after) := by
  refine ⟨fun b => ?_, fun b change => ?_⟩
  · show (((before ++ { q with block := b } :: after).find? (·.id = id)).map (·.block)) = _
    rw [List.find?_append, List.find?_eq_none.2 (by simpa using hbefore), Option.none_or,
      List.find?_cons_of_pos (by simpa using hid)]
    rfl
  · show ({ ctes := updateFirst _ _ (before ++ { q with block := b } :: after), root } : Canvas) = _
    rw [updateFirst_append hbefore, updateFirst, if_pos (by simpa using hid)]
    rfl

theorem updateNestedInCtes_append {id : EntityId} {change : Block → Block} {before : List Cte}
    (h : ∀ p ∈ before, p.block.nested? id = none) (rest : List Cte) :
    updateNestedInCtes id change (before ++ rest) =
      before ++ updateNestedInCtes id change rest := by
  induction before with
  | nil => rfl
  | cons p before ih =>
    obtain ⟨hp, hbefore⟩ := List.forall_mem_cons.1 h
    rw [List.cons_append, updateNestedInCtes, Block.updateNested?_eq_none hp]
    exact congrArg (p :: ·) (ih hbefore)

/-- A nested query below the root. -/
theorem around_inRoot {id : EntityId} {hole : Block.Hole} (h : hole.Around id) (ctes : List Cte) :
    Hole.Around (.subquery id) (.inRoot ctes hole) := by
  refine ⟨fun b => ?_, fun b change => ?_⟩
  · simp only [Hole.fill, block?, nested?, h.found]
  · simp only [Hole.fill, updateBlock, h.changed]

/-- A nested query below a named query, where none below the root and none below a named query
before has its identifier. -/
theorem around_inCte {id : EntityId} {root : Block} (hroot : root.nested? id = none)
    {before : List Cte} (hbefore : ∀ p ∈ before, p.block.nested? id = none) (q : Cte)
    {hole : Block.Hole} (h : hole.Around id) (after : List Cte) :
    Hole.Around (.subquery id) (.inCte root before q hole after) := by
  refine ⟨fun b => ?_, fun b change => ?_⟩
  · have hnone : before.findSome? (·.block.nested? id) = none :=
      List.findSome?_eq_none_iff.2 hbefore
    simp only [Hole.fill, block?, nested?, hroot, List.findSome?_append, hnone, Option.none_or,
      List.findSome?_cons, h.found]
  · simp only [Hole.fill, updateBlock, Block.updateNested?_eq_none hroot,
      updateNestedInCtes_append hbefore, updateNestedInCtes, h.changed]

/-- Around each block that a pointer leads to there is a hole. -/
theorem exists_around {c : Canvas} {focus : Focus} {old : Block} (h : c.block? focus = some old) :
    ∃ hole : Hole, hole.Around focus ∧ c = hole.fill old := by
  obtain ⟨ctes, root⟩ := c
  cases focus with
  | root =>
    cases h
    exact ⟨.inRoot ctes .here, ⟨fun _ => rfl, fun _ _ => rfl⟩, rfl⟩
  | cte id =>
    obtain ⟨q, hq, rfl⟩ := Option.map_eq_some_iff.1 h
    obtain ⟨before, after, rfl, hid, hbefore⟩ := split_of_find? hq
    exact ⟨.inCte root before q .here after,
      around_cte root (of_decide_eq_true hid) hbefore after, rfl⟩
  | subquery id =>
    simp only [block?, nested?] at h
    split at h
    · rename_i found hfound
      cases h
      obtain ⟨hole, hhole, rfl⟩ := Block.exists_around root old hfound
      exact ⟨.inRoot ctes hole, around_inRoot hhole ctes, rfl⟩
    · rename_i hroot
      obtain ⟨before, q, after, rfl, hq, hbefore⟩ := List.findSome?_eq_some_iff.1 h
      obtain ⟨hole, hhole, hfill⟩ := Block.exists_around q.block old hq
      refine ⟨.inCte root before q hole after, around_inCte hroot hbefore q hhole after, ?_⟩
      rw [Hole.fill, ← hfill]

end Canvas

end QueryCanvas
