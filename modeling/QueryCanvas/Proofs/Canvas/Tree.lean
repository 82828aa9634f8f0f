import QueryCanvas.Canvas.Cte

/-!
# The tree of blocks by its members

The walks over nested blocks go down block by block and list by list.  Here each of them is stated
once by the direct nested queries of a block, and what holds of every block of a tree is reduced to
the block itself and the trees below it.
-/

set_option autoImplicit false

namespace QueryCanvas

/-- A nested query without its block: what the block around it says of it. -/
def SubqueryOf.shell {β : Type} (s : SubqueryOf β) : SubqueryOf Unit := { s with block := () }

namespace Block

/-! ## Induction -/

mutual

/-- What holds of a block whenever it holds of the blocks directly below it holds of all blocks. -/
theorem tree_induction {P : Block → Prop}
    (step : ∀ b : Block, (∀ s ∈ b.subqueries, P s.block) → P b) : ∀ b, P b
  | ⟨t, j, f, g, h, o, l, a, subs⟩ =>
    step ⟨t, j, f, g, h, o, l, a, subs⟩ (tree_induction_list step subs)

theorem tree_induction_list {P : Block → Prop}
    (step : ∀ b : Block, (∀ s ∈ b.subqueries, P s.block) → P b) :
    ∀ (subs : List (SubqueryOf Block)), ∀ s ∈ subs, P s.block
  | [] => by simp
  | ⟨i, r, al, k, fr, b⟩ :: rest => by
    intro s hs
    rcases List.mem_cons.1 hs with rfl | hs
    · exact tree_induction step b
    · exact tree_induction_list step rest s hs

end

/-! ## Listing and finding -/

theorem blocksIn_eq (subs : List Subquery) : blocksIn subs = subs.flatMap (·.block.blocks) := by
  induction subs with
  | nil => rfl
  | cons s rest ih => rw [blocksIn, ih, List.flatMap_cons]

/-- The blocks of a tree: its root, then those of the trees below it. -/
theorem blocks_eq (b : Block) : b.blocks = b :: b.subqueries.flatMap (·.block.blocks) := by
  rw [← blocksIn_eq]
  cases b
  rfl

theorem mem_blocks {b c : Block} :
    c ∈ b.blocks ↔ c = b ∨ ∃ s ∈ b.subqueries, c ∈ s.block.blocks := by
  rw [blocks_eq, List.mem_cons, List.mem_flatMap]

theorem self_mem_blocks (b : Block) : b ∈ b.blocks := mem_blocks.2 (.inl rfl)

theorem nestedIn?_eq (id : EntityId) (subs : List Subquery) :
    nestedIn? id subs =
      subs.findSome? fun s => if s.id = id then some s.block else s.block.nested? id := by
  induction subs with
  | nil => rfl
  | cons s rest ih =>
    rw [nestedIn?, List.findSome?_cons]
    by_cases h : s.id = id
    · simp [h]
    · simp only [h, if_false]
      cases s.block.nested? id with
      | none => simpa using ih
      | some found => rfl

theorem nested?_eq (id : EntityId) (b : Block) :
    b.nested? id =
      b.subqueries.findSome? fun s => if s.id = id then some s.block else s.block.nested? id := by
  rw [← nestedIn?_eq]
  cases b
  rfl

/-! ## Changing blocks -/

theorem mapBlocksIn_eq (change : Block → Block) (subs : List Subquery) :
    mapBlocksIn change subs = subs.map fun s => { s with block := s.block.mapBlocks change } := by
  induction subs with
  | nil => rfl
  | cons s rest ih => rw [mapBlocksIn, ih, List.map_cons]

/-- A change of all blocks reaches the trees below a block first, then the block. -/
theorem mapBlocks_eq (change : Block → Block) (b : Block) :
    b.mapBlocks change =
      change { b with
        subqueries := b.subqueries.map fun s => { s with block := s.block.mapBlocks change } } := by
  rw [← mapBlocksIn_eq]
  cases b
  rfl

/-- A change that leaves nested queries alone can be made in each block of a tree by itself. -/
theorem blocks_mapBlocks {change : Block → Block}
    (hchange : ∀ b, (change b).subqueries = b.subqueries) :
    ∀ b : Block, (b.mapBlocks change).blocks = b.blocks.map (·.mapBlocks change) := by
  refine tree_induction fun b ih => ?_
  have hbelow : (b.subqueries.map fun s => { s with block := s.block.mapBlocks change }).flatMap
      (·.block.blocks) = (b.subqueries.flatMap (·.block.blocks)).map (·.mapBlocks change) := by
    rw [List.flatMap_map, List.map_flatMap, List.flatMap_def, List.flatMap_def]
    exact congrArg List.flatten (List.map_congr_left fun s hs => ih s hs)
  rw [blocks_eq, blocks_eq b, List.map_cons, ← hbelow, mapBlocks_eq, hchange]

/-- One member of a list is replaced, and its identity is kept. -/
def ReplacedOne (subs subs' : List Subquery) (how : Subquery → Block → Prop) : Prop :=
  ∃ before s after b', subs = before ++ s :: after ∧
    subs' = before ++ { s with block := b' } :: after ∧ how s b'

theorem ReplacedOne.cons {subs subs' : List Subquery} {how : Subquery → Block → Prop}
    (h : ReplacedOne subs subs' how) (s : Subquery) :
    ReplacedOne (s :: subs) (s :: subs') how := by
  obtain ⟨before, t, after, b', rfl, rfl, hhow⟩ := h
  exact ⟨s :: before, t, after, b', rfl, rfl, hhow⟩

/-- How the nested query of an identifier is changed in a list: its block is changed, or a block
below a member is. -/
theorem updateNestedIn?_eq_some {id : EntityId} {change : Block → Block}
    {subs subs' : List Subquery} (h : updateNestedIn? id change subs = some subs') :
    ReplacedOne subs subs' fun s b' =>
      b' = change s.block ∨ s.block.updateNested? id change = some b' := by
  induction subs generalizing subs' with
  | nil => simp [updateNestedIn?] at h
  | cons s rest ih =>
    rw [updateNestedIn?] at h
    split at h
    · cases h
      exact ⟨[], s, rest, _, rfl, rfl, .inl rfl⟩
    · split at h
      · rename_i b' hb
        cases h
        exact ⟨[], s, rest, b', rfl, rfl, .inr hb⟩
      · obtain ⟨subs', hsubs, rfl⟩ := Option.map_eq_some_iff.1 h
        exact (ih hsubs).cons s

theorem updateNested?_eq_some {id : EntityId} {change : Block → Block} {b b' : Block}
    (h : b.updateNested? id change = some b') :
    ∃ subs', b' = { b with subqueries := subs' } ∧
      ReplacedOne b.subqueries subs' fun s c =>
        c = change s.block ∨ s.block.updateNested? id change = some c := by
  cases b
  rw [updateNested?] at h
  obtain ⟨subs', hsubs, rfl⟩ := Option.map_eq_some_iff.1 h
  exact ⟨subs', rfl, updateNestedIn?_eq_some hsubs⟩

/-- A nested query is removed below one member of a list. -/
theorem removeNestedIn?_eq_some {id : EntityId} {subs subs' : List Subquery}
    (h : removeNestedIn? id subs = some subs') :
    ReplacedOne subs subs' fun s b' => s.block.removeNested? id = some b' := by
  induction subs generalizing subs' with
  | nil => simp [removeNestedIn?] at h
  | cons s rest ih =>
    rw [removeNestedIn?] at h
    split at h
    · rename_i b' hb
      cases h
      exact ⟨[], s, rest, b', rfl, rfl, hb⟩
    · obtain ⟨subs', hsubs, rfl⟩ := Option.map_eq_some_iff.1 h
      exact (ih hsubs).cons s

/-- A nested query is removed from the block that owns it, or from a block below. -/
theorem removeNested?_eq_some {id : EntityId} {b b' : Block} (h : b.removeNested? id = some b') :
    b' = b.removeSubquery id ∨
      ∃ subs', b' = { b with subqueries := subs' } ∧
        ReplacedOne b.subqueries subs' fun s c => s.block.removeNested? id = some c := by
  cases b
  rw [removeNested?] at h
  split at h
  · cases h
    exact .inl rfl
  · obtain ⟨subs', hsubs, rfl⟩ := Option.map_eq_some_iff.1 h
    exact .inr ⟨subs', rfl, removeNestedIn?_eq_some hsubs⟩

/-! ## What holds of every block of a tree -/

/-- The property holds of the block and of every block nested in it. -/
def Everywhere (P : Block → Prop) (b : Block) : Prop := ∀ c ∈ b.blocks, P c

/-- The property looks at a block and at its nested queries, but not into their blocks. -/
def Shallow (P : Block → Prop) : Prop :=
  ∀ (b : Block) (subs : List Subquery),
    subs.map SubqueryOf.shell = b.subqueries.map SubqueryOf.shell → P b →
      P { b with subqueries := subs }

theorem everywhere_iff {P : Block → Prop} {b : Block} :
    b.Everywhere P ↔ P b ∧ ∀ s ∈ b.subqueries, s.block.Everywhere P := by
  constructor
  · intro h
    exact ⟨h b (self_mem_blocks b), fun s hs c hc => h c (mem_blocks.2 (.inr ⟨s, hs, hc⟩))⟩
  · rintro ⟨hself, hbelow⟩ c hc
    rcases mem_blocks.1 hc with rfl | ⟨s, hs, hc⟩
    · exact hself
    · exact hbelow s hs c hc

theorem Everywhere.imp {P Q : Block → Prop} {b : Block} (h : b.Everywhere P)
    (himp : ∀ c, P c → Q c) : b.Everywhere Q := fun c hc => himp c (h c hc)

/-- A change of a block leaves its nested queries as they were. -/
theorem Everywhere.change {P : Block → Prop} {b b' : Block} (h : b.Everywhere P) (hself : P b')
    (hsubs : b'.subqueries = b.subqueries) : b'.Everywhere P :=
  everywhere_iff.2 ⟨hself, fun s hs => (everywhere_iff.1 h).2 s (hsubs ▸ hs)⟩

/-- A change of a block adds one nested query. -/
theorem Everywhere.push {P : Block → Prop} {b b' : Block} {q : Subquery} (h : b.Everywhere P)
    (hq : q.block.Everywhere P) (hself : P b') (hsubs : b'.subqueries = b.subqueries ++ [q]) :
    b'.Everywhere P := by
  refine everywhere_iff.2 ⟨hself, fun s hs => ?_⟩
  rcases List.mem_append.1 (hsubs ▸ hs) with hs | hs
  · exact (everywhere_iff.1 h).2 s hs
  · rw [List.mem_singleton.1 hs]
    exact hq

/-- What holds everywhere holds everywhere in a nested block. -/
theorem Everywhere.nested? {P : Block → Prop} {id : EntityId} :
    ∀ b c : Block, b.Everywhere P → b.nested? id = some c → c.Everywhere P := by
  refine tree_induction fun b ih c hb h => ?_
  obtain ⟨-, hbelow⟩ := everywhere_iff.1 hb
  rw [nested?_eq] at h
  obtain ⟨s, hs, hfound⟩ := List.exists_of_findSome?_eq_some h
  split at hfound
  · cases hfound
    exact hbelow s hs
  · exact ih s hs c (hbelow s hs) hfound

theorem ReplacedOne.map_shell {subs subs' : List Subquery} {how : Subquery → Block → Prop}
    (h : ReplacedOne subs subs' how) :
    subs'.map SubqueryOf.shell = subs.map SubqueryOf.shell := by
  obtain ⟨before, s, after, b', rfl, rfl, -⟩ := h
  simp [SubqueryOf.shell]

theorem ReplacedOne.everywhere {P : Block → Prop} {subs subs' : List Subquery}
    {how : Subquery → Block → Prop} (h : ReplacedOne subs subs' how)
    (hold : ∀ s ∈ subs, s.block.Everywhere P)
    (hnew : ∀ s ∈ subs, ∀ c, how s c → c.Everywhere P) :
    ∀ s ∈ subs', s.block.Everywhere P := by
  obtain ⟨before, s, after, b', rfl, rfl, hhow⟩ := h
  intro r hr
  rcases List.mem_append.1 hr with hr | hr
  · exact hold r (List.mem_append_left _ hr)
  · rcases List.mem_cons.1 hr with rfl | hr
    · exact hnew s (by simp) b' hhow
    · exact hold r (by simp [hr])

/-- After a change of one block of a tree everything has a weaker property, if the changed block and
the blocks below it have. -/
theorem Everywhere.updateNested? {P Q : Block → Prop} (hweaker : ∀ c, P c → Q c)
    (hshallow : Shallow Q) {id : EntityId} {change : Block → Block}
    (hchange : ∀ c, c.Everywhere P → (change c).Everywhere Q) :
    ∀ (b b' : Block), b.Everywhere P → b.updateNested? id change = some b' → b'.Everywhere Q := by
  refine tree_induction fun b ih b' hb h => ?_
  obtain ⟨hself, hbelow⟩ := everywhere_iff.1 hb
  obtain ⟨subs', rfl, hone⟩ := updateNested?_eq_some h
  refine everywhere_iff.2 ⟨hshallow b subs' hone.map_shell (hweaker b hself), ?_⟩
  refine hone.everywhere (fun s hs => (hbelow s hs).imp hweaker) fun s hs c hc => ?_
  rcases hc with rfl | hc
  · exact hchange _ (hbelow s hs)
  · exact ih s hs c (hbelow s hs) hc

/-- After a change of all blocks everything has what the change makes of what held everywhere. -/
theorem Everywhere.mapBlocks {P Q : Block → Prop} (hshallow : Shallow P) {change : Block → Block}
    (hchange : ∀ c : Block, P c → Q (change c))
    (hsubs : ∀ c : Block, (change c).subqueries ⊆ c.subqueries) :
    ∀ b : Block, b.Everywhere P → (b.mapBlocks change).Everywhere Q := by
  refine tree_induction fun b ih hb => ?_
  obtain ⟨hself, hbelow⟩ := everywhere_iff.1 hb
  rw [mapBlocks_eq]
  refine everywhere_iff.2 ⟨hchange _ (hshallow b _ (by simp [SubqueryOf.shell]) hself), ?_⟩
  intro s hs
  obtain ⟨r, hr, rfl⟩ := List.mem_map.1 (hsubs _ hs)
  exact ih r hr (hbelow r hr)

/-- Removing a nested query keeps what holds everywhere, if it keeps it of the block that owns
it. -/
theorem Everywhere.removeNested? {P : Block → Prop} (hshallow : Shallow P) {id : EntityId}
    (hremove : ∀ c : Block, P c → P (c.removeSubquery id)) :
    ∀ (b b' : Block), b.Everywhere P → b.removeNested? id = some b' → b'.Everywhere P := by
  refine tree_induction fun b ih b' hb h => ?_
  obtain ⟨hself, hbelow⟩ := everywhere_iff.1 hb
  rcases removeNested?_eq_some h with rfl | ⟨subs', rfl, hone⟩
  · refine everywhere_iff.2 ⟨hremove b hself, fun s hs => ?_⟩
    rw [removeSubquery] at hs
    split at hs
    · exact hbelow s hs
    · exact hbelow s (List.mem_of_mem_eraseP hs)
  · refine everywhere_iff.2 ⟨hshallow b subs' hone.map_shell hself, ?_⟩
    exact hone.everywhere hbelow fun s hs c hc => ih s hs c (hbelow s hs) hc

end Block

end QueryCanvas
