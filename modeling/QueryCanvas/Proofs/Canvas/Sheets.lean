import QueryCanvas.Proofs.Canvas.Hole

/-!
# The tables of a canvas as one list

Taken by themselves, the tables of a canvas are a list of sheets: for each block, in order, the
pointer that leads to it and its tables.  Where a pointer stands at several sheets, it leads to the
first of them.  A change of the tables of one block is a change of the first sheet of its pointer,
and a canvas is determined by its sheets and by what is left of it without tables.
-/

set_option autoImplicit false

namespace QueryCanvas

universe u

/-! ## The first member that satisfies a test, in two lists in a row -/

theorem updateFirst_append_of_mem {α : Type u} {p : α → Bool} {f : α → α} {before : List α}
    (h : ∃ a ∈ before, p a = true) (rest : List α) :
    updateFirst p f (before ++ rest) = updateFirst p f before ++ rest := by
  induction before with
  | nil => simp at h
  | cons a before ih =>
    rw [List.cons_append, updateFirst, updateFirst]
    split
    · rfl
    · rename_i ha
      obtain ⟨b, hb, hp⟩ := h
      rcases List.mem_cons.1 hb with rfl | hb
      · exact absurd hp ha
      · rw [ih ⟨b, hb, hp⟩, List.cons_append]

/-- Lists are the same if their members are told apart by two views, of which the first also says
how long the second is, and if both views of the lists are the same. -/
theorem eq_of_map_of_flatMap {α β γ : Type u} {g : α → β} {f : α → List γ} {l l' : List α}
    (hlength : ∀ a b, g a = g b → (f a).length = (f b).length)
    (hsame : ∀ a ∈ l, ∀ b, g a = g b → f a = f b → a = b) (hmap : l.map g = l'.map g)
    (hflatMap : l.flatMap f = l'.flatMap f) : l = l' := by
  induction l generalizing l' with
  | nil => exact (List.map_eq_nil_iff.1 hmap.symm).symm
  | cons a rest ih =>
    obtain ⟨hfirst, hrest⟩ := List.forall_mem_cons.1 hsame
    cases l' with
    | nil => cases hmap
    | cons b rest' =>
      rw [List.map_cons, List.map_cons, List.cons.injEq] at hmap
      rw [List.flatMap_cons, List.flatMap_cons] at hflatMap
      -- The first view tells where the part of the head ends in the second one.
      obtain ⟨hhead, htail⟩ := List.append_inj hflatMap (hlength a b hmap.1)
      rw [hfirst b hmap.1 hhead, ih hrest hmap.2 htail]

/-- The tables of a block with the pointer that leads to the block. -/
abbrev Sheet := Focus × List Table

namespace Block

/-! ## Sheets of a tree -/

mutual

/-- The sheets of a tree, the pointer to its root given. -/
def sheets (focus : Focus) : Block → List Sheet
  | ⟨t, _, _, _, _, _, _, _, subs⟩ => (focus, t) :: sheetsIn subs

/-- The sheets of the trees of a list of nested queries. -/
def sheetsIn : List (SubqueryOf Block) → List Sheet
  | [] => []
  | ⟨i, _, _, _, _, b⟩ :: rest => sheets (.subquery i) b ++ sheetsIn rest

end

/-- The block with other tables, the blocks nested in it apart. -/
def changeTables (k : List Table → List Table) (b : Block) : Block :=
  { b with tables := k b.tables }

/-- What is left of a tree without its tables. -/
def bare (b : Block) : Block := b.mapBlocks (changeTables fun _ => [])

variable {b : Block} {id : EntityId} {k : List Table → List Table}

theorem sheets_eq (focus : Focus) (b : Block) :
    b.sheets focus = (focus, b.tables) :: sheetsIn b.subqueries := by
  cases b
  rfl

theorem sheetsIn_eq (subs : List Subquery) :
    sheetsIn subs = subs.flatMap fun s => s.block.sheets (.subquery s.id) := by
  induction subs with
  | nil => rfl
  | cons s rest ih => rw [sheetsIn, ih, List.flatMap_cons]

/-- A sheet below a block is that of a nested query. -/
theorem exists_of_mem_sheetsIn : ∀ b : Block, ∀ s ∈ sheetsIn b.subqueries,
    ∃ id, s.1 = .subquery id := by
  refine tree_induction fun b ih s hs => ?_
  rw [sheetsIn_eq] at hs
  obtain ⟨q, hq, hs⟩ := List.mem_flatMap.1 hs
  rw [sheets_eq] at hs
  rcases List.mem_cons.1 hs with rfl | hs
  · exact ⟨q.id, rfl⟩
  · exact ih q hq s hs

/-- Only pointers to nested queries have sheets below a block. -/
theorem find?_sheetsIn_cte (id : EntityId) (b : Block) :
    (sheetsIn b.subqueries).find? (·.1 = .cte id) = none := by
  refine List.find?_eq_none.2 fun s hs => ?_
  obtain ⟨nested, hnested⟩ := exists_of_mem_sheetsIn b s hs
  simp [hnested]

/-! ## Looking up -/

/-- What is found in a list of nested queries is on the first sheet of its pointer. -/
theorem tables_nestedIn? {subs : List Subquery}
    (h : ∀ s ∈ subs, (s.block.nested? id).map (·.tables) =
      ((sheetsIn s.block.subqueries).find? (·.1 = .subquery id)).map (·.2)) :
    (nestedIn? id subs).map (·.tables) =
      ((sheetsIn subs).find? (·.1 = .subquery id)).map (·.2) := by
  induction subs with
  | nil => rfl
  | cons s rest ih =>
    obtain ⟨hs, hrest⟩ := List.forall_mem_cons.1 h
    rw [nestedIn?, sheetsIn, sheets_eq, List.cons_append, List.find?_cons]
    by_cases hid : s.id = id
    · simp [hid]
    · have hhead : decide (Focus.subquery s.id = .subquery id) = false := by simpa using hid
      rw [if_neg hid, hhead, List.find?_append, Option.map_or, ← hs, ← ih hrest]
      cases s.block.nested? id <;> rfl

theorem tables_nested? (id : EntityId) : ∀ b : Block, (b.nested? id).map (·.tables) =
    ((sheetsIn b.subqueries).find? (·.1 = .subquery id)).map (·.2) := by
  refine tree_induction fun b ih => ?_
  rw [nested?_eq, ← nestedIn?_eq]
  exact tables_nestedIn? ih

/-- A nested query that is not there has no sheet. -/
theorem find?_sheetsIn_eq_none (h : b.nested? id = none) :
    (sheetsIn b.subqueries).find? (·.1 = .subquery id) = none := by
  have hlaw := tables_nested? id b
  rwa [h, Option.map_none, eq_comm, Option.map_eq_none_iff] at hlaw

theorem exists_sheet_of_nested? {c : Block} (h : b.nested? id = some c) :
    ∃ s ∈ sheetsIn b.subqueries, decide (s.1 = .subquery id) = true := by
  have hlaw := tables_nested? id b
  rw [h, Option.map_some] at hlaw
  obtain ⟨s, hs, -⟩ := Option.map_eq_some_iff.1 hlaw.symm
  have hlabel := List.find?_some hs
  exact ⟨s, List.mem_of_find?_eq_some hs, hlabel⟩

/-! ## Changing the tables of one block -/

theorem tables_updateNested? {change : Block → Block} {b' : Block}
    (h : b.updateNested? id change = some b') : b'.tables = b.tables := by
  obtain ⟨subs, rfl, -⟩ := updateNested?_eq_some h
  rfl

/-- A change in a list of nested queries changes the first sheet of its pointer. -/
theorem sheetsIn_updateNestedIn? {subs : List Subquery}
    (h : ∀ s ∈ subs,
      sheetsIn ((s.block.updateNested? id (changeTables k)).getD s.block).subqueries =
        updateFirst (·.1 = .subquery id) (Prod.map (fun f => f) k)
          (sheetsIn s.block.subqueries)) :
    sheetsIn ((updateNestedIn? id (changeTables k) subs).getD subs) =
      updateFirst (·.1 = .subquery id) (Prod.map (fun f => f) k) (sheetsIn subs) := by
  induction subs with
  | nil => rfl
  | cons s rest ih =>
    obtain ⟨hs, hrest⟩ := List.forall_mem_cons.1 h
    rw [updateNestedIn?, sheetsIn, sheets_eq, List.cons_append, updateFirst]
    by_cases hid : s.id = id
    · rw [if_pos hid, if_pos (by simp [hid]), Option.getD_some, sheetsIn, sheets_eq]
      rfl
    · -- The tree of the first nested query comes before those behind it, on the sheets too.
      rw [if_neg hid, if_neg (by simpa using hid)]
      cases hupdate : s.block.updateNested? id (changeTables k) with
      | none =>
        have hnone := List.find?_eq_none.1 (find?_sheetsIn_eq_none (nested?_eq_none hupdate))
        rw [Canvas.updateFirst_append (by simpa using hnone), ← ih hrest]
        cases updateNestedIn? id (changeTables k) rest <;>
          simp only [Option.map_none, Option.map_some, Option.getD_none, Option.getD_some,
            sheetsIn, sheets_eq, List.cons_append]
      | some b' =>
        obtain ⟨c, hc, -⟩ := nested?_eq_some hupdate
        rw [hupdate, Option.getD_some] at hs
        rw [updateFirst_append_of_mem (exists_sheet_of_nested? hc), ← hs, Option.getD_some,
          sheetsIn, sheets_eq, tables_updateNested? hupdate, List.cons_append]

theorem sheetsIn_updateNested? (id : EntityId) (k : List Table → List Table) : ∀ b : Block,
    sheetsIn ((b.updateNested? id (changeTables k)).getD b).subqueries =
      updateFirst (·.1 = .subquery id) (Prod.map (fun f => f) k) (sheetsIn b.subqueries) := by
  refine tree_induction fun b ih => ?_
  rw [← sheetsIn_updateNestedIn? ih]
  cases b
  rw [updateNested?]
  cases updateNestedIn? id (changeTables k) _ <;> rfl

/-! ## What is left without tables -/

theorem bare_eq (b : Block) :
    b.bare = { b with
      tables := []
      subqueries := b.subqueries.map fun s => { s with block := s.block.bare } } :=
  mapBlocks_eq _ b

@[simp] theorem bare_changeTables (k : List Table → List Table) (b : Block) :
    (b.changeTables k).bare = b.bare := by
  rw [bare_eq, bare_eq b]
  rfl

theorem bare_mapBlocks (k : List Table → List Table) (b : Block) :
    (b.mapBlocks (changeTables k)).bare = b.bare := by
  induction b using tree_induction with
  | step b ih =>
    rw [mapBlocks_eq, bare_changeTables, bare_eq, bare_eq b, List.map_map]
    refine congrArg _ (List.map_congr_left fun s hs => ?_)
    rw [Function.comp_apply, ih s hs]

theorem bare_updateNested? : ∀ b b' : Block,
    b.updateNested? id (changeTables k) = some b' → b'.bare = b.bare := by
  refine tree_induction fun b ih b' h => ?_
  obtain ⟨subs', rfl, before, s, after, c, hsubs, rfl, hc⟩ := updateNested?_eq_some h
  have hbare : c.bare = s.block.bare := by
    rcases hc with rfl | hc
    · exact bare_changeTables k s.block
    · exact ih s (by simp [hsubs]) c hc
  rw [bare_eq, bare_eq b, hsubs]
  simp only [List.map_append, List.map_cons, hbare]

theorem sheets_mapBlocks (k : List Table → List Table) : ∀ (b : Block) (focus : Focus),
    (b.mapBlocks (changeTables k)).sheets focus =
      (b.sheets focus).map (Prod.map (fun f => f) k) := by
  refine tree_induction fun b ih focus => ?_
  have hbelow : (b.subqueries.map fun s =>
      { s with block := s.block.mapBlocks (changeTables k) }).flatMap
        (fun s => s.block.sheets (.subquery s.id)) =
      (b.subqueries.flatMap fun s => s.block.sheets (.subquery s.id)).map
        (Prod.map (fun f => f) k) := by
    rw [List.flatMap_map, List.map_flatMap]
    exact List.flatMap_congr fun s hs => ih s hs _
  rw [mapBlocks_eq, sheets_eq, sheets_eq, sheetsIn_eq, sheetsIn_eq, List.map_cons]
  exact congrArg _ hbelow

theorem length_sheets_of_bare {b b' : Block} (h : b.bare = b'.bare) (focus : Focus) :
    (b.sheets focus).length = (b'.sheets focus).length := by
  have hlength := congrArg (fun c : Block => (c.sheets focus).length) h
  simpa only [bare, sheets_mapBlocks, List.length_map] using hlength

/-- A tree is determined by its sheets and by what is left of it without tables. -/
theorem eq_of_bare_of_sheets : ∀ (b b' : Block) (focus : Focus), b.bare = b'.bare →
    b.sheets focus = b'.sheets focus → b = b' := by
  refine tree_induction fun b ih b' focus hbare hsheets => ?_
  rw [sheets_eq, sheets_eq, List.cons.injEq, Prod.mk.injEq, sheetsIn_eq, sheetsIn_eq] at hsheets
  obtain ⟨⟨-, htables⟩, hbelow⟩ := hsheets
  rw [bare_eq, bare_eq b', Block.mk.injEq] at hbare
  obtain ⟨-, hjoins, hfilters, hgroupBy, hhaving, horderBy, hlimit, haggregates, hsubs⟩ := hbare
  have hnested : b.subqueries = b'.subqueries := by
    refine eq_of_map_of_flatMap (fun s s' h => ?_) (fun s hs s' h hsame => ?_) hsubs hbelow
    · rw [SubqueryOf.mk.injEq] at h
      rw [h.1]
      exact length_sheets_of_bare h.2.2.2.2.2 _
    · rw [SubqueryOf.mk.injEq] at h
      obtain ⟨hid, hrole, halias, hlink, hframe, hblock⟩ := h
      rw [hid] at hsame
      have hblocks := ih s hs s'.block _ hblock hsame
      cases s
      cases s'
      rw [SubqueryOf.mk.injEq]
      exact ⟨hid, hrole, halias, hlink, hframe, hblocks⟩
  cases b
  cases b'
  rw [Block.mk.injEq]
  exact ⟨htables, hjoins, hfilters, hgroupBy, hhaving, horderBy, hlimit, haggregates, hnested⟩

end Block

namespace Canvas

variable {c d : Canvas} {k : List Table → List Table}

/-! ## Sheets of a canvas -/

/-- The sheets of named queries in order. -/
def sheetsOf (ctes : List Cte) : List Sheet := ctes.flatMap fun q => q.block.sheets (.cte q.id)

/-- The sheets of a canvas: those of the root, then those of the named queries. -/
def sheets (c : Canvas) : List Sheet := c.root.sheets .root ++ sheetsOf c.ctes

/-- What is left of a canvas without its tables. -/
def bare (c : Canvas) : Canvas := c.mapBlocks (Block.changeTables fun _ => [])

theorem sheetsOf_cons (q : Cte) (rest : List Cte) :
    sheetsOf (q :: rest) =
      (.cte q.id, q.block.tables) :: (Block.sheetsIn q.block.subqueries ++ sheetsOf rest) := by
  rw [sheetsOf, List.flatMap_cons, Block.sheets_eq, List.cons_append]
  rfl

theorem sheets_eq (c : Canvas) :
    c.sheets =
      (.root, c.root.tables) :: (Block.sheetsIn c.root.subqueries ++ sheetsOf c.ctes) := by
  rw [sheets, Block.sheets_eq, List.cons_append]

/-- The tables of a canvas are on its sheets, in the order of the blocks. -/
theorem sheets_map_snd (c : Canvas) : c.sheets.map (·.2) = c.blocks.map (·.tables) := by
  have htree : ∀ (b : Block) (focus : Focus),
      (b.sheets focus).map (·.2) = b.blocks.map (·.tables) := by
    refine Block.tree_induction fun b ih focus => ?_
    rw [Block.sheets_eq, Block.sheetsIn_eq, Block.blocks_eq, List.map_cons, List.map_cons,
      List.map_flatMap, List.map_flatMap]
    exact congrArg _ (List.flatMap_congr fun s hs => ih s hs _)
  simp only [sheets, sheetsOf, blocks, List.map_append, List.map_flatMap, htree]

/-- The tables of the named query of an identifier are on the first sheet of its pointer. -/
theorem find?_sheetsOf_cte (id : EntityId) (ctes : List Cte) :
    ((sheetsOf ctes).find? (·.1 = .cte id)).map (·.2) =
      (ctes.find? (·.id = id)).map (·.block.tables) := by
  induction ctes with
  | nil => rfl
  | cons q rest ih =>
    rw [sheetsOf_cons, List.find?_cons, List.find?_cons]
    by_cases hid : q.id = id
    · simp [hid]
    · have hbelow := Block.find?_sheetsIn_cte id q.block
      simp only [hid, Focus.cte.injEq, decide_false, List.find?_append, hbelow, Option.none_or, ih]

/-- The tables of a nested query below a named query are on the first sheet of its pointer. -/
theorem find?_sheetsOf_subquery (id : EntityId) (ctes : List Cte) :
    ((sheetsOf ctes).find? (·.1 = .subquery id)).map (·.2) =
      (ctes.findSome? (·.block.nested? id)).map (·.tables) := by
  induction ctes with
  | nil => rfl
  | cons q rest ih =>
    rw [sheetsOf_cons, List.find?_cons, List.findSome?_cons]
    have hhead : decide (Focus.cte q.id = .subquery id) = false := by simp
    rw [hhead, List.find?_append, Option.map_or, ih, ← Block.tables_nested?]
    cases q.block.nested? id <;> rfl

/-- The tables of the block that a pointer leads to are on the first sheet of the pointer. -/
theorem tables_block? (c : Canvas) (focus : Focus) :
    (c.block? focus).map (·.tables) = (c.sheets.find? (·.1 = focus)).map (·.2) := by
  rw [sheets_eq, List.find?_cons]
  cases focus with
  | root => rfl
  | cte id =>
    have hbelow := Block.find?_sheetsIn_cte id c.root
    simp only [reduceCtorEq, decide_false, List.find?_append, hbelow, Option.none_or,
      find?_sheetsOf_cte, block?, cte?, Option.map_map]
    rfl
  | subquery id =>
    simp only [reduceCtorEq, decide_false, List.find?_append, Option.map_or,
      find?_sheetsOf_subquery, ← Block.tables_nested?, block?, nested?]
    cases c.root.nested? id <;> rfl

/-! ## Changing the tables of one block -/

theorem sheetsOf_updateFirst (id : EntityId) (k : List Table → List Table) (ctes : List Cte) :
    sheetsOf (updateFirst (·.id = id) (fun q => { q with block := q.block.changeTables k }) ctes) =
      updateFirst (·.1 = .cte id) (Prod.map (fun f => f) k) (sheetsOf ctes) := by
  induction ctes with
  | nil => rfl
  | cons q rest ih =>
    rw [sheetsOf_cons, updateFirst, updateFirst]
    by_cases hid : q.id = id
    · rw [if_pos (by simpa using hid), if_pos (by simpa using hid), sheetsOf_cons]
      rfl
    · have hbelow := List.find?_eq_none.1
        (Block.find?_sheetsIn_cte id q.block)
      rw [if_neg (by simpa using hid), if_neg (by simpa using hid),
        updateFirst_append (by simpa using hbelow), sheetsOf_cons, ih]

theorem sheetsOf_updateNestedInCtes (id : EntityId) (k : List Table → List Table)
    (ctes : List Cte) :
    sheetsOf (updateNestedInCtes id (Block.changeTables k) ctes) =
      updateFirst (·.1 = .subquery id) (Prod.map (fun f => f) k) (sheetsOf ctes) := by
  induction ctes with
  | nil => rfl
  | cons q rest ih =>
    have hlaw := Block.sheetsIn_updateNested? id k q.block
    rw [sheetsOf_cons, updateNestedInCtes, updateFirst, if_neg (by simp)]
    cases hupdate : q.block.updateNested? id (Block.changeTables k) with
    | none =>
      have hnone := List.find?_eq_none.1
        (Block.find?_sheetsIn_eq_none (Block.nested?_eq_none hupdate))
      rw [updateFirst_append (by simpa using hnone), ← ih]
      exact sheetsOf_cons q _
    | some b =>
      obtain ⟨found, hfound, -⟩ := Block.nested?_eq_some hupdate
      rw [hupdate, Option.getD_some] at hlaw
      rw [updateFirst_append_of_mem (Block.exists_sheet_of_nested? hfound), ← hlaw,
        ← Block.tables_updateNested? hupdate]
      exact sheetsOf_cons { q with block := b } rest

/-- A change of the tables of one block is a change of the first sheet of its pointer. -/
theorem sheets_updateBlock (c : Canvas) (focus : Focus) (k : List Table → List Table) :
    (c.updateBlock focus (Block.changeTables k)).sheets =
      updateFirst (·.1 = focus) (Prod.map (fun f => f) k) c.sheets := by
  rw [sheets_eq c, updateFirst]
  cases focus with
  | root => exact sheets_eq _
  | cte id =>
    have hbelow := List.find?_eq_none.1
      (Block.find?_sheetsIn_cte id c.root)
    rw [if_neg (by simp), updateFirst_append (by simpa using hbelow), ← sheetsOf_updateFirst]
    exact sheets_eq _
  | subquery id =>
    have hlaw := Block.sheetsIn_updateNested? id k c.root
    rw [if_neg (by simp), updateBlock]
    cases hupdate : c.root.updateNested? id (Block.changeTables k) with
    | none =>
      have hnone := List.find?_eq_none.1
        (Block.find?_sheetsIn_eq_none (Block.nested?_eq_none hupdate))
      rw [updateFirst_append (by simpa using hnone), ← sheetsOf_updateNestedInCtes]
      exact sheets_eq _
    | some root =>
      obtain ⟨found, hfound, -⟩ := Block.nested?_eq_some hupdate
      rw [hupdate, Option.getD_some] at hlaw
      rw [updateFirst_append_of_mem (Block.exists_sheet_of_nested? hfound), ← hlaw,
        ← Block.tables_updateNested? hupdate]
      exact sheets_eq { c with root := root }

theorem sheets_mapBlocks (c : Canvas) (k : List Table → List Table) :
    (c.mapBlocks (Block.changeTables k)).sheets = c.sheets.map (Prod.map (fun f => f) k) := by
  simp only [sheets, sheetsOf, mapBlocks, Block.sheets_mapBlocks, List.flatMap_map,
    List.map_append, List.map_flatMap]

/-! ## What is left without tables -/

theorem bare_eq (c : Canvas) :
    c.bare =
      { ctes := c.ctes.map fun q => { q with block := q.block.bare }, root := c.root.bare } := rfl

theorem bare_updateNestedInCtes (id : EntityId) (ctes : List Cte) :
    ((updateNestedInCtes id (Block.changeTables k) ctes).map fun q =>
        { q with block := q.block.bare }) =
      ctes.map fun q => { q with block := q.block.bare } := by
  induction ctes with
  | nil => rfl
  | cons q rest ih =>
    rw [updateNestedInCtes]
    split
    · rename_i b hb
      rw [List.map_cons, List.map_cons, Block.bare_updateNested? q.block b hb]
    · rw [List.map_cons, List.map_cons, ih]

/-- Tables are changed, and nothing else. -/
theorem bare_updateBlock (c : Canvas) (focus : Focus) (k : List Table → List Table) :
    (c.updateBlock focus (Block.changeTables k)).bare = c.bare := by
  rw [bare_eq, bare_eq c]
  cases focus with
  | root => rw [updateBlock, Block.bare_changeTables]
  | cte id =>
    rw [updateBlock, map_updateFirst fun q => by rw [Block.bare_changeTables]]
  | subquery id =>
    rw [updateBlock]
    split
    · rename_i root hroot
      rw [Block.bare_updateNested? c.root root hroot]
    · rw [bare_updateNestedInCtes]

theorem bare_mapBlocks (c : Canvas) (k : List Table → List Table) :
    (c.mapBlocks (Block.changeTables k)).bare = c.bare := by
  simp only [bare_eq, mapBlocks, List.map_map, Function.comp_def, Block.bare_mapBlocks]

/-- A canvas is determined by its sheets and by what is left of it without tables. -/
theorem eq_of_bare_of_sheets (hbare : c.bare = d.bare) (hsheets : c.sheets = d.sheets) : c = d := by
  rw [bare_eq, bare_eq d, Canvas.mk.injEq] at hbare
  obtain ⟨hctes, hroot⟩ := hbare
  obtain ⟨hfirst, hrest⟩ := List.append_inj hsheets (Block.length_sheets_of_bare hroot .root)
  have hroots := Block.eq_of_bare_of_sheets c.root d.root .root hroot hfirst
  have hqueries : c.ctes = d.ctes := by
    refine eq_of_map_of_flatMap (fun q q' h => ?_) (fun q _ q' h hsame => ?_) hctes hrest
    · rw [Cte.mk.injEq] at h
      rw [h.1]
      exact Block.length_sheets_of_bare h.2.2.2 _
    · rw [Cte.mk.injEq] at h
      obtain ⟨hid, hname, hframe, hblock⟩ := h
      rw [hid] at hsame
      have hblocks := Block.eq_of_bare_of_sheets q.block q'.block _ hblock hsame
      cases q
      cases q'
      rw [Cte.mk.injEq]
      exact ⟨hid, hname, hframe, hblocks⟩
  cases c
  cases d
  rw [Canvas.mk.injEq]
  exact ⟨hqueries, hroots⟩

end Canvas

end QueryCanvas
