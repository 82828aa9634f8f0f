import QueryCanvas.Canvas.Block

/-!
# The tree of blocks

A block with the blocks of its nested queries forms a tree, and a canvas is a list of such trees:
that of the root and one for each named query.  Blocks are listed, found, replaced and removed at
any depth, always in the order in which a block comes before the blocks nested in it.
-/

set_option autoImplicit false

namespace QueryCanvas

namespace Block

/-! ## Nested blocks -/

mutual

/-- The block itself, followed by all blocks nested in it. -/
def blocks : Block → List Block
  | ⟨t, j, f, g, h, o, l, a, subs⟩ => ⟨t, j, f, g, h, o, l, a, subs⟩ :: blocksIn subs

/-- All blocks of a list of nested queries. -/
def blocksIn : List (SubqueryOf Block) → List Block
  | [] => []
  | ⟨_, _, _, _, _, b⟩ :: rest => blocks b ++ blocksIn rest

end

mutual

/-- The block of a nested query, at any depth. -/
def nested? (id : EntityId) : Block → Option Block
  | ⟨_, _, _, _, _, _, _, _, subs⟩ => nestedIn? id subs

/-- The block of a nested query in or below the members of a list. -/
def nestedIn? (id : EntityId) : List (SubqueryOf Block) → Option Block
  | [] => none
  | ⟨i, _, _, _, _, b⟩ :: rest =>
    if i = id then some b
    else match nested? id b with
      | some found => some found
      | none => nestedIn? id rest

end

/-- Whether a nested query stands somewhere below this block. -/
def containsNested (b : Block) (id : EntityId) : Bool := (b.nested? id).isSome

mutual

/-- Changes the block of a nested query at any depth; none if there is no such nested query. -/
def updateNested? (id : EntityId) (change : Block → Block) : Block → Option Block
  | ⟨t, j, f, g, h, o, l, a, subs⟩ =>
    (updateNestedIn? id change subs).map fun subs => ⟨t, j, f, g, h, o, l, a, subs⟩

/-- Changes the block of a nested query in or below the members of a list. -/
def updateNestedIn? (id : EntityId) (change : Block → Block) :
    List (SubqueryOf Block) → Option (List (SubqueryOf Block))
  | [] => none
  | ⟨i, r, al, k, fr, b⟩ :: rest =>
    if i = id then some (⟨i, r, al, k, fr, change b⟩ :: rest)
    else match updateNested? id change b with
      | some b => some (⟨i, r, al, k, fr, b⟩ :: rest)
      | none => (updateNestedIn? id change rest).map (⟨i, r, al, k, fr, b⟩ :: ·)

end

mutual

/-- Applies a change to the block and to every block nested in it. -/
def mapBlocks (change : Block → Block) : Block → Block
  | ⟨t, j, f, g, h, o, l, a, subs⟩ => change ⟨t, j, f, g, h, o, l, a, mapBlocksIn change subs⟩

/-- Applies a change to every block of a list of nested queries. -/
def mapBlocksIn (change : Block → Block) :
    List (SubqueryOf Block) → List (SubqueryOf Block)
  | [] => []
  | ⟨i, r, al, k, fr, b⟩ :: rest =>
    ⟨i, r, al, k, fr, mapBlocks change b⟩ :: mapBlocksIn change rest

end

mutual

/-- Removes a nested query from the block that owns it, at any depth; none if no block does. -/
def removeNested? (id : EntityId) : Block → Option Block
  | ⟨t, j, f, g, h, o, l, a, subs⟩ =>
    let b : Block := ⟨t, j, f, g, h, o, l, a, subs⟩
    if (b.subquery? id).isSome then some (b.removeSubquery id)
    else (removeNestedIn? id subs).map fun subs => ⟨t, j, f, g, h, o, l, a, subs⟩

/-- Removes a nested query from the first tree of a list that holds it. -/
def removeNestedIn? (id : EntityId) :
    List (SubqueryOf Block) → Option (List (SubqueryOf Block))
  | [] => none
  | ⟨i, r, al, k, fr, b⟩ :: rest =>
    match removeNested? id b with
    | some b => some (⟨i, r, al, k, fr, b⟩ :: rest)
    | none => (removeNestedIn? id rest).map (⟨i, r, al, k, fr, b⟩ :: ·)

end

end Block

namespace Canvas

/-! ## Blocks of a canvas -/

def cte? (c : Canvas) (id : EntityId) : Option Cte := c.ctes.find? (·.id = id)

/-- The first named query of a name, in any case. -/
def cteNamed? (c : Canvas) (name : String) : Option Cte :=
  c.ctes.find? (Text.sameName ·.name name)

/-- All blocks: those of the root, then those of the named queries in order. -/
def blocks (c : Canvas) : List Block :=
  c.root.blocks ++ c.ctes.flatMap fun q => q.block.blocks

/-- The block of a nested query, looked for below the root first. -/
def nested? (c : Canvas) (id : EntityId) : Option Block :=
  match c.root.nested? id with
  | some b => some b
  | none => c.ctes.findSome? fun q => q.block.nested? id

/-- The block that a pointer leads to; none if what it names is gone. -/
def block? (c : Canvas) : Focus → Option Block
  | .root => some c.root
  | .cte id => (c.cte? id).map (·.block)
  | .subquery id => c.nested? id

/-- Changes the block of a nested query in the first named query that holds it. -/
def updateNestedInCtes (id : EntityId) (change : Block → Block) : List Cte → List Cte
  | [] => []
  | q :: rest =>
    match q.block.updateNested? id change with
    | some b => { q with block := b } :: rest
    | none => q :: updateNestedInCtes id change rest

/-- Changes the block that a pointer leads to, and nothing if it leads nowhere. -/
def updateBlock (c : Canvas) (focus : Focus) (change : Block → Block) : Canvas :=
  match focus with
  | .root => { c with root := change c.root }
  | .cte id =>
    let inCte (q : Cte) : Cte := { q with block := change q.block }
    { c with ctes := updateFirst (·.id = id) inCte c.ctes }
  | .subquery id =>
    match c.root.updateNested? id change with
    | some root => { c with root := root }
    | none => { c with ctes := updateNestedInCtes id change c.ctes }

/-- Applies a change to every block. -/
def mapBlocks (c : Canvas) (change : Block → Block) : Canvas :=
  { root := c.root.mapBlocks change
    ctes := c.ctes.map fun q => { q with block := q.block.mapBlocks change } }

/-- Whether one pointer leads to the block of another or to a block inside it. -/
def isWithin (c : Canvas) (inner outer : Focus) : Bool :=
  if inner = outer then true
  else match c.block? outer, inner, outer with
    | none, _, _ => false
    | some _, .root, _ => false
    | some _, .cte _, .root => true
    | some _, .cte _, _ => false
    | some _, .subquery _, .root => true
    | some b, .subquery id, _ => b.containsNested id

/-- Removes a nested query from the first named query that holds it. -/
def removeNestedInCtes? (id : EntityId) : List Cte → Option (List Cte)
  | [] => none
  | q :: rest =>
    match q.block.removeNested? id with
    | some b => some ({ q with block := b } :: rest)
    | none => (removeNestedInCtes? id rest).map (q :: ·)

/-- Removes a nested query wherever it stands; none if it stands nowhere. -/
def removeSubquery? (c : Canvas) (id : EntityId) : Option Canvas :=
  match c.root.removeNested? id with
  | some root => some { c with root := root }
  | none => (removeNestedInCtes? id c.ctes).map fun ctes => { c with ctes := ctes }

end Canvas

end QueryCanvas
