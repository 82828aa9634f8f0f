import QueryCanvas.Canvas.Tree

/-!
# Named queries and the tables that read them

A table box may be linked to a named query.  Such a box shows the name and the result columns of
that query, so renaming, removing and changing a named query reaches every box linked to it.
-/

set_option autoImplicit false

namespace QueryCanvas

/-- Changes the tables of a block that are linked to a named query. -/
def Block.updateLinked (b : Block) (id : EntityId) (change : Table → Table) : Block :=
  { b with tables := b.tables.map fun t => if t.cte = some id then change t else t }

/-- Removes the tables of a block that are linked to a named query. -/
def Block.removeLinked (b : Block) (id : EntityId) : Block :=
  ((b.tables.filter (·.cte = some id)).map (·.id)).foldl Block.removeTable b

namespace Canvas

/-- Adds an empty named query at the end of the `WITH` clause. -/
def addCte (c : Canvas) (id : EntityId) (name : String) (frame : Frame) : Canvas :=
  { c with ctes := c.ctes ++ [{ id := id, name := name, frame := frame, block := Block.empty }] }

/-- Renames a named query and every table linked to it. -/
def renameCte (c : Canvas) (id : EntityId) (name : String) : Canvas :=
  if (c.cte? id).isNone then c
  else
    let renamed (q : Cte) : Cte := { q with name := name }
    { c with ctes := updateFirst (·.id = id) renamed c.ctes }.mapBlocks fun b =>
      b.updateLinked id fun t => { t with name := name }

/-- Removes a named query and every table linked to it. -/
def removeCte (c : Canvas) (id : EntityId) : Canvas :=
  if (c.cte? id).isNone then c
  else { c with ctes := c.ctes.filter (·.id ≠ id) }.mapBlocks fun b => b.removeLinked id

/-- Whether a table that reads a named query can be put into the block of a pointer. -/
def canReference (c : Canvas) (focus : Focus) (cteId : EntityId) : Bool :=
  (c.cte? cteId).isSome && focus ≠ .cte cteId && (c.block? focus).isSome

/-- Puts a table that reads a named query into the block of a pointer. -/
def addCteReference (c : Canvas) (focus : Focus) (cteId tableId : EntityId)
    (position : Position) : Canvas :=
  match c.cte? cteId with
  | none => c
  | some q =>
    if c.canReference focus cteId then
      let box := Table.create tableId q.name q.block.outputColumns position
      c.updateBlock focus fun b => b.addTable { box with cte := some cteId }
    else c

/-- Writes the result columns of a named query into every table linked to it. -/
def refreshCteColumns (c : Canvas) (id : EntityId) : Canvas :=
  match c.cte? id with
  | none => c
  | some q =>
    let columns := q.block.outputColumns
    c.mapBlocks fun b => b.updateLinked id fun t => { t with columns := columns }

end Canvas

end QueryCanvas
