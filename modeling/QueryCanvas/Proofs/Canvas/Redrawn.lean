import Mathlib.Data.List.Basic
import QueryCanvas.Proofs.Canvas.Relabelled

/-!
# A drawing at other places

A drawing is redrawn by giving every identifier in it, every place of a box and every frame for
another one.  Relabelling redraws at the same places.  What is looked up in a redrawn block comes
out redrawn, as long as different identifiers stay different.

Two drawings that are the same once all boxes and frames are moved to the origin differ in the
places only.
-/

set_option autoImplicit false

namespace QueryCanvas

/-- What each identifier, each place and each frame of a drawing gives way to. -/
structure Redrawing where
  id : EntityId → EntityId
  position : Position → Position
  frame : Frame → Frame

namespace Redrawing

/-- Other identifiers at the same places. -/
def relabel (f : EntityId → EntityId) : Redrawing :=
  { id := f, position := fun p => p, frame := fun fr => fr }

/-- The same identifiers, all at the origin. -/
def unplace : Redrawing :=
  { id := fun i => i, position := fun _ => default, frame := fun _ => default }

/-- Different identifiers stay different. -/
def KeepsApart (r : Redrawing) : Prop := Function.Injective r.id

theorem keepsApart_relabel {f : EntityId → EntityId} (hf : Function.Injective f) :
    (relabel f).KeepsApart := hf

theorem keepsApart_unplace : unplace.KeepsApart := fun _ _ h => h

end Redrawing

section Redrawing

variable (r : Redrawing)

def Table.redraw (t : Table) : Table := { t.relabel r.id with position := r.position t.position }

/-- A nested query that is redrawn, its block apart. -/
def SubqueryOf.redrawShell {β : Type} (s : SubqueryOf β) : SubqueryOf β :=
  { s.relabelShell r.id with frame := r.frame s.frame }

mutual

/-- The block redrawn, with the blocks nested in it. -/
def Block.redraw : Block → Block
  | ⟨t, j, x, g, h, o, l, a, subs⟩ =>
    ⟨t.map (Table.redraw r), j.map (Join.relabel r.id), x.map (Filter.relabel r.id),
      g.map (Grouping.relabel r.id), h.map (Having.relabel r.id), o.map (SortTerm.relabel r.id), l,
      a.map (SelectAggregate.relabel r.id), Block.redrawNested subs⟩

/-- Nested queries redrawn. -/
def Block.redrawNested : List (SubqueryOf Block) → List (SubqueryOf Block)
  | [] => []
  | ⟨i, role, a, k, fr, b⟩ :: rest =>
    ⟨r.id i, role, a, k.map r.id, r.frame fr, Block.redraw b⟩ :: Block.redrawNested rest

end

/-- A nested query redrawn, with its block. -/
def Subquery.redraw (s : Subquery) : Subquery :=
  { s.redrawShell r with block := s.block.redraw r }

def Cte.redraw (q : Cte) : Cte :=
  { q with id := r.id q.id, frame := r.frame q.frame, block := q.block.redraw r }

def Canvas.redraw (c : Canvas) : Canvas :=
  { ctes := c.ctes.map (Cte.redraw r), root := c.root.redraw r }

end Redrawing

/-- The drawing with all boxes and frames moved to the origin. -/
def Canvas.unplaced (c : Canvas) : Canvas := c.redraw .unplace

/-! ## The parts of a redrawn block -/

section Parts

variable (r : Redrawing)

theorem Block.redrawNested_eq (subs : List Subquery) :
    Block.redrawNested r subs = subs.map (Subquery.redraw r) := by
  induction subs with
  | nil => rfl
  | cons s rest ih => rw [Block.redrawNested, ih]; rfl

/-- A redrawn block by its parts. -/
theorem Block.redraw_eq (b : Block) :
    b.redraw r =
      { tables := b.tables.map (Table.redraw r), joins := b.joins.map (Join.relabel r.id)
        filters := b.filters.map (Filter.relabel r.id)
        groupBy := b.groupBy.map (Grouping.relabel r.id)
        having := b.having.map (Having.relabel r.id)
        orderBy := b.orderBy.map (SortTerm.relabel r.id)
        limit := b.limit, aggregates := b.aggregates.map (SelectAggregate.relabel r.id)
        subqueries := b.subqueries.map (Subquery.redraw r) } := by
  rw [← redrawNested_eq]
  cases b
  rfl

variable (b : Block) (t : Table) (s : Subquery) (q : Cte) (c : Canvas)

@[simp] theorem Block.redraw_tables : (b.redraw r).tables = b.tables.map (Table.redraw r) := by
  rw [redraw_eq]

@[simp] theorem Block.redraw_joins : (b.redraw r).joins = b.joins.map (Join.relabel r.id) := by
  rw [redraw_eq]

@[simp] theorem Block.redraw_filters :
    (b.redraw r).filters = b.filters.map (Filter.relabel r.id) := by
  rw [redraw_eq]

@[simp] theorem Block.redraw_groupBy :
    (b.redraw r).groupBy = b.groupBy.map (Grouping.relabel r.id) := by
  rw [redraw_eq]

@[simp] theorem Block.redraw_having :
    (b.redraw r).having = b.having.map (Having.relabel r.id) := by
  rw [redraw_eq]

@[simp] theorem Block.redraw_orderBy :
    (b.redraw r).orderBy = b.orderBy.map (SortTerm.relabel r.id) := by
  rw [redraw_eq]

@[simp] theorem Block.redraw_limit : (b.redraw r).limit = b.limit := by rw [redraw_eq]

@[simp] theorem Block.redraw_aggregates :
    (b.redraw r).aggregates = b.aggregates.map (SelectAggregate.relabel r.id) := by
  rw [redraw_eq]

@[simp] theorem Block.redraw_subqueries :
    (b.redraw r).subqueries = b.subqueries.map (Subquery.redraw r) := by
  rw [redraw_eq]

@[simp] theorem Table.redraw_id : (t.redraw r).id = r.id t.id := rfl

@[simp] theorem Table.redraw_name : (t.redraw r).name = t.name := rfl

@[simp] theorem Table.redraw_cte : (t.redraw r).cte = t.cte.map r.id := rfl

@[simp] theorem Subquery.redraw_id : (s.redraw r).id = r.id s.id := rfl

@[simp] theorem Subquery.redraw_role : (s.redraw r).role = s.role := rfl

@[simp] theorem Subquery.redraw_block : (s.redraw r).block = s.block.redraw r := rfl

@[simp] theorem Cte.redraw_id : (q.redraw r).id = r.id q.id := rfl

@[simp] theorem Cte.redraw_name : (q.redraw r).name = q.name := rfl

@[simp] theorem Cte.redraw_block : (q.redraw r).block = q.block.redraw r := rfl

@[simp] theorem Canvas.redraw_ctes : (c.redraw r).ctes = c.ctes.map (Cte.redraw r) := rfl

@[simp] theorem Canvas.redraw_root : (c.redraw r).root = c.root.redraw r := rfl

/-! ## Relabelling is redrawing at the same places -/

variable (f : EntityId → EntityId)

mutual

theorem Block.redraw_relabel : ∀ b : Block, b.redraw (.relabel f) = b.relabel f
  | ⟨_, _, _, _, _, _, _, _, subs⟩ => by
    rw [redraw, relabel, redrawNested_relabel subs]
    rfl

theorem Block.redrawNested_relabel : ∀ subs : List (SubqueryOf Block),
    Block.redrawNested (.relabel f) subs = Block.relabelNested f subs
  | [] => rfl
  | ⟨_, _, _, _, _, b⟩ :: rest => by
    rw [redrawNested, relabelNested, redraw_relabel b, redrawNested_relabel rest]
    rfl

end

theorem Canvas.redraw_relabel : c.redraw (.relabel f) = c.relabel f := by
  have hcte : Cte.redraw (.relabel f) = Cte.relabel f :=
    funext fun q => by rw [Cte.redraw, Block.redraw_relabel]; rfl
  rw [redraw, hcte, Block.redraw_relabel, relabel]

end Parts

/-! ## Looking up -/

section Lookup

variable {r : Redrawing}

theorem Block.table?_redraw (hr : r.KeepsApart) (b : Block) (id : EntityId) :
    (b.redraw r).table? (r.id id) = (b.table? id).map (Table.redraw r) := by
  rw [table?, redraw_tables]
  exact find?_map_key hr Table.id Table.id (fun _ => rfl) id b.tables

theorem Block.tableName_redraw (hr : r.KeepsApart) (b : Block) (id : EntityId) :
    (b.redraw r).tableName (r.id id) = b.tableName id := by
  simp only [tableName, table?_redraw hr, Option.map_map]
  rfl

theorem Block.filter?_redraw (hr : r.KeepsApart) (b : Block) (id : EntityId) :
    (b.redraw r).filter? (r.id id) = (b.filter? id).map (Filter.relabel r.id) := by
  rw [filter?, redraw_filters]
  exact find?_map_key hr Filter.id Filter.id (fun _ => rfl) id b.filters

theorem Block.subquery?_redraw (hr : r.KeepsApart) (b : Block) (id : EntityId) :
    (b.redraw r).subquery? (r.id id) = (b.subquery? id).map (Subquery.redraw r) := by
  rw [subquery?, redraw_subqueries]
  exact find?_map_key hr SubqueryOf.id SubqueryOf.id (fun _ => rfl) id b.subqueries

theorem Canvas.cte?_redraw (hr : r.KeepsApart) (c : Canvas) (id : EntityId) :
    (c.redraw r).cte? (r.id id) = (c.cte? id).map (Cte.redraw r) :=
  find?_map_key hr Cte.id Cte.id (fun _ => rfl) id c.ctes

/-- The nested query that an operand links is linked in the redrawn block too. -/
theorem Operand.linked_redraw {β : Type} (hr : r.KeepsApart) (o : Operand)
    (nested : List (SubqueryOf β)) :
    ((o.relabel r.id).subquery?.bind fun i =>
        (nested.map (SubqueryOf.redrawShell r)).find? fun s => s.id = i) =
      (o.subquery?.bind fun i => nested.find? fun s => s.id = i).map
        (SubqueryOf.redrawShell r) := by
  cases o with
  | value text => rfl
  | subquery i => exact find?_map_key hr SubqueryOf.id SubqueryOf.id (fun _ => rfl) i nested

theorem Block.subqueriesIn_redraw (b : Block) (role : SubqueryRole) :
    (b.redraw r).subqueriesIn role = (b.subqueriesIn role).map (Subquery.redraw r) := by
  rw [subqueriesIn, redraw_subqueries, List.filter_map]
  rfl

@[simp] theorem Block.hasNoSource_redraw (b : Block) :
    (b.redraw r).hasNoSource = b.hasNoSource := by
  simp [hasNoSource, subqueriesIn_redraw]

/-- The blocks of a redrawn tree are the blocks of the tree redrawn. -/
theorem Block.blocks_redraw (b : Block) : (b.redraw r).blocks = b.blocks.map (Block.redraw r) := by
  induction b using Block.tree_induction with
  | step b ih =>
    rw [blocks_eq, blocks_eq, redraw_subqueries, List.flatMap_map, List.map_cons, List.map_flatMap]
    exact congrArg _ (List.flatMap_congr fun s hs => ih s hs)

theorem Canvas.blocks_redraw (c : Canvas) :
    (c.redraw r).blocks = c.blocks.map (Block.redraw r) := by
  simp only [blocks, redraw_root, redraw_ctes, List.flatMap_map, Cte.redraw_block,
    Block.blocks_redraw, List.map_append, List.map_flatMap]

end Lookup

end QueryCanvas
