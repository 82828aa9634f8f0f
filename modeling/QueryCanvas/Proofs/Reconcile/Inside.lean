import QueryCanvas.Proofs.Canvas.Hole
import QueryCanvas.Proofs.Reconcile.Replaced

/-!
# A text for a nested block changes that block alone

A canvas that takes over a text for a block below the root is the canvas as it was with another
block in the place that the pointer leads to.  Where that block belongs to a named query, the tables
that are linked to the named query show the results of the new block, and nothing else of them
changes.
-/

set_option autoImplicit false

namespace QueryCanvas

open Sql

/-- The canvas in which the tables that are linked to the named query of a pointer declare the given
columns.  To other pointers no table is linked. -/
def Canvas.declaring (c : Canvas) (columns : List String) : Focus → Canvas
  | .cte id => c.mapBlocks fun b => b.updateLinked id fun t => { t with columns }
  | _ => c

/-- Whether a canvas that has a property takes over the text. -/
def Reconciliation.replacedBy (p : Canvas → Bool) : Reconciliation → Bool
  | .replaced next => p next
  | _ => false

theorem Reconciliation.exists_of_replacedBy {p : Canvas → Bool} {what : Reconciliation}
    (h : what.replacedBy p = true) : ∃ next, what = .replaced next ∧ p next = true := by
  cases what with
  | replaced next => exact ⟨next, rfl, h⟩
  | unchanged => cases h
  | refused reason => cases h

namespace Reader

variable {r : Reader} {c next : Canvas} {focus : Focus} {text : String} {n : Nat}

/-- With another block in place of that of a pointer, everything around it stays as it is, apart
from the columns of tables that are linked to it. -/
theorem replaceBlock_fill {hole : Canvas.Hole} (h : hole.Around focus) (old b : Block) :
    replaceBlock (hole.fill old) focus b = (hole.fill b).declaring b.outputColumns focus := by
  unfold replaceBlock
  dsimp only
  rw [h.changed old fun _ => b]
  cases focus with
  | root => rfl
  | subquery id => rfl
  | cte id =>
    obtain ⟨q, hq, hblock⟩ := Option.map_eq_some_iff.1 (h.found b)
    show (hole.fill b).refreshCteColumns id = _
    rw [Canvas.refreshCteColumns, hq]
    show Canvas.mapBlocks _ _ = _
    rw [hblock]
    rfl

/-- A text for a block below the root that a canvas takes over: the canvas afterwards is the canvas
before with another block in the hole around the block of the pointer, except that the tables linked
to the named query of the pointer declare the results of the new block.  The new block is the one
that was read, with the identities it takes over from the old one, and it is what the pointer leads
to. -/
theorem nested_edit_stays_inside (hfocus : focus ≠ .root)
    (h : (r.reconcile c focus text n).1 = .replaced next) :
    ∃ hole : Canvas.Hole, hole.Around focus ∧ ∃ old parsed n',
      c = hole.fill old ∧ (r.block c focus text).run n = (.ok parsed, n') ∧
      next = (hole.fill (old.carryOver parsed)).declaring (old.carryOver parsed).outputColumns
        focus ∧
      next.block? focus = some (old.carryOver parsed) := by
  have hnext := reconcile?_of_replaced h
  obtain ⟨old, parsed, n', hold, hrun, hdrawn, rfl⟩ :=
    (reads_nested hfocus).result _ _ (Prod.ext hnext rfl) next rfl
  have hfound := block?_replaceBlock hold (Block.links_carryOver parsed old hdrawn)
  obtain ⟨hole, haround, hfill⟩ := Canvas.exists_around hold
  refine ⟨hole, haround, old, parsed, n', hfill, hrun, ?_, hfound⟩
  rw [hfill, replaceBlock_fill haround]

/-- A canvas that reads a named query, and with it a nested query that reads it too. -/
def recent : Canvas :=
  let reading (id : EntityId) : Table :=
    { Table.create id "recent" ["id"] default with cte := some ⟨"q"⟩, selected := ["id"] }
  { ctes := [{
      id := ⟨"q"⟩, name := "recent", frame := default
      block := { Block.empty with
        tables := [{ Table.create ⟨"o"⟩ "orders" [] default with selected := ["id"] }] } }]
    root := { Block.empty with
      tables := [reading ⟨"t"⟩]
      subqueries := [{
        id := ⟨"s"⟩, role := .selectList, aliasName := none, linkedFilter := none, frame := default
        block := { Block.empty with tables := [reading ⟨"u"⟩] } }] } }

/-- A second column in the named query shows in both tables that read it. -/
theorem nested_edit_stays_inside_recent :
    let text := "SELECT orders.id, orders.total FROM orders"
    ∃ next, (unknowing.reconcile recent (.cte ⟨"q"⟩) text 0).1 = .replaced next ∧
      next.blocks.map (·.tables.map (·.columns)) = [[["id", "total"]], [["id", "total"]], [[]]] ∧
      ∃ hole : Canvas.Hole, hole.Around (.cte ⟨"q"⟩) ∧ ∃ old parsed n',
        recent = hole.fill old ∧
        (unknowing.block recent (.cte ⟨"q"⟩) text).run 0 = (.ok parsed, n') ∧
        next = (hole.fill (old.carryOver parsed)).declaring (old.carryOver parsed).outputColumns
          (.cte ⟨"q"⟩) ∧
        next.block? (.cte ⟨"q"⟩) = some (old.carryOver parsed) := by
  intro text
  have hreplaced : (unknowing.reconcile recent (.cte ⟨"q"⟩) text 0).1.replacedBy (fun next =>
      next.blocks.map (·.tables.map (·.columns)) = [[["id", "total"]], [["id", "total"]], [[]]]) =
        true := by
    decide +kernel
  obtain ⟨next, hnext, hcolumns⟩ := Reconciliation.exists_of_replacedBy hreplaced
  exact ⟨next, hnext, of_decide_eq_true hcolumns, nested_edit_stays_inside nofun hnext⟩

end Reader

end QueryCanvas
