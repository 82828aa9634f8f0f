import QueryCanvas.Canvas.Cte
import QueryCanvas.CarryOver
import QueryCanvas.Shape
import QueryCanvas.Sql.Reading
import QueryCanvas.Sql.Render

/-!
# Edited query texts

A text that was typed for a block of a canvas either means what the canvas says already, or
describes another query, which the canvas takes over, or cannot be drawn.
-/

set_option autoImplicit false

namespace QueryCanvas

open Sql

/-- What comes of an edited text. -/
inductive Reconciliation where
  /-- The text means what the canvas says. -/
  | unchanged
  /-- The text means something else; this is the canvas that says it. -/
  | replaced (c : Canvas)
  /-- The text stays as it is, because a canvas cannot hold it. -/
  | refused (reason : ReadFault)
deriving DecidableEq

/-- The language of a text, and the tables that are known. -/
structure Reader where
  dialect : Dialect
  catalog : Catalog

namespace Canvas

/-- The named queries that the block of a pointer can read from: for a named query those before
it. -/
def scope (c : Canvas) : Focus → List Cte
  | .cte id => c.ctes.takeWhile (·.id ≠ id)
  | _ => c.ctes

end Canvas

namespace Reader

variable (r : Reader)

/-- The canvas of a text. -/
def canvas (text : String) : Reading Canvas := readText r.dialect r.catalog text

/-- The block of a text that is typed for the block of a pointer. -/
def block (c : Canvas) (focus : Focus) (text : String) : Reading Block :=
  readNestedText r.dialect { catalog := r.catalog, ctes := c.scope focus } text

/-- The shape of the query of a text. -/
def shape (text : String) : Reading CanvasShape := Canvas.shape <$> r.canvas text

/-- The shape of a canvas as its written query says it.  What is not written is no part of it. -/
def writtenShape (c : Canvas) : Fresh CanvasShape := do
  match ← (r.shape (render .compact c)).run with
  | .ok s => return s
  | .error _ => return c.shape

/-- The shape of the block of a pointer as its written query says it. -/
def writtenBlockShape (c : Canvas) (focus : Focus) (b : Block) : Fresh BlockShape := do
  match ← (r.block c focus (renderBlock .compact b)).run with
  | .ok b => return b.shape
  | .error _ => return b.shape

/-- The canvas with another block in place of that of a pointer. -/
def replaceBlock (c : Canvas) (focus : Focus) (b : Block) : Canvas :=
  let next := c.updateBlock focus fun _ => b
  match focus with
  | .cte id => next.refreshCteColumns id
  | _ => next

/-- The canvas that a text asks for in place of the block of a pointer; none if the text means what
the canvas says. -/
def reconcile? (c : Canvas) (focus : Focus) (text : String) : Reading (Option Canvas) := do
  match focus with
  | .root =>
    let next ← r.canvas text
    let current ← (r.writtenShape c : Fresh CanvasShape)
    return if next.shape = current then none else some (c.carryOver next)
  | focus =>
    match c.block? focus with
    | none => refuse "editing a context that no longer exists"
    | some old =>
      let next ← r.block c focus text
      let current ← (r.writtenBlockShape c focus old : Fresh BlockShape)
      return if next.shape = current then none
        else some (replaceBlock c focus (old.carryOver next))

/-- What comes of a text that was typed for the block of a pointer. -/
def reconcile (c : Canvas) (focus : Focus) (text : String) : Fresh Reconciliation := do
  match ← (r.reconcile? c focus text).run with
  | .ok none => return .unchanged
  | .ok (some next) => return .replaced next
  | .error reason => return .refused reason

/-- Whether two results of reading are there and equal. -/
def sameResult {α : Type} [DecidableEq α] (a b : Reading α) : Fresh Bool := do
  match ← a.run, ← b.run with
  | .ok a, .ok b => return a = b
  | _, _ => return false

/-- Whether two texts for the block of a pointer mean the same.  A text means the same as itself,
whether or not it can be read. -/
def areEquivalent (c : Canvas) (focus : Focus) (a b : String) : Fresh Bool := do
  if a = b then return true
  else match focus with
    | .root => sameResult (r.shape a) (r.shape b)
    | focus => sameResult (Block.shape <$> r.block c focus a) (Block.shape <$> r.block c focus b)

end Reader

end QueryCanvas
