import QueryCanvas.Proofs.Arrangement.Redrawn
import QueryCanvas.Proofs.Canvas.Edits
import QueryCanvas.Proofs.CarryOver.Relabelled
import QueryCanvas.Proofs.Reading.Relabelled
import QueryCanvas.Proofs.Shape.Redrawn

/-!
# What comes of a text does not depend on the counter

A text is compared by shape, a canvas takes it over by names and places, and neither sees what the
identifiers are.  So what comes of a text that is typed for a canvas is the same wherever the
counter for new identifiers stands, up to the names of those.
-/

set_option autoImplicit false

namespace QueryCanvas

open Sql

/-! ## Pointers and scopes -/

section Pointers

variable {f : EntityId → EntityId}

theorem Canvas.scope_relabel (hf : Function.Injective f) (c : Canvas) (focus : Focus) :
    (c.relabel f).scope (focus.relabel f) = (c.scope focus).map (Cte.relabel f) := by
  cases focus with
  | cte id =>
    simp only [scope, Focus.relabel, relabel_ctes, List.takeWhile_map, Function.comp_def,
      Cte.relabel_id, ne_eq, hf.eq_iff]
  | root => rfl
  | subquery id => rfl

end Pointers

/-- What comes of a text, with other identifiers on the canvas that is put in place. -/
def Reconciliation.relabel (f : EntityId → EntityId) : Reconciliation → Reconciliation
  | .replaced c => .replaced (c.relabel f)
  | .unchanged => .unchanged
  | .refused reason => .refused reason

namespace Sql.Shift

variable {σ : Shift} (r : Reader) (c : Canvas)

theorem reads_block (focus : Focus) (text : String) :
    σ.Reads (Block.relabel σ.rename) (r.block c focus text)
      (r.block (c.relabel σ.rename) (focus.relabel σ.rename) text) := by
  have hscope := Scope.looks_relabel σ.rename { catalog := r.catalog, ctes := c.scope focus }
  rw [Scope.relabel, ← Canvas.scope_relabel σ.injective] at hscope
  exact reads_readNestedText r.dialect hscope text

theorem yields_writtenShape :
    σ.Yields id (r.writtenShape c) (r.writtenShape (c.relabel σ.rename)) := by
  have hshape : σ.Reads id (r.shape (render .compact c)) (r.shape (render .compact c)) :=
    Reads.map (reads_readText r.dialect r.catalog _) fun next => next.shape_relabel σ.injective
  unfold Reader.writtenShape
  rw [render_relabel σ.injective, Canvas.shape_relabel σ.injective]
  refine Yields.bind hshape fun result => ?_
  cases result with
  | ok shape => exact Yields.pure rfl
  | error fault => exact Yields.pure rfl

theorem yields_writtenBlockShape (focus : Focus) (b : Block) :
    σ.Yields id (r.writtenBlockShape c focus b)
      (r.writtenBlockShape (c.relabel σ.rename) (focus.relabel σ.rename) (b.relabel σ.rename)) := by
  unfold Reader.writtenBlockShape
  rw [renderBlock_relabel σ.injective, Block.shape_relabel σ.injective]
  refine Yields.bind (reads_block r c focus _) fun result => ?_
  cases result with
  | ok parsed => exact Yields.pure (parsed.shape_relabel σ.injective)
  | error fault => exact Yields.pure rfl

/-- A comparison of shapes decides whether a canvas is put in place. -/
theorem relabel_of_compared {f : EntityId → EntityId} (same : Prop) [Decidable same]
    {next next' : Canvas} (h : next' = next.relabel f) :
    (if same then none else some next') =
      Option.map (Canvas.relabel f) (if same then none else some next) := by
  split
  · rfl
  · rw [h, Option.map_some]

theorem reads_reconcile? (focus : Focus) (text : String) :
    σ.Reads (Option.map (Canvas.relabel σ.rename)) (r.reconcile? c focus text)
      (r.reconcile? (c.relabel σ.rename) (focus.relabel σ.rename) text) := by
  have hblock := c.block?_relabel σ.injective focus
  have hread := reads_block (σ := σ) r c focus text
  have hwritten := yields_writtenBlockShape (σ := σ) r c focus
  have hplace := fun b => Reader.replaceBlock_relabel σ.injective c focus b
  unfold Reader.reconcile?
  cases focus with
  | root =>
    refine Reads.bind (reads_readText r.dialect r.catalog text) fun next => ?_
    refine Reads.bind (Reads.lift (yields_writtenShape r c)) fun current => Reads.pure ?_
    rw [Canvas.shape_relabel σ.injective]
    exact relabel_of_compared _ (c.carryOver_relabel σ.injective next)
  | subquery id | cte id =>
    simp only [Focus.relabel] at hblock hread hwritten hplace ⊢
    rw [hblock]
    cases c.block? _ with
    | none => exact Reads.refuse _
    | some old =>
      refine Reads.bind hread fun next => ?_
      refine Reads.bind (Reads.lift (hwritten old)) fun current => Reads.pure ?_
      rw [Block.shape_relabel σ.injective]
      refine relabel_of_compared _ ?_
      rw [Block.carryOver_relabel σ.injective, hplace]

/-- What comes of a text is the same up to the names of identifiers. -/
theorem yields_reconcile (focus : Focus) (text : String) :
    σ.Yields (Reconciliation.relabel σ.rename) (r.reconcile c focus text)
      (r.reconcile (c.relabel σ.rename) (focus.relabel σ.rename) text) := by
  unfold Reader.reconcile
  refine Yields.bind (reads_reconcile? r c focus text) fun result => ?_
  rcases result with fault | ⟨_ | next⟩
  · exact Yields.pure rfl
  · exact Yields.pure rfl
  · exact Yields.pure rfl

end Sql.Shift

end QueryCanvas
