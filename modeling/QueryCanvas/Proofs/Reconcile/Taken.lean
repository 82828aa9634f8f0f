import QueryCanvas.Proofs.Reading.Drawn
import QueryCanvas.Reconcile

/-!
# How a canvas takes over a text

A canvas that takes over a text is replaced with what was read, after identities were carried over
to it: with a whole canvas where the text was typed for the root, and else with one in which another
block stands in the place of the pointer.  What is preserved when texts are taken over is shown of
these two cases.
-/

set_option autoImplicit false

namespace QueryCanvas

open Sql

namespace Reader

variable (r : Reader) {n : Nat} {c : Canvas}

/-- The named queries that a block can read from are some of those of the canvas. -/
theorem scope_subset (c : Canvas) (focus : Focus) : c.scope focus ⊆ c.ctes := by
  cases focus with
  | cte id => exact (List.takeWhile_prefix _).subset
  | root => exact fun _ hq => hq
  | subquery id => exact fun _ hq => hq

/-! ## Texts -/

theorem reads_canvas (text : String) (n : Nat) :
    Reads n (r.canvas text) fun c n' => c.Drawn n n' :=
  readText_drawn _ _ _ n

theorem reads_shape (text : String) (n : Nat) : Reads n (r.shape text) fun _ _ => True :=
  Reads.map ((r.reads_canvas text n).imp fun _ _ _ _ => trivial)

/-- Reading what a canvas says uses identifiers, if anything. -/
theorem yields_writtenShape (c : Canvas) (n : Nat) :
    Yields n (r.writtenShape c) fun _ _ => True := by
  unfold writtenShape
  refine Yields.bind (r.reads_shape _ n).run fun shape m _ _ => ?_
  split <;> exact Yields.pure trivial

theorem reads_block (c : Canvas) (focus : Focus) (text : String) (n : Nat) :
    Reads n (r.block c focus text) fun b n' =>
      b.Everywhere (Block.Drawn n n' ((c.scope focus).map (·.id))) :=
  readNestedText_drawn _ _ _ n

theorem yields_writtenBlockShape (c : Canvas) (focus : Focus) (b : Block) (n : Nat) :
    Yields n (r.writtenBlockShape c focus b) fun _ _ => True := by
  unfold writtenBlockShape
  refine Yields.bind (r.reads_block c focus _ n).run fun shape m _ _ => ?_
  split <;> exact Yields.pure trivial

theorem yields_sameResult {α : Type} [DecidableEq α] {a b : Reading α} (n : Nat)
    (ha : ∀ n, Reads n a fun _ _ => True) (hb : ∀ n, Reads n b fun _ _ => True) :
    Yields n (sameResult a b) fun _ _ => True := by
  unfold sameResult
  refine Yields.bind (ha n).run fun _ m _ _ => Yields.bind (hb m).run fun _ n' _ _ => ?_
  split <;> exact Yields.pure trivial

theorem yields_areEquivalent (c : Canvas) (focus : Focus) (a b : String) (n : Nat) :
    Yields n (r.areEquivalent c focus a b) fun _ _ => True := by
  have hblock : ∀ text n, Reads n (Block.shape <$> r.block c focus text) fun _ _ => True :=
    fun text n => Reads.map ((r.reads_block c focus text n).imp fun _ _ _ _ => trivial)
  unfold areEquivalent
  split
  · exact Yields.pure trivial
  · split
    · exact yields_sameResult n (r.reads_shape a) (r.reads_shape b)
    · exact yields_sameResult n (hblock a) (hblock b)

/-! ## What a canvas is replaced with -/

/-- What the canvas is replaced with when it takes over the text, while the counter goes from `n`
to `m`. -/
inductive Takes (c : Canvas) (text : String) (n m : Nat) : Focus → Canvas → Prop
  | root {parsed : Canvas} {n' : Nat} (hrun : (r.canvas text).run n = (.ok parsed, n'))
      (hm : n' ≤ m) : Takes c text n m .root (c.carryOver parsed)
  | nested {focus : Focus} {old parsed : Block} {n' : Nat} (hfocus : focus ≠ .root)
      (hold : c.block? focus = some old) (hrun : (r.block c focus text).run n = (.ok parsed, n'))
      (hm : n' ≤ m) : Takes c text n m focus (replaceBlock c focus (old.carryOver parsed))

/-- What putting another block in place preserves, and showing the results of a named query does,
holds with the other block in place. -/
theorem replaceBlock_induction {P : Canvas → Prop} {focus : Focus} {b : Block}
    (h : P (c.updateBlock focus fun _ => b))
    (hrefresh : ∀ {d : Canvas} (id : EntityId), P d → P (d.refreshCteColumns id)) :
    P (replaceBlock c focus b) := by
  cases focus with
  | cte id => exact hrefresh id h
  | root => exact h
  | subquery id => exact h

theorem reads_reconcile? (c : Canvas) (focus : Focus) (text : String) (n : Nat) :
    Reads n (r.reconcile? c focus text) fun result m => ∀ next, result = some next →
      r.Takes c text n m focus next := by
  unfold reconcile?
  split
  · refine Reads.bind (r.reads_canvas text n).ran fun parsed m _ hparsed => ?_
    refine Reads.bind (Reads.lift (r.yields_writtenShape c m)) fun current n' hn _ => ?_
    refine Reads.pure fun next hnext => ?_
    split at hnext
    · cases hnext
    · cases hnext
      exact .root hparsed.1 hn
  · rename_i hfocus
    split
    · exact Reads.refuse _
    · rename_i old hold
      refine Reads.bind (r.reads_block c focus text n).ran fun parsed m _ hparsed => ?_
      refine Reads.bind (Reads.lift (r.yields_writtenBlockShape c focus old m))
        fun current n' hn _ => ?_
      refine Reads.pure fun next hnext => ?_
      split at hnext
      · cases hnext
      · cases hnext
        exact .nested hfocus hold hparsed.1 hn

theorem yields_reconcile (c : Canvas) (focus : Focus) (text : String) (n : Nat) :
    Yields n (r.reconcile c focus text) fun what m => ∀ next, what = .replaced next →
      r.Takes c text n m focus next := by
  unfold reconcile
  refine Yields.bind (r.reads_reconcile? c focus text n).run fun result m _ hresult => ?_
  split
  · exact Yields.pure nofun
  · refine Yields.pure ?_
    rintro _ ⟨⟩
    exact hresult _ rfl _ rfl
  · exact Yields.pure nofun

variable {r} in
theorem reconcile?_of_unchanged {focus : Focus} {text : String}
    (h : (r.reconcile c focus text n).1 = .unchanged) :
    ((r.reconcile? c focus text).run n).1 = .ok none := by
  unfold reconcile at h
  simp only [bind, StateT.bind] at h
  split at h
  rename_i result n' hrun
  rw [hrun]
  split at h
  · rfl
  · cases h
  · cases h

end Reader

end QueryCanvas
