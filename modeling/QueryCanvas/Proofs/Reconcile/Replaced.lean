import Mathlib.Data.List.TakeWhile
import QueryCanvas.Proofs.Canvas.Focus
import QueryCanvas.Proofs.CarryOver.Kept
import QueryCanvas.Proofs.Reconcile.Taken

/-!
# What a canvas says after it took over a text

A canvas takes over a text by reading it and carrying identities over to what was read.  The edited
part then says what the text says exactly if the aggregates that go back around columns are in
place there.
-/

set_option autoImplicit false

namespace QueryCanvas

open Sql

namespace Block

variable {n n' : Nat} {ctes : List EntityId}

/-- Tables keep their links where they take over identities. -/
theorem links_carryOver (b old : Block) (hb : b.Everywhere (Drawn n n' ctes)) :
    (old.carryOver b).Everywhere fun d => ∀ t ∈ d.tables, ∀ id, t.cte = some id → id ∈ ctes := by
  refine everywhere_carryOver (Q := fun _ => True) (fun _ hd => hd.links) ?_ b old hb
    fun _ _ => trivial
  intro b old hb _ t' ht' id hlink
  rw [carryOver_tables old b hb.nodup_names] at ht'
  obtain ⟨t, ht, rfl⟩ := List.mem_map.1 ht'
  refine hb.links t ht id ?_
  rw [← hlink, carriedTable_cte]

end Block

namespace Reader

variable (r : Reader)

/-- The part of a canvas that a text was typed for says what the text says. -/
def SaysText (c : Canvas) (focus : Focus) (text : String) (n : Nat) (next : Canvas) : Prop :=
  match focus with
  | .root => ((r.shape text).run n).1 = .ok next.shape
  | focus => ∃ b, next.block? focus = some b ∧
      ((Block.shape <$> r.block c focus text).run n).1 = .ok b.shape

/-- The aggregates that go back around columns are in place where a canvas takes over a text. -/
def KeepsText (c : Canvas) (focus : Focus) (text : String) (n : Nat) : Prop :=
  match focus with
  | .root => ∃ parsed, ((r.canvas text).run n).1 = .ok parsed ∧ c.Kept parsed
  | focus => ∃ old parsed, c.block? focus = some old ∧
      ((r.block c focus text).run n).1 = .ok parsed ∧ old.Kept parsed

variable {r} {c next : Canvas} {focus : Focus} {text : String} {n : Nat}

/-! ## What a canvas is replaced with -/

/-- A text for the root is read, and identities are carried over to its canvas. -/
theorem reads_root : Reads n (r.reconcile? c .root text) fun result _ =>
    ∀ next, result = some next → ∃ parsed n', (r.canvas text).run n = (.ok parsed, n') ∧
      parsed.Drawn n n' ∧ next = c.carryOver parsed := by
  refine (r.reads_reconcile? c .root text n).imp fun result m _ h next hnext => ?_
  cases h next hnext with
  | root hrun hm => exact ⟨_, _, hrun, (r.reads_canvas text n).result _ _ hrun, rfl⟩
  | nested hfocus => exact absurd rfl hfocus

/-- A text for another block is read, and identities of that block are carried over to it. -/
theorem reads_nested (hfocus : focus ≠ .root) :
    Reads n (r.reconcile? c focus text) fun result _ => ∀ next, result = some next →
      ∃ old parsed n', c.block? focus = some old ∧ (r.block c focus text).run n = (.ok parsed, n') ∧
        parsed.Everywhere (Block.Drawn n n' ((c.scope focus).map (·.id))) ∧
        next = replaceBlock c focus (old.carryOver parsed) := by
  refine (r.reads_reconcile? c focus text n).imp fun result m _ h next hnext => ?_
  cases h next hnext with
  | root => exact absurd rfl hfocus
  | nested _ hold hrun hm =>
    exact ⟨_, _, _, hold, hrun, (r.reads_block c focus text n).result _ _ hrun, rfl⟩

/-- A canvas that replaces another one is the result of the reading. -/
theorem reconcile?_of_replaced (h : (r.reconcile c focus text n).1 = .replaced next) :
    ((r.reconcile? c focus text).run n).1 = .ok (some next) := by
  unfold reconcile at h
  simp only [bind, StateT.bind] at h
  split at h
  rename_i result n' hrun
  rw [hrun]
  split at h
  · cases h
  · cases h
    rfl
  · cases h

/-- In place of the block of a pointer stands the given block. -/
theorem block?_replaceBlock {old b : Block} (h : c.block? focus = some old)
    (hlinks : b.Everywhere fun d => ∀ t ∈ d.tables, ∀ id, t.cte = some id →
      id ∈ (c.scope focus).map (·.id)) :
    (replaceBlock c focus b).block? focus = some b := by
  have hupdate : (c.updateBlock focus fun _ => b).block? focus = some b := by
    rw [Canvas.block?_updateBlock, h, Option.map_some]
  unfold replaceBlock
  dsimp only
  split
  · rename_i id
    refine Canvas.block?_refreshCteColumns hupdate (hlinks.imp fun d hd t ht hlink => ?_)
    -- A named query is not in its own scope.
    obtain ⟨q, hq, hid⟩ := List.mem_map.1 (hd t ht id hlink)
    have hother := List.mem_takeWhile_imp (p := fun q : Cte => decide (q.id ≠ id)) hq
    exact of_decide_eq_true hother hid
  · exact hupdate

/-! ## What it says -/

theorem run_map_ok {α β : Type} {m : Reading α} {a : α} {n' : Nat} (f : α → β)
    (h : m.run n = (.ok a, n')) : ((f <$> m).run n).1 = .ok (f a) := by
  rw [Reads.run_map, h]

/-- The block of a pointer says what the text says exactly if the aggregates that went back are in
place in it. -/
theorem nested_says_text_iff (hids : c.Everywhere (Block.Identified n)) (hfocus : focus ≠ .root)
    (h : (r.reconcile c focus text n).1 = .replaced next) :
    (∃ b, next.block? focus = some b ∧
        ((Block.shape <$> r.block c focus text).run n).1 = .ok b.shape) ↔
      ∃ old parsed, c.block? focus = some old ∧
        ((r.block c focus text).run n).1 = .ok parsed ∧ old.Kept parsed := by
  have hnext := reconcile?_of_replaced h
  obtain ⟨old, parsed, n', hold, hrun, hdrawn, rfl⟩ :=
    (reads_nested hfocus).result _ _ (Prod.ext hnext rfl) next rfl
  have hblock := block?_replaceBlock hold (Block.links_carryOver parsed old hdrawn)
  have hiff := Block.shape_carryOver_iff_kept parsed old hdrawn (hids.block? hold)
  rw [hblock, run_map_ok Block.shape hrun, hrun]
  constructor
  · rintro ⟨_, ⟨⟩, hsame⟩
    exact ⟨old, parsed, hold, rfl, hiff.1 (Except.ok.inj hsame).symm⟩
  · rintro ⟨old', _, hold', ⟨⟩, hkept⟩
    cases hold.symm.trans hold'
    exact ⟨_, rfl, by rw [hiff.2 hkept]⟩

/-- A canvas that took over a text says in the edited part what the text says exactly if the
aggregates that go back around columns are in place there. -/
theorem replaced_says_text_iff (hids : c.Everywhere (Block.Identified n))
    (h : (r.reconcile c focus text n).1 = .replaced next) :
    r.SaysText c focus text n next ↔ r.KeepsText c focus text n := by
  cases focus with
  | root =>
    have hnext := reconcile?_of_replaced h
    obtain ⟨parsed, n', hrun, hdrawn, rfl⟩ := reads_root.result _ _ (Prod.ext hnext rfl) next rfl
    have hiff := Canvas.shape_carryOver_iff_kept hdrawn hids
    unfold SaysText KeepsText shape
    rw [run_map_ok Canvas.shape hrun, hrun]
    constructor
    · intro hsame
      exact ⟨parsed, rfl, hiff.1 (Except.ok.inj hsame).symm⟩
    · rintro ⟨_, ⟨⟩, hkept⟩
      rw [hiff.2 hkept]
  | cte id => exact nested_says_text_iff hids nofun h
  | subquery id => exact nested_says_text_iff hids nofun h

/-! ## A table with a sum -/

/-- One table whose only chosen column has a sum around it. -/
def summed : Canvas :=
  let sums : NameMap ColumnAggregate := NameMap.empty.insert "c" ⟨.sum, none⟩
  { ctes := []
    root := { Block.empty with
      tables := [{
        id := EntityId.minted 0, name := "t", position := default, columns := ["c", "d"]
        selected := ["c"], aggregates := sums, cte := none }] } }

/-- A reader that knows no tables. -/
def unknowing : Reader := ⟨.generic, .empty⟩

/-- Whether a canvas says what a text for its root says, after it took over that text; none if it
did not take it over. -/
def tried (c : Canvas) (text : String) (n : Nat) : Option Bool :=
  match (unknowing.reconcile c .root text n).1 with
  | .replaced next => some (((unknowing.shape text).run n).1 = .ok next.shape)
  | _ => none

theorem replaced_of_tried {agrees : Bool} (h : tried c text n = some agrees) :
    ∃ next, (unknowing.reconcile c .root text n).1 = .replaced next ∧
      (unknowing.SaysText c .root text n next ↔ agrees = true) := by
  unfold tried at h
  split at h
  · rename_i next hnext
    refine ⟨next, hnext, ?_⟩
    rw [← Option.some.inj h, decide_eq_true_iff]
    exact Iff.rfl
  · cases h

/-- Where the column is also chosen by itself, the canvas takes the sum over and loses the
column. -/
theorem column_lost_beside_sum :
    ∃ next, (unknowing.reconcile summed .root "SELECT t.c, SUM(t.c) FROM t" 1).1 = .replaced next ∧
      ¬unknowing.SaysText summed .root "SELECT t.c, SUM(t.c) FROM t" 1 next := by
  have htried : tried summed "SELECT t.c, SUM(t.c) FROM t" 1 = some false := by decide +kernel
  obtain ⟨next, hnext, hagree⟩ := replaced_of_tried htried
  exact ⟨next, hnext, fun h => Bool.false_ne_true (hagree.1 h)⟩

theorem identified_summed : summed.Everywhere (Block.Identified 1) := by
  refine Canvas.everywhere_iff_blocks.2 fun b hb => ?_
  rw [List.mem_singleton.1 hb]
  refine ⟨by decide, by decide, fun id hid k hk heq => ?_⟩
  rw [List.mem_singleton.1 hid] at heq
  exact absurd (EntityId.minted_injective heq) (by omega)

/-- A limit is added to the sum. -/
theorem replaced_says_text_limited_sum :
    summed.Everywhere (Block.Identified 1) ∧ ∃ next,
      (unknowing.reconcile summed .root "SELECT SUM(t.c) FROM t LIMIT 1" 1).1 = .replaced next ∧
      unknowing.SaysText summed .root "SELECT SUM(t.c) FROM t LIMIT 1" 1 next ∧
      unknowing.KeepsText summed .root "SELECT SUM(t.c) FROM t LIMIT 1" 1 := by
  have htried : tried summed "SELECT SUM(t.c) FROM t LIMIT 1" 1 = some true := by
    decide +kernel
  obtain ⟨next, hnext, hagree⟩ := replaced_of_tried htried
  have hagree := hagree.2 rfl
  exact ⟨identified_summed, next, hnext, hagree,
    (replaced_says_text_iff identified_summed hnext).1 hagree⟩

end Reader

end QueryCanvas
