import QueryCanvas.Proofs.CarryOver.Anchored
import QueryCanvas.Proofs.Session.Changes

/-!
# References stay intact in the course of a session

Whatever is asked of a session, short of putting another canvas in place, leaves the canvas
anchored: the edits do, a text that is taken over does, and nothing else changes the canvas.  From
the empty canvas on, every join therefore ties two tables of its block and every link leads to a
named query.
-/

set_option autoImplicit false

namespace QueryCanvas

open Sql

namespace Reader

variable {r : Reader} {n m : Nat} {c next : Canvas} {focus : Focus} {text : String}

theorem replaceBlock_anchored (focus : Focus) {b : Block} {n' : Nat} (h : c.Anchored n)
    (hn : n ≤ n') (hb : b.Everywhere (Block.Anchored 0 n' c.cteIds)) :
    (replaceBlock c focus b).Anchored n' := by
  have hupdated := h.updateBlock hn (fun _ _ => hb) focus
  exact replaceBlock_induction (P := fun d => d.Anchored n') hupdated fun id hd =>
    hd.refreshCteColumns id

/-- A canvas that takes over a text is anchored. -/
theorem Takes.anchored (h : r.Takes c text n m focus next) (hc : c.Anchored n) :
    next.Anchored m := by
  cases h with
  | @root parsed n' hrun hm =>
    have hread := r.reads_canvas text n
    exact ((hread.result _ _ hrun).carryOver hc (hread.counter_le hrun)).mono hm
  | @nested _ old parsed n' hfocus hold hrun hm =>
    have hread := r.reads_block c focus text n
    have hn := hread.counter_le hrun
    have hscope : (c.scope focus).map (·.id) ⊆ c.cteIds := List.map_subset _ (scope_subset c focus)
    refine replaceBlock_anchored focus hc (Nat.le_trans hn hm) ?_
    refine Block.everywhere_carryOver (fun b hb => ?_) (fun b old hb hold => ?_) parsed old
      (hread.result _ _ hrun) (hc.block? hold)
    · exact hb.toAnchored.mono (Nat.zero_le n) hm hscope
    · exact (hb.carryOver hold hn).mono (Nat.le_refl 0) hm hscope

end Reader

/-- In every block both ends of each join are identifiers of two different tables of that block, and
each table that is linked to a named query is linked to one of the canvas. -/
def Canvas.ReferencesIntact (c : Canvas) : Prop :=
  ∀ b ∈ c.blocks,
    (∀ j ∈ b.joins, ∃ source ∈ b.tables, ∃ target ∈ b.tables,
      source.id = j.sourceTable ∧ target.id = j.targetTable ∧ source.id ≠ target.id) ∧
    ∀ t ∈ b.tables, ∀ id, t.cte = some id → ∃ q ∈ c.ctes, q.id = id

namespace Session

/-- A request leaves the canvas anchored. -/
theorem Leaves.anchored {s : Session} {n m : Nat} {request : Request} {c : Canvas}
    (h : s.Leaves n m request c) (hm : n ≤ m) (hs : s.canvas.Anchored n) : c.Anchored m := by
  cases h with
  | kept _ => exact hs.mono hm
  | edited _ hm edit => exact (hs.edit edit).mono hm
  | refreshed _ hm edit cte => exact ((hs.edit edit).refreshCteColumns cte).mono hm
  | taken _ htakes => exact htakes.anchored hs

/-- Whatever was asked of a session since its start, short of putting another canvas in place: in
every block of the canvas each join ties two different tables of that block, and each table that is
linked to a named query is linked to one that is there. -/
theorem references_intact (settings : Settings) (catalog : Catalog) (requests : List Request)
    (hkeeps : ∀ r ∈ requests, r.KeepsCanvas) (n : Nat) :
    ((start settings catalog).runAll requests n).1.canvas.ReferencesIntact := by
  intro b hb
  have hrun := yields_runAll Leaves.anchored requests hkeeps (start settings catalog) n
    Canvas.anchored_empty
  have hblock := Canvas.everywhere_iff_blocks.1 hrun.result b hb
  refine ⟨fun j hj => hblock.tables_of_join hj, fun t ht id hid => ?_⟩
  exact List.mem_map.1 (hblock.links t ht id hid)

/-- Two tables are drawn and joined, a named query is added, and a text is typed that reads it. -/
theorem references_intact_typed_join :
    let requests : List Request :=
      [.edit (.addTable "users" ["id"] default), .edit (.addTable "orders" ["user_id"] default),
       .edit (.addJoin (EntityId.minted 0) "id" (EntityId.minted 1) "user_id" .inner),
       .addCte "recent" default,
       .type "WITH recent AS (SELECT o.id FROM orders o) SELECT r.id FROM recent r"]
    (∀ r ∈ requests, r.KeepsCanvas) ∧
      ((start default .empty).runAll requests 0).1.canvas.ReferencesIntact := by
  intro requests
  have hkeeps : ∀ r ∈ requests, r.KeepsCanvas := by simp [requests, Request.KeepsCanvas]
  exact ⟨hkeeps, references_intact default .empty requests hkeeps 0⟩

end Session

end QueryCanvas
