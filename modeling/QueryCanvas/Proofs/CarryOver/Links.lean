import QueryCanvas.Proofs.Canvas.Circles
import QueryCanvas.Proofs.Reading.WellFormed
import QueryCanvas.Proofs.Reconcile.Replaced

/-!
# Links of a canvas that takes over identities

A named query that is read can only read from those before it.  Where the named queries take over
identifiers, the links follow, so on a whole canvas that takes over a text no named query leads back
to itself, whatever the canvas was before.
-/

set_option autoImplicit false

namespace QueryCanvas

namespace Canvas

variable {n n' : Nat} {old c : Canvas} {catalog : Catalog}

/-- Tables in a named query that takes over are linked to named queries before it. -/
theorem linked_carriedCte (h : Sql.CanvasReached catalog n n' c) {before after : List Cte} {q : Cte}
    (hsplit : c.ctes = before ++ q :: after) :
    (carriedCte old c q).block.Everywhere
      (Block.Linked fun id _ => id ∈ (before.map (carriedCte old c)).map (·.id)) := by
  have hids := h.drawn.cteIds.nodup
  have hbefore : before ⊆ c.ctes := by
    rw [hsplit]
    exact List.subset_append_left _ _
  obtain ⟨m, hctes, -⟩ := h
  obtain ⟨_, _, hblock⟩ := hctes.block hsplit
  have hlinks : (carryCte old q).block.Everywhere
      (Block.Linked fun id _ => id ∈ before.map (·.id)) := by
    unfold carryCte
    split
    · exact hblock.drawn.imp fun _ hb => hb.links
    · exact Block.links_carryOver _ _ hblock.drawn
  have hrelinked : ∀ b : Block, b.Linked (fun id _ => id ∈ before.map (·.id)) →
      (b.relinked (cteRenaming old c.ctes)).Linked
        fun id _ => id ∈ (before.map (carriedCte old c)).map (·.id) := by
    intro b hb t ht id hlink
    obtain ⟨u, hu, rfl⟩ := List.mem_map.1 ht
    obtain ⟨link, hread, rfl⟩ := Option.map_eq_some_iff.1 hlink
    obtain ⟨r, hr, rfl⟩ := List.mem_map.1 (hb u hu link hread)
    rw [cteRenaming_apply old hids (hbefore hr)]
    show (carriedCte old c r).id ∈ _
    exact List.mem_map_of_mem (List.mem_map_of_mem hr)
  exact Block.Everywhere.mapBlocks Block.shallow_linked hrelinked (fun _ _ hs => hs) _ hlinks

/-- On a whole canvas that takes over there is no circle. -/
theorem acyclic_carryOver (h : Sql.CanvasReached catalog n n' c)
    (hids : (old.carryOver c).cteIds.Nodup) : (old.carryOver c).Acyclic := by
  refine acyclic_of_order hids fun front a back hsplit => ?_
  rw [ctes_carryOver] at hsplit
  obtain ⟨before, rest, hctes, rfl, hrest⟩ := List.map_eq_append_iff.1 hsplit
  obtain ⟨q, after, rfl, rfl, -⟩ := List.map_eq_cons_iff.1 hrest
  exact linked_carriedCte h hctes

end Canvas

end QueryCanvas
