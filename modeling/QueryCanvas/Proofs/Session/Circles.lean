import QueryCanvas.Proofs.CarryOver.Links
import QueryCanvas.Proofs.Session.Identifiers
import QueryCanvas.Proofs.Session.Turns

/-!
# Named queries that come to read themselves

A named query is kept from reading itself only where its own block is being edited.  Below that
block, or through another named query, it can come to read itself by two requests: a table that
reads a named query is put there, or a text is typed there that reads one.  Here it is said exactly
which of these requests close a circle.
-/

set_option autoImplicit false

namespace QueryCanvas

open Sql

namespace Reader

variable {r : Reader} {n m : Nat} {c next : Canvas} {focus : Focus} {text : String}

/-- A text that is taken over for a block of a named query closes a circle exactly if something that
the block then reads leads to that named query; one that is taken over for the root closes none. -/
theorem Takes.acyclic_iff (h : r.Takes c text n m focus next) (hnumbered : c.Numbered n)
    (hacyclic : c.Acyclic) :
    next.Acyclic ↔ ¬∃ b p q, next.block? focus = some b ∧ c.owner? focus = some p ∧
      (∃ d ∈ b.blocks, ∃ t ∈ d.tables, t.cte = some q) ∧ Relation.ReflTransGen c.Reads q p := by
  have hids := (h.numbered hnumbered).cteIds.nodup
  cases h with
  | @root parsed n' hrun hm =>
    refine iff_of_true ?_ ?_
    · exact Canvas.acyclic_carryOver ((r.reads_reached text n).result _ _ hrun) hids
    · rintro ⟨_, _, _, -, howner, -⟩
      cases howner
  | @nested _ old parsed n' hfocus hold hrun hm =>
    have hdrawn := (r.reads_block c focus text n).result _ _ hrun
    have hblock := block?_replaceBlock hold (Block.links_carryOver parsed old hdrawn)
    have hrefresh : (replaceBlock c focus (old.carryOver parsed)).Acyclic ↔
        (c.updateBlock focus fun _ => old.carryOver parsed).Acyclic :=
      replaceBlock_induction
        (P := fun d => d.Acyclic ↔ (c.updateBlock focus fun _ => old.carryOver parsed).Acyclic)
        Iff.rfl fun id hd => (Canvas.acyclic_refreshCteColumns_iff id).trans hd
    rw [hrefresh, Canvas.acyclic_updateBlock_const_iff hacyclic hold, hblock]
    refine not_congr ⟨?_, ?_⟩
    · rintro ⟨p, q, howner, hreads, hback⟩
      exact ⟨_, p, q, rfl, howner, hreads, hback⟩
    · rintro ⟨_, p, q, ⟨⟩, howner, hreads, hback⟩
      exact ⟨p, q, howner, hreads, hback⟩

end Reader

namespace Session

variable {s : Session} {n m : Nat} {request : Request} {c : Canvas}

/-! ## Requests -/

/-- A named query comes to read what leads back to it: a table that reads a named query is put into
a block of its body, or a text is taken over there that reads one. -/
def ClosesCircle (s : Session) (n : Nat) : Request → Prop
  | .reference cte _ => s.canvas.canReference s.focus cte = true ∧
    ∃ p, s.canvas.owner? s.focus = some p ∧ Relation.ReflTransGen s.canvas.Reads cte p
  | .type text => ∃ next, s.taken? n (.type text) = some next ∧
    ∃ b p q, next.block? s.focus = some b ∧ s.canvas.owner? s.focus = some p ∧
      (∃ d ∈ b.blocks, ∃ t ∈ d.tables, t.cte = some q) ∧ Relation.ReflTransGen s.canvas.Reads q p
  | _ => False

/-- An edit of the block that is being edited makes no links. -/
theorem linked_editActive {R : Option EntityId → EntityId → Prop}
    (h : s.canvas.Linked fun place id _ => R place id) (new : EntityId) (edit : BlockEdit) :
    (s.editActive new edit).Linked fun place id _ => R place id := by
  have hedited := h.inBlock s.focus new edit
  exact editActive_induction (P := fun c => c.Linked fun place id _ => R place id) new edit hedited
    fun _ hc => hc.refreshCteColumns _ fun _ _ _ hR => hR

/-- A request closes a circle exactly if it makes a named query read what leads back to it. -/
theorem Redraws.acyclic_iff (h : s.Redraws n m request c) (hnumbered : s.canvas.Numbered n)
    (hacyclic : s.canvas.Acyclic) : c.Acyclic ↔ ¬s.ClosesCircle n request := by
  have hreads := s.canvas.linked_reads
  cases h with
  | kept hdrawing hedit htaken =>
    refine iff_of_true hacyclic ?_
    cases request with
    | reference cte position => cases hdrawing
    | type text =>
      rintro ⟨next, hnext, -⟩
      cases htaken.symm.trans hnext
    | _ => exact id
  | edited _ hblock => exact iff_of_true (hacyclic.of_linked (linked_editActive hreads _ _)) id
  | drawn _ hedit =>
    cases request with
    | reference cte position =>
      cases hedit
      exact Canvas.acyclic_addCteReference_iff hacyclic s.focus cte _ position
    | addCte name frame =>
      cases hedit
      exact iff_of_true (hacyclic.of_linked (hreads.addCte _ name frame)) id
    | renameCte id name =>
      cases hedit
      exact iff_of_true (hacyclic.of_linked (hreads.renameCte id name)) fun h => h
    | removeCte id =>
      cases hedit
      exact iff_of_true (hacyclic.of_linked (hreads.removeCte id)) fun h => h
    | removeSubquery id =>
      cases hedit
      exact iff_of_true (hacyclic.of_linked (hreads.removeSubquery id)) fun h => h
    | _ => cases hedit
  | taken htaken htakes =>
    rw [htakes.acyclic_iff hnumbered hacyclic]
    refine not_congr ⟨fun hcloses => ⟨_, htaken, hcloses⟩, ?_⟩
    rintro ⟨next, hnext, hcloses⟩
    cases htaken.symm.trans hnext
    exact hcloses

/-! ## Whole sessions -/

theorem acyclic_start (settings : Settings) (catalog : Catalog) :
    (start settings catalog).canvas.Acyclic := by
  have hnone : ∀ p q, ¬(start settings catalog).canvas.Reads p q := by
    rintro p q ⟨a, ha, -⟩
    exact absurd ha List.not_mem_nil
  intro p hcircle
  obtain ⟨q, hstep, -⟩ := Relation.TransGen.head'_iff.1 hcircle
  exact hnone p q hstep

/-- Whatever was asked of a session since its start, short of putting another canvas in place: at no
time a named query reads itself, through as many others as may be, exactly if no request put a table
into the body of a named query, nor had a text taken over there, that reads what leads back to that
named query. -/
theorem acyclic_iff_no_circle_closed (settings : Settings) (catalog : Catalog)
    (requests : List Request) (hkeeps : ∀ r ∈ requests, r.KeepsCanvas) (n : Nat) :
    (∀ before, before <+: requests →
        ((start settings catalog).runAll before n).1.canvas.Acyclic) ↔
      ∀ before request, before ++ [request] <+: requests →
        ¬((start settings catalog).runAll before n).1.ClosesCircle
          ((start settings catalog).runAll before n).2 request := by
  refine always_iff (P := Canvas.Acyclic) (D := fun s n r => ¬s.ClosesCircle n r) hkeeps ?_
    (acyclic_start settings catalog)
  intro before request m c hbefore hredraws hacyclic
  exact hredraws.acyclic_iff (numbered_runAll settings catalog hbefore n) hacyclic

/-- A named query is added, a nested query is drawn in its body, and there a table that reads the
named query. -/
def readInside : List Request :=
  [.addCte "a" default, .setFocus (.cte (EntityId.minted 0)),
   .edit (.addSubquery .fromClause none default), .setFocus (.subquery (EntityId.minted 1)),
   .reference (EntityId.minted 0) default]

theorem keepsCanvas_readInside : ∀ r ∈ readInside, r.KeepsCanvas := by
  simp [readInside, Request.KeepsCanvas]

/-- The named query reads itself. -/
theorem cte_reads_itself : (∀ r ∈ readInside, r.KeepsCanvas) ∧
    ∃ a ∈ ((start default .empty).runAll readInside 0).1.canvas.ctes,
      ∃ b ∈ a.block.blocks, ∃ t ∈ b.tables, t.cte = some a.id := by
  refine ⟨keepsCanvas_readInside, ?_⟩
  decide +kernel

/-- The last request of this session closes a circle. -/
theorem acyclic_iff_readInside : (∀ r ∈ readInside, r.KeepsCanvas) ∧
    ((∀ before, before <+: readInside →
        ((start default .empty).runAll before 0).1.canvas.Acyclic) ↔
      ∀ before request, before ++ [request] <+: readInside →
        ¬((start default .empty).runAll before 0).1.ClosesCircle
          ((start default .empty).runAll before 0).2 request) :=
  ⟨keepsCanvas_readInside,
    acyclic_iff_no_circle_closed default .empty readInside keepsCanvas_readInside 0⟩

end Session

end QueryCanvas
