import QueryCanvas.Proofs.Reading.Refused
import QueryCanvas.Proofs.Reconcile.Replaced
import QueryCanvas.Proofs.Session.Turns

/-!
# The pointer of a session

The pointer of a session leads to a block at all times, whatever is asked of the session and
whichever canvas is put in place.  An edit of the canvas may take the block away; the pointer then
goes back to the root.  A text that is taken over puts another block where the pointer leads.
-/

set_option autoImplicit false

namespace QueryCanvas

open Sql

namespace Reader

variable {r : Reader} {n m : Nat} {c next : Canvas} {focus : Focus} {text : String}

/-- Why a text cannot be read for the block of a pointer. -/
def FaultOf (r : Reader) (c : Canvas) (text : String) (n : Nat) (reason : ReadFault) :
    Focus → Prop
  | .root => ((r.canvas text).run n).1 = .error reason
  | focus => ((r.block c focus text).run n).1 = .error reason

theorem FaultOf.ne_goneBlock {reason : ReadFault} (h : r.FaultOf c text n reason focus) :
    reason ≠ .unsupported goneBlock := by
  rintro rfl
  cases focus with
  | root => exact readText_ne_goneBlock _ _ _ _ h
  | cte id => exact readNestedText_ne_goneBlock _ _ _ _ h
  | subquery id => exact readNestedText_ne_goneBlock _ _ _ _ h

/-- A reading that fails before a step that cannot fail. -/
theorem error_of_bind_lift {α β γ : Type} {m : Reading α} {f : α → Fresh β} {g : α → β → γ}
    {reason : ReadFault}
    (h : ((m >>= fun a => (f a : Reading β) >>= fun b => pure (g a b)).run n).1 = .error reason) :
    (m.run n).1 = .error reason := by
  rw [Reads.run_bind] at h
  split at h
  · cases h
  · rename_i hrun
    cases h
    rw [hrun]

/-- Where the pointer leads to a block, a text is refused only for what is wrong with the text. -/
theorem faultOf_of_refused {reason : ReadFault} (hblock : (c.block? focus).isSome)
    (h : (r.reconcile c focus text n).1 = .refused reason) : r.FaultOf c text n reason focus := by
  have herror : ((r.reconcile? c focus text).run n).1 = .error reason := by
    unfold reconcile at h
    simp only [bind, StateT.bind] at h
    split at h
    rename_i result n' hrun
    rw [hrun]
    split at h <;> cases h
    rfl
  obtain ⟨old, hold⟩ := Option.isSome_iff_exists.1 hblock
  cases focus with
  | root => exact error_of_bind_lift herror
  | cte id =>
    simp only [reconcile?, hold] at herror
    exact error_of_bind_lift herror
  | subquery id =>
    simp only [reconcile?, hold] at herror
    exact error_of_bind_lift herror

/-- After a text was taken over, the pointer leads to the block that was read. -/
theorem Takes.block?_isSome (h : r.Takes c text n m focus next) :
    (next.block? focus).isSome := by
  cases h with
  | root => rfl
  | @nested _ old parsed n' hfocus hold hrun hm =>
    have hdrawn := (r.reads_block c focus text n).result _ _ hrun
    rw [block?_replaceBlock hold (Block.links_carryOver parsed old hdrawn)]
    rfl

end Reader

namespace Session

variable {s s' : Session} {n m : Nat} {request : Request} {reply : Reply} {events : List Event}

/-- The pointer leads to a block. -/
def Points (s : Session) : Prop := (s.canvas.block? s.focus).isSome

/-! ## Requests -/

/-- A pointer that leads nowhere after an edit goes back to the root. -/
theorem Settled.points (h : s.Settled s') : s'.Points := by
  obtain ⟨editor, rfl⟩ := h
  show (s.canvas.block? s.landing).isSome
  unfold landing
  split
  · assumption
  · rfl

theorem points_received {text : String} {what : Reconciliation} (hs : s.Points)
    (htakes : ∀ next, what = .replaced next → s.reader.Takes s.canvas text n m s.focus next) :
    (s.received text what).1.Points := by
  cases what with
  | unchanged => exact hs
  | replaced next => exact (htakes next rfl).block?_isSome
  | refused reason => exact hs

/-- A change leaves a pointer that leads to a block. -/
theorem Changes.points {origin : Origin} (h : s.Changes n m request origin s' reply)
    (hs : s.Points) : s'.Points := by
  cases h with
  | loaded canvas => rfl
  | focused hblock => exact Option.isSome_of_eq_some hblock
  | typed hwhat htakes => exact points_received hs htakes
  | edited hm hblock hsettled => exact hsettled.points
  | drawn hm hedit hsettled => exact hsettled.points

theorem Turns.points (h : s.Turns n m request s' reply events) (hs : s.Points) : s'.Points := by
  cases h with
  | changed hchanges => exact hchanges.points hs
  | _ => exact hs

/-! ## Whole sessions -/

theorem points_runAll (settings : Settings) (catalog : Catalog) (requests : List Request)
    (n : Nat) : ((start settings catalog).runAll requests n).1.Points := by
  have hstart : (start settings catalog).Points := rfl
  have hrun := yields_runAll_turns (I := fun _ s => s.Points) requests
    (fun _ hturns _ hs => hturns.points hs) _ n hstart
  exact hrun.result

/-! ## What depends on the pointer -/

/-- The text that is shown is that of the block of the pointer. -/
theorem activeText_of_block? {b : Block} (h : s.canvas.block? s.focus = some b) :
    s.activeText =
      if s.focus = .root then s.generated else renderBlock s.settings.layout b := by
  unfold activeText textOf
  split
  · rename_i hroot
    rw [if_pos hroot]
  · rename_i hfocus
    rw [if_neg hfocus, h]

/-- A session that is asked for an edit carries it out in the block that the pointer leads to, and
counts it. -/
structure CarriesOut (s : Session) (n : Nat) (b : Block) (edit : BlockEdit) : Prop where
  reply : (s.run (.edit edit) n).1.2.1 = .edited (edit.result (EntityId.minted n) b)
  /-- After the edit the pointer leads to the edited block. -/
  block : (s.canvas.updateBlock s.focus (edit.apply (EntityId.minted n))).block? s.focus =
    some (edit.apply (EntityId.minted n) b)
  /-- The tables that read a named query show the results that it has after the edit. -/
  named : ∀ id, s.focus = .cte id → (s.run (.edit edit) n).1.1.canvas =
    (s.canvas.updateBlock s.focus (edit.apply (EntityId.minted n))).mapBlocks fun d =>
      d.updateLinked id fun t =>
        { t with columns := (edit.apply (EntityId.minted n) b).outputColumns }
  /-- Besides the block that is edited nothing is changed if it is no named query. -/
  other : (∀ id, s.focus ≠ .cte id) → (s.run (.edit edit) n).1.1.canvas =
    s.canvas.updateBlock s.focus (edit.apply (EntityId.minted n))
  revision : (s.run (.edit edit) n).1.1.revision = s.revision + 1

theorem run_edit {b : Block} (h : s.canvas.block? s.focus = some b) (edit : BlockEdit) (n : Nat) :
    (s.run (.edit edit) n).1.2.1 = .edited (edit.result (EntityId.minted n) b) ∧
      (s.run (.edit edit) n).1.1.canvas = s.editActive (EntityId.minted n) edit ∧
      (s.run (.edit edit) n).1.1.revision = s.revision + 1 := by
  have hturns := (s.yields_turns n (.edit edit)).result
  revert hturns
  generalize hrun : s.run (.edit edit) n = p
  intro hturns
  obtain ⟨⟨s', reply, events⟩, m⟩ := p
  cases hturns with
  | ignored hblock => cases hblock.symm.trans h
  | changed hchanges =>
    cases hchanges with
    | edited hm hblock hsettled =>
      cases hblock.symm.trans h
      obtain ⟨editor, rfl⟩ := hsettled
      exact ⟨rfl, rfl, rfl⟩
    | drawn hm hedit => cases hedit

/-- An edit of a block that is there is carried out and counted. -/
theorem carriesOut {b : Block} (h : s.canvas.block? s.focus = some b) (edit : BlockEdit)
    (n : Nat) : s.CarriesOut n b edit := by
  obtain ⟨hreply, hcanvas, hrevision⟩ := run_edit h edit n
  have hblock : (s.canvas.updateBlock s.focus (edit.apply (EntityId.minted n))).block? s.focus =
      some (edit.apply (EntityId.minted n) b) := by
    rw [Canvas.block?_updateBlock, h, Option.map_some]
  refine ⟨hreply, hblock, fun id hfocus => ?_, fun hfocus => ?_, hrevision⟩
  · rw [hfocus] at hblock ⊢
    rw [hcanvas, editActive_cte hfocus]
    exact Canvas.refreshCteColumns_of_block? hblock
  · rw [hcanvas, editActive_of_ne hfocus]
    rfl

/-- A table that reads a named query is refused only if there is no such query, or if it is the one
that is being edited. -/
theorem run_reference (hs : s.Points) (cte : EntityId) (position : Position) (n : Nat) :
    (s.run (.reference cte position) n).1.2.1 =
      .edited (.created
        (if (s.canvas.cte? cte).isSome && s.focus ≠ .cte cte then some (EntityId.minted n)
        else none)) := by
  have hturns := (s.yields_turns n (.reference cte position)).result
  revert hturns
  generalize hrun : s.run (.reference cte position) n = p
  intro hturns
  obtain ⟨⟨s', reply, events⟩, m⟩ := p
  cases hturns with
  | changed hchanges =>
    cases hchanges with
    | drawn hm hedit hsettled =>
      cases hedit
      have hblock : (s.canvas.block? s.focus).isSome = true := hs
      simp only [CanvasEdit.result?, Canvas.canReference, hblock, Bool.and_true, Option.getD_some]

/-- A text is refused only for what is wrong with the text. -/
theorem run_type (hs : s.Points) {text : String} {reason : ReadFault}
    (h : (s.run (.type text) n).1.2.1 = .typed (.refused reason)) :
    s.reader.FaultOf s.canvas text n reason s.focus := by
  have hturns := (s.yields_turns n (.type text)).result
  revert hturns h
  generalize s.run (.type text) n = p
  intro h hturns
  obtain ⟨⟨s', reply, events⟩, m⟩ := p
  cases h
  cases hturns with
  | changed hchanges =>
    generalize htyped : Reply.typed (.refused reason) = reply at hchanges
    cases hchanges with
    | drawn hm hedit => cases hedit
    | @typed _ what hwhat htakes =>
      refine Reader.faultOf_of_refused hs ?_
      rw [← hwhat]
      cases what with
      | refused other =>
        cases htyped
        rfl
      | _ => cases htyped

/-- Whatever was asked of a session since its start, and whichever canvases were put in place, its
pointer leads to a block.  The text that is shown is that of this block, every edit is carried out
in it, a table is put into it unless what it is to read is missing or is the block itself, and a
text for it is refused only for what is wrong with the text, never because the block is gone. -/
theorem pointer_never_stale (settings : Settings) (catalog : Catalog) (requests : List Request)
    (n : Nat) :
    let s := ((start settings catalog).runAll requests n).1
    let m := ((start settings catalog).runAll requests n).2
    ∃ b, s.canvas.block? s.focus = some b ∧
      s.activeText =
        (if s.focus = .root then s.generated else renderBlock s.settings.layout b) ∧
      (∀ edit, s.CarriesOut m b edit) ∧
      (∀ cte position, (s.run (.reference cte position) m).1.2.1 =
        .edited (.created
          (if (s.canvas.cte? cte).isSome && s.focus ≠ .cte cte then some (EntityId.minted m)
          else none))) ∧
      ∀ text reason, (s.run (.type text) m).1.2.1 = .typed (.refused reason) →
        s.reader.FaultOf s.canvas text m reason s.focus ∧
          reason ≠ .unsupported "editing a context that no longer exists" := by
  intro s m
  have hs : s.Points := points_runAll settings catalog requests n
  obtain ⟨b, hb⟩ := Option.isSome_iff_exists.1 hs
  refine ⟨b, hb, activeText_of_block? hb, fun edit => carriesOut hb edit m, ?_, ?_⟩
  · exact fun cte position => run_reference hs cte position m
  · intro text reason hrefused
    have hfault := run_type hs hrefused
    exact ⟨hfault, hfault.ne_goneBlock⟩

end Session

end QueryCanvas
