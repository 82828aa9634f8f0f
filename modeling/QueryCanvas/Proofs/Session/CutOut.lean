import QueryCanvas.Proofs.Canvas.CutOut
import QueryCanvas.Proofs.Session.Pointer

/-!
# Nested queries removed in a session

A request to remove a nested query takes it from the block that owns it, wherever that stands, and
the pointer goes back to the root if it led to the removed one or below it.  Of filters only those
of the owning block let go of it: a filter of another block that compares with it, which only a
canvas that was put in place can have, keeps its operand.
-/

set_option autoImplicit false

namespace QueryCanvas

/-- The pointer leads to the nested query or to one below it. -/
def Focus.isIn (sub : Subquery) : Focus → Bool
  | .subquery id => (Block.nodeIds sub.node).contains id
  | _ => false

namespace Canvas

variable {c c' : Canvas} {sub : Subquery} {focus : Focus}

theorem Hole.cteIds_fill (hole : Hole) (b b' : Block) :
    (hole.fill b).cteIds = (hole.fill b').cteIds := by
  cases hole with
  | inRoot ctes hole => rfl
  | inCte root before q hole after => simp [fill, cteIds]

theorem isSome_cte? {id : EntityId} : (c.cte? id).isSome ↔ id ∈ c.cteIds := by
  rw [cte?, List.find?_isSome]
  simp [cteIds]

/-- A pointer that led to a block leads to one without the nested query exactly if it did not lead
into that. -/
theorem CutOut.isSome_block? (h : CutOut sub c c') (hfocus : (c.block? focus).isSome) :
    (c'.block? focus).isSome ↔ ¬focus.isIn sub := by
  cases focus with
  | root => exact iff_of_true rfl Bool.false_ne_true
  | cte id =>
    obtain ⟨hole, owner, before, after, rfl, -, rfl⟩ := h.place
    refine iff_of_true ?_ Bool.false_ne_true
    rw [block?, Option.isSome_map, isSome_cte?] at hfocus ⊢
    rwa [hole.cteIds_fill _ owner]
  | subquery id =>
    rw [block?, isSome_nested?] at hfocus ⊢
    rw [h.gone, and_iff_right hfocus, Focus.isIn, List.contains_iff_mem]

end Canvas

namespace Session

variable {s : Session} {n : Nat} {id : EntityId}

/-- What a request to remove a nested query leaves and answers. -/
theorem run_removeSubquery (s : Session) (n : Nat) (id : EntityId) :
    (s.run (.removeSubquery id) n).1.2.1 =
        .edited (.flag (s.canvas.removeSubquery? id).isSome) ∧
      (s.run (.removeSubquery id) n).1.1.canvas = (s.canvas.removeSubquery? id).getD s.canvas ∧
      (s.run (.removeSubquery id) n).1.1.focus =
        ({ s with canvas := (s.canvas.removeSubquery? id).getD s.canvas }).landing := by
  have hturns := (s.yields_turns n (.removeSubquery id)).result
  revert hturns
  generalize s.run (.removeSubquery id) n = p
  intro hturns
  obtain ⟨⟨s', reply, events⟩, m⟩ := p
  cases hturns with
  | changed hchanges =>
    cases hchanges with
    | drawn hm hedit hsettled =>
      cases hedit
      obtain ⟨editor, rfl⟩ := hsettled
      exact ⟨rfl, rfl, rfl⟩

/-- A nested query is removed in a session, in which the nested queries have different identifiers.
The answer says whether some block owns it.  If none does, the canvas and the pointer stay.
Otherwise it is cut out of the canvas, and the pointer goes back to the root exactly if it led to it
or below it. -/
theorem removeSubquery_cuts_out (settings : Settings) (catalog : Catalog)
    (requests : List Request) (n : Nat) (id : EntityId) :
    let s := ((start settings catalog).runAll requests n).1
    let m := ((start settings catalog).runAll requests n).2
    let answered := (s.run (.removeSubquery id) m).1
    s.canvas.nestedIds.Nodup →
      answered.2.1 = .edited (.flag (decide (id ∈ s.canvas.nestedIds))) ∧
      (id ∉ s.canvas.nestedIds →
        answered.1.canvas = s.canvas ∧ answered.1.focus = s.focus) ∧
      (id ∈ s.canvas.nestedIds → ∃ sub, sub.id = id ∧
        s.canvas.CutOut sub answered.1.canvas ∧
        answered.1.focus = if s.focus.isIn sub then .root else s.focus) := by
  intro s m answered hids
  have hs : s.Points := points_runAll settings catalog requests n
  obtain ⟨hreply, hcanvas, hfocus⟩ := run_removeSubquery s m id
  by_cases hmem : id ∈ s.canvas.nestedIds
  · obtain ⟨sub, c', hid, hremoved, hcut⟩ := Canvas.cutOut_removeSubquery hids hmem
    rw [hremoved, Option.getD_some] at hcanvas hfocus
    refine ⟨?_, fun hnot => absurd hmem hnot, fun _ => ⟨sub, hid, ?_, ?_⟩⟩
    · rw [hreply, hremoved, decide_eq_true hmem]
      rfl
    · exact hcanvas ▸ hcut
    · have hleft := hcut.isSome_block? hs
      refine hfocus.trans ?_
      unfold landing
      by_cases hin : s.focus.isIn sub
      · rw [if_pos hin]
        exact if_neg fun h => hleft.1 h hin
      · rw [if_neg hin]
        exact if_pos (hleft.2 hin)
  · have hremoved := Canvas.removeSubquery?_eq_none hmem
    rw [hremoved, Option.getD_none] at hcanvas hfocus
    refine ⟨?_, fun _ => ⟨hcanvas, hfocus.trans (if_pos hs)⟩, fun h => absurd h hmem⟩
    rw [hreply, hremoved, decide_eq_false hmem]
    rfl

/-- A filter that compares with a nested query, in which another one stands. -/
def nestedTwice : Canvas :=
  let inner : Subquery :=
    { id := ⟨"inner"⟩, role := .fromClause, aliasName := some "i", linkedFilter := none
      frame := default, block := Block.empty }
  let outer : Subquery :=
    { id := ⟨"outer"⟩, role := .whereClause, aliasName := none, linkedFilter := some ⟨"among"⟩
      frame := default, block := { Block.empty with subqueries := [inner] } }
  { ctes := []
    root := { Block.empty with
      filters := [{ id := ⟨"among"⟩, column := "t.x", operator := .isIn
                    operand := .subquery ⟨"outer"⟩, connector := .and }]
      subqueries := [outer] } }

/-- A session in which the inner one is being edited. -/
def editingInner : Session :=
  ((start default .empty).runAll [.load nestedTwice, .setFocus (.subquery ⟨"inner"⟩)] 0).1

/-- With the outer one goes the inner one, so that the root is edited from then on. -/
theorem removeSubquery_cuts_out_inner :
    let removed := (editingInner.run (.removeSubquery ⟨"outer"⟩) 0).1
    editingInner.canvas.nestedIds.Nodup ∧ editingInner.focus = .subquery ⟨"inner"⟩ ∧
      removed.2.1 = .edited (.flag true) ∧ removed.1.focus = .root ∧
      ∃ sub, sub.id = ⟨"outer"⟩ ∧ editingInner.canvas.CutOut sub removed.1.canvas := by
  intro removed
  have hids : editingInner.canvas.nestedIds.Nodup := by decide +kernel
  obtain ⟨hreply, -, hcut⟩ := removeSubquery_cuts_out default .empty
    [.load nestedTwice, .setFocus (.subquery ⟨"inner"⟩)] 0 ⟨"outer"⟩ hids
  obtain ⟨sub, hid, hcut, -⟩ := hcut (by decide +kernel)
  obtain ⟨-, -, hfocus⟩ := run_removeSubquery editingInner 0 ⟨"outer"⟩
  exact ⟨hids, by decide +kernel, hreply, hfocus.trans (by decide +kernel), sub, hid, hcut⟩

/-- A canvas on which a filter of the root compares with a nested query of a named query. -/
def strayLink : Canvas :=
  let chosen : Subquery :=
    { id := ⟨"some"⟩, role := .whereClause, aliasName := none, linkedFilter := none
      frame := default, block := Block.empty }
  { ctes := [{ id := ⟨"recent"⟩, name := "recent", frame := default
               block := { Block.empty with subqueries := [chosen] } }]
    root := { Block.empty with
      filters := [{ id := ⟨"among"⟩, column := "t.x", operator := .isIn
                    operand := .subquery ⟨"some"⟩, connector := .and }] } }

/-- The filter of the root still compares with the nested query when this is gone. -/
theorem link_left_in_other_block :
    let s := ((start default .empty).runAll [.load strayLink] 0).1
    let removed := (s.run (.removeSubquery ⟨"some"⟩) 0).1
    s.canvas.nestedIds.Nodup ∧ removed.2.1 = .edited (.flag true) ∧
      removed.1.canvas.nestedIds = [] ∧
      ∃ b ∈ removed.1.canvas.blocks, ∃ f ∈ b.filters, f.operand = .subquery ⟨"some"⟩ := by
  intro s removed
  obtain ⟨hreply, hcanvas, -⟩ := run_removeSubquery s 0 ⟨"some"⟩
  have hsome : (s.canvas.removeSubquery? ⟨"some"⟩).isSome = true := by decide +kernel
  refine ⟨by decide +kernel, hreply.trans (by rw [hsome]), ?_, ?_⟩
  · rw [hcanvas]
    decide +kernel
  · rw [hcanvas]
    decide +kernel

end Session

end QueryCanvas
