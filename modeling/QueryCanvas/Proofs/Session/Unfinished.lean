import QueryCanvas.Proofs.Reconcile.Said
import QueryCanvas.Proofs.Session.Identifiers
import QueryCanvas.Proofs.Session.Pointer

/-!
# Unfinished texts and requests that change nothing

A text that cannot be drawn is in force until the next edit of the canvas.  An edit that names
something absent, or that is refused, leaves the canvas as it is, but it counts as an edit all the
same: the text that was being typed gives way to the generated one.  The text stays only at requests
that are not counted as changes.
-/

set_option autoImplicit false

namespace QueryCanvas

open Sql

namespace Reader

variable {r : Reader} {c : Canvas} {focus : Focus} {n : Nat} {text : String} {reason : ReadFault}

/-- A fault of a text is that it says nothing. -/
theorem FaultOf.saidAt (h : r.FaultOf c text n reason focus) :
    r.saidAt c focus n text = .error reason := by
  cases focus with
  | root =>
    have hfault : ((r.canvas text).run n).1 = .error reason := h
    rw [saidAt_root, hfault]
    rfl
  | subquery id | cte id =>
    have hfault : ((r.block c _ text).run n).1 = .error reason := h
    rw [saidAt_nested]
    · rw [hfault]
      rfl
    · exact nofun

end Reader

theorem Canvas.Numbered.namedBefore {c : Canvas} {n : Nat} (h : c.Numbered n) :
    c.NamedBefore n := fun id hid _ hk =>
  (h.cteIds.between id hid).ne (EntityId.between_minted hk)

/-- A request that is not counted as a change: it is about subscribers or about a challenge, or it
moves the pointer to where there is no block. -/
def Request.Idle (c : Canvas) : Request → Prop
  | .subscribe | .unsubscribe _ | .setChallenge _ => True
  | .setFocus focus => c.block? focus = none
  | _ => False

namespace Session

variable {s s' : Session} {n m : Nat} {request : Request} {reason : ReadFault}

/-- What a session is after it settled. -/
theorem settle_eq (s : Session) (n : Nat) :
    (s.settle n).1 =
      { s with
        override := none
        focus := s.landing
        editor :=
          if (s.reader.areEquivalent s.canvas s.landing s.editor (s.textOf s.landing) n).1
            then s.editor else s.textOf s.landing } := by
  unfold settle
  simp only [bind, StateT.bind]
  change (match s.reader.areEquivalent s.canvas s.landing s.editor (s.textOf s.landing) n with
    | (same, m) => (if same = true then _ else _ : Fresh Session) m).1 = _
  generalize s.reader.areEquivalent s.canvas s.landing s.editor (s.textOf s.landing) n = p
  obtain ⟨same, m⟩ := p
  cases same <;> rfl

theorem run_edited {b : Block} (h : s.canvas.block? s.focus = some b) (edit : BlockEdit)
    (n : Nat) : (s.run (.edit edit) n).1.1 =
      ({ s with canvas := s.editActive (EntityId.minted n) edit }.settle (n + 1)).1.count := by
  unfold run
  simp only [bind, StateT.bind, Fresh.mint, h]
  rfl

theorem run_drawn {edit : CanvasEdit} (h : request.drawing? s.focus = some edit) (n : Nat) :
    (s.run request n).1.1 =
      ({ s with canvas := edit.apply (EntityId.minted n) s.canvas }.settle (n + 1)).1.count := by
  have hrun : ∀ edit, (s.editCanvas edit n).1.1 =
      ({ s with canvas := edit.apply (EntityId.minted n) s.canvas }.settle (n + 1)).1.count :=
    fun edit => by
      unfold editCanvas
      rfl
  cases request <;> cases h <;> exact hrun _

theorem run_setFocus_gone {focus : Focus} (h : s.canvas.block? focus = none) (n : Nat) :
    s.run (.setFocus focus) n = ((s, .edited (.flag false), []), n) := by
  simp only [run, h]
  rfl

theorem run_setFocus {focus : Focus} {b : Block} (h : s.canvas.block? focus = some b) (n : Nat) :
    (s.run (.setFocus focus) n).1.1 = { s with focus := focus }.showActive.count ∧
      (s.run (.setFocus focus) n).2 = n := by
  simp only [run, h]
  exact ⟨rfl, rfl⟩

/-- The text in the editor is in force because it cannot be read for the block of the pointer.  The
pointer leads to a block, and `n` is a number from which on no named query gets its identifier. -/
structure Unfinished (s : Session) (n : Nat) (reason : ReadFault) : Prop where
  points : s.Points
  named : s.canvas.NamedBefore n
  override : s.override = some reason
  fault : s.reader.saidAt s.canvas s.focus n s.editor = .error reason

theorem Unfinished.later (h : s.Unfinished n reason) (hn : n ≤ m) : s.Unfinished m reason :=
  ⟨h.points, fun id hid k hk => h.named id hid k (Nat.le_trans hn hk), h.override,
    (Reader.saidAt_later h.named hn _).trans h.fault⟩

/-- A request that is not counted leaves an unfinished text unfinished. -/
theorem Unfinished.idle (h : s.Unfinished n reason) (hidle : request.Idle s.canvas) :
    (s.run request n).1.1.Unfinished n reason ∧ (s.run request n).1.1.editor = s.editor := by
  cases request with
  | subscribe | unsubscribe id | setChallenge challenge =>
    exact ⟨⟨h.points, h.named, h.override, h.fault⟩, rfl⟩
  | setFocus focus =>
    rw [run_setFocus_gone hidle]
    exact ⟨h, rfl⟩
  | _ => exact hidle.elim

/-- A text that cannot be read means nothing that a canvas says, so it gives way where the session
settles. -/
theorem Unfinished.settle_eq (h : s.Unfinished n reason) : (s.settle n).1 = s.showActive := by
  have hlanding : s.landing = s.focus := if_pos h.points
  rw [Session.settle_eq, hlanding]
  have heditor : (if (s.reader.areEquivalent s.canvas s.focus s.editor (s.textOf s.focus) n).1 then
      s.editor else s.textOf s.focus) = s.activeText := by
    split
    · rename_i hsame
      obtain hsame | ⟨shape, hshape, -⟩ := (Reader.areEquivalent_iff h.named).1 hsame
      · exact hsame
      · cases h.fault.symm.trans hshape
    · rfl
  rw [heditor]
  rfl

/-- A request that is counted as an edit puts the generated text in place of an unfinished one, also
where it leaves the canvas as it is. -/
theorem Unfinished.settled {c : Canvas} (h : s.Unfinished n reason)
    (hcanvas : (({ s with canvas := c }).settle (n + 1)).1.count.canvas = s.canvas) :
    (({ s with canvas := c }).settle (n + 1)).1.count = s.showActive.count := by
  have hc : c = s.canvas := by
    rw [Session.settle_eq] at hcanvas
    exact hcanvas
  rw [hc, (h.later (Nat.le_succ n)).settle_eq]

/-- A request that is counted and leaves the canvas as it is has the editor show the block of the
pointer. -/
theorem Unfinished.shows (h : s.Unfinished n reason) (htype : ∀ text, request ≠ .type text)
    (hcanvas : (s.run request n).1.1.canvas = s.canvas) (hidle : ¬request.Idle s.canvas) :
    ∃ shown : Session, (s.run request n).1.1 = shown.showActive.count := by
  obtain ⟨b, hb⟩ := Option.isSome_iff_exists.1 h.points
  have hdrawn : ∀ edit, request.drawing? s.focus = some edit →
      ∃ shown : Session, (s.run request n).1.1 = shown.showActive.count := fun edit hedit => by
    rw [run_drawn hedit] at hcanvas ⊢
    exact ⟨s, h.settled hcanvas⟩
  cases request with
  | subscribe | unsubscribe id | setChallenge challenge => exact absurd trivial hidle
  | type text => exact absurd rfl (htype text)
  | load canvas => exact ⟨{ s with canvas := canvas, focus := .root }, rfl⟩
  | setFocus focus =>
    obtain ⟨there, hthere⟩ := Option.ne_none_iff_exists'.1 hidle
    exact ⟨{ s with focus := focus }, (run_setFocus hthere n).1⟩
  | edit edit =>
    rw [run_edited hb] at hcanvas ⊢
    exact ⟨s, h.settled hcanvas⟩
  | _ => exact hdrawn _ rfl

/-- A request that leaves the canvas as it is, other than another text, leaves an unfinished text in
the editor and in force exactly if it is not counted as a change. -/
theorem Unfinished.kept_iff (h : s.Unfinished n reason) (htype : ∀ text, request ≠ .type text)
    (hcanvas : (s.run request n).1.1.canvas = s.canvas) :
    ((s.run request n).1.1.editor = s.editor ∧ (s.run request n).1.1.override = some reason ↔
        request.Idle s.canvas) ∧
      (¬request.Idle s.canvas → (s.run request n).1.1.override = none ∧
        (s.run request n).1.1.editor = (s.run request n).1.1.activeText) := by
  have hlost : ¬request.Idle s.canvas → (s.run request n).1.1.override = none ∧
      (s.run request n).1.1.editor = (s.run request n).1.1.activeText := fun hidle => by
    obtain ⟨shown, hshown⟩ := h.shows htype hcanvas hidle
    rw [hshown]
    exact ⟨rfl, rfl⟩
  refine ⟨⟨fun ⟨_, hoverride⟩ => ?_, fun hidle => ?_⟩, hlost⟩
  · by_contra hidle
    rw [(hlost hidle).1] at hoverride
    cases hoverride
  · obtain ⟨hafter, heditor⟩ := h.idle hidle
    exact ⟨heditor, hafter.override⟩

/-! ## Whole sessions -/

theorem Turns.unfinished {reply : Reply} {events : List Event}
    (h : s.Turns n m request s' reply events) (hkeeps : request.KeepsCanvas) (hn : n ≤ m)
    (hs : s.Points) (hnumbered : s.canvas.Numbered n)
    (hbefore : ∀ reason, s.override = some reason → s.Unfinished n reason) :
    ∀ reason, s'.override = some reason → s'.Unfinished m reason := by
  intro reason hoverride
  have hnamed := ((h.redraws hkeeps).leaves.numbered hn hnumbered).namedBefore
  have hpoints := h.points hs
  cases h with
  | subscribed | unsubscribed id | challenged challenge | stayed hblock | ignored hblock =>
    exact ⟨hpoints, hnamed, hoverride, ((hbefore reason hoverride).later hn).fault⟩
  | changed hchanges =>
    cases hchanges with
    | loaded canvas => exact hkeeps.elim
    | focused hblock => cases hoverride
    | @typed text what hwhat htakes =>
      cases what with
      | unchanged => cases hoverride
      | replaced next => cases hoverride
      | refused fault =>
        cases hoverride
        have hfault := (Reader.faultOf_of_refused hs hwhat.symm).saidAt
        exact ⟨hpoints, hnamed, rfl, (Reader.saidAt_later hnumbered.namedBefore hn _).trans hfault⟩
    | edited _ _ hsettled | drawn _ _ hsettled =>
      obtain ⟨editor, rfl⟩ := hsettled
      cases hoverride

/-- Whatever was asked of a session since its start, short of putting another canvas in place: a
text that is in force is unfinished. -/
theorem unfinished_runAll (settings : Settings) (catalog : Catalog) {requests : List Request}
    (hkeeps : ∀ r ∈ requests, r.KeepsCanvas) (n : Nat)
    (h : ((start settings catalog).runAll requests n).1.override = some reason) :
    ((start settings catalog).runAll requests n).1.Unfinished
      ((start settings catalog).runAll requests n).2 reason := by
  have hrun := yields_runAll_turns (I := fun n s => s.Points ∧ s.canvas.Numbered n ∧
      ∀ reason, s.override = some reason → s.Unfinished n reason) requests
    (fun hmem hturns hm h => ⟨hturns.points h.1,
      (hturns.redraws (hkeeps _ hmem)).leaves.numbered hm h.2.1,
      hturns.unfinished (hkeeps _ hmem) hm h.1 h.2.1 h.2.2⟩) (start settings catalog) n
    ⟨rfl, Canvas.numbered_empty, nofun⟩
  exact hrun.result.2.2 reason h

/-- Whatever was asked of a session since its start, short of putting another canvas in place: where
a text is in force that cannot be drawn, a request that leaves the canvas as it is, other than
another text, keeps the text in the editor and in force exactly if it is not counted as a change.
Every other one, so each edit that names something absent or is refused, puts the generated text in
its place. -/
theorem unfinished_text_kept_iff (settings : Settings) (catalog : Catalog)
    {requests : List Request} (hkeeps : ∀ r ∈ requests, r.KeepsCanvas) (n : Nat) :
    let s := ((start settings catalog).runAll requests n).1
    let m := ((start settings catalog).runAll requests n).2
    ∀ reason request, s.override = some reason → (∀ text, request ≠ .type text) →
      (s.run request m).1.1.canvas = s.canvas →
        ((s.run request m).1.1.editor = s.editor ∧ (s.run request m).1.1.override = s.override ↔
          request.Idle s.canvas) ∧
        (¬request.Idle s.canvas → (s.run request m).1.1.override = none ∧
          (s.run request m).1.1.editor = (s.run request m).1.1.activeText) := by
  intro s m reason request hoverride htype hcanvas
  rw [hoverride]
  exact (unfinished_runAll settings catalog hkeeps n hoverride).kept_iff htype hcanvas

/-- A table is drawn, and then a query is typed whose condition is still missing. -/
def conditionMissing : List Request :=
  [.edit (.addTable "orders" [] default), .type "SELECT orders.id FROM orders WHERE"]

/-- The removal of a table that is not on the canvas. -/
def removeAbsent : Request := .edit (.removeTable (EntityId.minted 7))

theorem keepsCanvas_conditionMissing : ∀ r ∈ conditionMissing, r.KeepsCanvas := by
  simp [conditionMissing, Request.KeepsCanvas]

/-- The table is not there, the canvas stays as it is, and what was typed is gone. -/
theorem removeAbsent_run :
    let s := ((start default .empty).runAll conditionMissing 0).1
    let m := ((start default .empty).runAll conditionMissing 0).2
    s.override = some .malformed ∧ s.canvas.root.table? (EntityId.minted 7) = none ∧
      (s.run removeAbsent m).1.1.canvas = s.canvas ∧
      (s.run removeAbsent m).1.1.override = none ∧
      s.editor = "SELECT orders.id FROM orders WHERE" ∧
      (s.run removeAbsent m).1.1.editor = "SELECT /* no columns selected */ *\nFROM orders" := by
  decide +kernel

/-- The removal of a table that is not there takes away the text that was being typed. -/
theorem text_lost_to_absent_table :
    ∃ s : Session, ∃ m reason, s = ((start default .empty).runAll conditionMissing 0).1 ∧
      s.override = some reason ∧ s.canvas.root.table? (EntityId.minted 7) = none ∧
      (s.run removeAbsent m).1.1.canvas = s.canvas ∧
      ¬((s.run removeAbsent m).1.1.editor = s.editor ∧
        (s.run removeAbsent m).1.1.override = s.override) := by
  obtain ⟨hoverride, habsent, hcanvas, hlost, -⟩ := removeAbsent_run
  refine ⟨_, _, _, rfl, hoverride, habsent, hcanvas, ?_⟩
  rintro ⟨-, hkept⟩
  rw [hlost, hoverride] at hkept
  cases hkept

/-- The removal of a table is counted, be the table there or not. -/
theorem unfinished_text_kept_iff_removeAbsent :
    let s := ((start default .empty).runAll conditionMissing 0).1
    let m := ((start default .empty).runAll conditionMissing 0).2
    (∀ r ∈ conditionMissing, r.KeepsCanvas) ∧ s.override = some .malformed ∧
      (∀ text, removeAbsent ≠ .type text) ∧ (s.run removeAbsent m).1.1.canvas = s.canvas ∧
      ((s.run removeAbsent m).1.1.editor = s.editor ∧
          (s.run removeAbsent m).1.1.override = s.override ↔ removeAbsent.Idle s.canvas) ∧
      (¬removeAbsent.Idle s.canvas → (s.run removeAbsent m).1.1.override = none ∧
        (s.run removeAbsent m).1.1.editor = (s.run removeAbsent m).1.1.activeText) := by
  obtain ⟨hoverride, -, hcanvas, -⟩ := removeAbsent_run
  have htype : ∀ text, removeAbsent ≠ .type text := nofun
  exact ⟨keepsCanvas_conditionMissing, hoverride, htype, hcanvas,
    unfinished_text_kept_iff default .empty keepsCanvas_conditionMissing 0 _ _ hoverride htype
      hcanvas⟩

end Session

end QueryCanvas
