import QueryCanvas.Proofs.Reconcile.OwnText
import QueryCanvas.Proofs.Session.Keystrokes
import QueryCanvas.Proofs.Session.Unfinished

/-!
# A session and its own text

As long as a session is drawn in by hand, its editor shows a generated text or an older one that
says the same.  If this text is put into the editor as it stands, it is received as one that changes
nothing exactly if the generated text can be read.  The text of a block that reads from nothing
cannot; and in the wide layout the text of a named or nested query with a line break in quotes says
something else than the query.
-/

set_option autoImplicit false

namespace QueryCanvas

open Sql

/-- A request that neither puts a text into the editor nor another canvas in place. -/
def Request.ByHand : Request → Prop
  | .type _ | .load _ => False
  | _ => True

theorem Request.ByHand.keepsCanvas {request : Request} (h : request.ByHand) :
    request.KeepsCanvas := by
  cases request with
  | load canvas => exact h.elim
  | _ => trivial

namespace Session

variable {s s' : Session} {n m : Nat} {request : Request}

/-- The text of the editor is the generated text of the block of the pointer, or says the same. -/
structure InStep (s : Session) (n : Nat) : Prop where
  points : s.Points
  named : s.canvas.NamedBefore n
  editor : s.editor = s.activeText ∨ ∃ shape,
    s.reader.saidAt s.canvas s.focus n s.editor = .ok shape ∧
      s.reader.saidAt s.canvas s.focus n s.activeText = .ok shape

theorem InStep.later (h : s.InStep n) (hn : n ≤ m) : s.InStep m := by
  refine ⟨h.points, fun id hid k hk => h.named id hid k (Nat.le_trans hn hk), ?_⟩
  rw [Reader.saidAt_later h.named hn, Reader.saidAt_later h.named hn]
  exact h.editor

theorem inStep_showActive (hs : s.Points) (hnamed : s.canvas.NamedBefore n) :
    s.showActive.count.InStep n :=
  ⟨hs, hnamed, .inl rfl⟩

/-- After it settled a session is in step. -/
theorem inStep_settle (hnamed : s.canvas.NamedBefore n) : (s.settle n).1.count.InStep n := by
  have hpoints : (s.settle n).1.Points := (yields_settled s n).result.points
  rw [settle_eq] at hpoints ⊢
  refine ⟨hpoints, hnamed, ?_⟩
  by_cases hsame :
      (s.reader.areEquivalent s.canvas s.landing s.editor (s.textOf s.landing) n).1 = true
  · have hsays := (Reader.areEquivalent_iff hnamed).1 hsame
    simp only [hsame, if_true]
    exact hsays
  · simp only [hsame]
    exact .inl rfl

/-- A request that draws takes an identifier. -/
theorem Turns.takes_identifier {reply : Reply} {events : List Event}
    (h : s.Turns n m request s' reply events)
    (hdraws : (request.drawing? s.focus).isSome ∨
      ∃ edit, request = .edit edit ∧ (s.canvas.block? s.focus).isSome) : n + 1 ≤ m := by
  cases h with
  | ignored hblock =>
    rcases hdraws with hdrawing | ⟨_, _, hthere⟩
    · cases hdrawing
    · rw [hblock] at hthere
      cases hthere
  | changed hchanges =>
    cases hchanges with
    | edited hm _ _ | drawn hm _ _ => exact hm
    | _ => rcases hdraws with hdrawing | ⟨_, hedit, _⟩ <;> contradiction
  | _ => rcases hdraws with hdrawing | ⟨_, hedit, _⟩ <;> contradiction

/-- A session in step that is drawn in stays in step. -/
theorem InStep.run (h : s.InStep n) (hbyhand : request.ByHand) (hnumbered : s.canvas.Numbered n) :
    (s.run request n).1.1.InStep (s.run request n).2 := by
  have hturns := (s.yields_turns n request).result
  obtain ⟨b, hb⟩ := Option.isSome_iff_exists.1 h.points
  have hnumberedAfter : ∀ c, s.Redraws n (n + 1) request c → c.NamedBefore (n + 1) :=
    fun c hredraws => (hredraws.leaves.numbered (Nat.le_succ n) hnumbered).namedBefore
  have hdrawn : ∀ edit, request.drawing? s.focus = some edit →
      (s.run request n).1.1.InStep (s.run request n).2 := fun edit hedit => by
    have hm := hturns.takes_identifier (.inl (Option.isSome_of_eq_some hedit))
    rw [run_drawn hedit]
    exact (inStep_settle (hnumberedAfter _ (.drawn (Nat.le_refl _) hedit))).later hm
  cases request with
  | subscribe | unsubscribe id | setChallenge challenge => exact ⟨h.points, h.named, h.editor⟩
  | type text => exact hbyhand.elim
  | load canvas => exact hbyhand.elim
  | setFocus focus =>
    cases hfocus : s.canvas.block? focus with
    | none =>
      rw [run_setFocus_gone hfocus]
      exact h
    | some there =>
      obtain ⟨hrun, hcounter⟩ := run_setFocus hfocus n
      rw [hrun, hcounter]
      exact inStep_showActive (s := { s with focus := focus }) (Option.isSome_of_eq_some hfocus)
        h.named
  | edit edit =>
    have hm := hturns.takes_identifier (.inr ⟨edit, rfl, h.points⟩)
    rw [run_edited hb]
    exact (inStep_settle (hnumberedAfter _ (.edited (Nat.le_refl _) hb))).later hm
  | _ => exact hdrawn _ rfl

/-- Whatever is drawn by hand in a session from its start, its editor stays in step. -/
theorem inStep_runAll (settings : Settings) (catalog : Catalog) {requests : List Request}
    (hbyhand : ∀ r ∈ requests, r.ByHand) (n : Nat) :
    ((start settings catalog).runAll requests n).1.InStep
      ((start settings catalog).runAll requests n).2 := by
  induction requests using List.reverseRecOn with
  | nil => exact ⟨rfl, nofun, .inl rfl⟩
  | append_singleton before request ih =>
    obtain ⟨hbefore, hlast⟩ := List.forall_mem_append.1 hbyhand
    have hnumbered := numbered_runAll settings catalog
      (fun r hr => (hbefore r hr).keepsCanvas) n
    rw [runAll_push]
    exact (ih hbefore).run (hlast request (List.mem_singleton_self request)) hnumbered

/-! ## The text of the editor, put into the editor -/

/-- The text of the editor, put into the editor as it stands, is answered as one that changes
nothing, and neither changes the canvas nor is in force by itself. -/
def AcceptsOwn (s : Session) (n : Nat) : Prop :=
  (s.run (.type s.editor) n).1.2.1 = .typed .unchanged ∧
    (s.run (.type s.editor) n).1.1.canvas = s.canvas ∧
    (s.run (.type s.editor) n).1.1.override = none

theorem generated?_focus (hs : s.Points) :
    s.canvas.generated? s.settings.layout s.focus = some s.activeText := by
  obtain ⟨b, hb⟩ := Option.isSome_iff_exists.1 hs
  rw [activeText_of_block? hb]
  generalize s.focus = focus at hb ⊢
  cases focus with
  | root => rfl
  | subquery id | cte id => exact Option.map_eq_some_iff.2 ⟨b, hb, rfl⟩

/-- In step, the text of the editor says what the generated text says. -/
theorem InStep.saidAt_editor (h : s.InStep n) :
    s.reader.saidAt s.canvas s.focus n s.editor =
      s.reader.saidAt s.canvas s.focus n s.activeText := by
  obtain hsame | ⟨shape, heditor, hactive⟩ := h.editor
  · rw [hsame]
  · rw [heditor, hactive]

theorem acceptsOwn_iff_unchanged : s.AcceptsOwn n ↔
    (s.reader.reconcile s.canvas s.focus s.editor n).1 = .unchanged := by
  obtain ⟨hnext, hreply⟩ := s.run_typed s.editor n
  unfold AcceptsOwn
  rw [hnext, hreply]
  cases (s.reader.reconcile s.canvas s.focus s.editor n).1 with
  | unchanged => exact iff_of_true ⟨rfl, rfl, rfl⟩ rfl
  | replaced c => exact iff_of_false (fun h => by cases h.1) nofun
  | refused reason => exact iff_of_false (fun h => by cases h.1) nofun

theorem InStep.acceptsOwn_iff (h : s.InStep n) : s.AcceptsOwn n ↔
    ∃ shape, s.reader.saidAt s.canvas s.focus n s.activeText = .ok shape ∧
      s.reader.meant? s.canvas s.focus n = some shape := by
  rw [acceptsOwn_iff_unchanged, Reader.unchanged_iff h.named h.points, h.saidAt_editor]

theorem activeText_of_hasNoSource {b : Block} (hb : s.canvas.block? s.focus = some b)
    (hempty : b.hasNoSource) : s.activeText = noTables := by
  have hblock : renderBlock s.settings.layout b = noTables := by
    cases b
    rw [renderBlock, blockText, if_pos hempty]
  rw [activeText_of_block? hb]
  split
  · rename_i hroot
    rw [hroot] at hb
    cases hb
    rw [generated, render, if_pos hempty]
  · exact hblock

/-- The text of a block that reads from nothing is refused. -/
theorem InStep.refuses_empty (h : s.InStep n) {b : Block}
    (hb : s.canvas.block? s.focus = some b) (hempty : b.hasNoSource) :
    (s.run (.type s.editor) n).1.2.1 = .typed (.refused .malformed) := by
  refine reply_of_refused (Reader.refused_of_fault h.points ?_)
  rw [h.saidAt_editor, activeText_of_hasNoSource hb hempty]
  exact Reader.saidAt_noTables

/-- Whatever is drawn by hand in a session from its start: the text that the editor shows, put into
the editor as it stands, changes nothing exactly if the generated text of the block of the pointer
says what the canvas means by the block.  On a single line, or with lines that can each be read
alone, it is enough that the generated text can be read.  The text of a block that reads from
nothing is refused. -/
theorem own_text_accepted_iff (settings : Settings) (catalog : Catalog) {requests : List Request}
    (hbyhand : ∀ r ∈ requests, r.ByHand) (n : Nat) :
    let s := ((start settings catalog).runAll requests n).1
    let m := ((start settings catalog).runAll requests n).2
    (s.AcceptsOwn m ↔ ∃ shape, s.reader.saidAt s.canvas s.focus m s.activeText = .ok shape ∧
      s.reader.meant? s.canvas s.focus m = some shape) ∧
    (s.settings.layout.pretty = false ∨
        s.settings.dialect = .generic ∧ s.canvas.WholeLines s.focus →
      (s.AcceptsOwn m ↔ ∃ shape, s.reader.saidAt s.canvas s.focus m s.activeText = .ok shape)) ∧
    ∀ b, s.canvas.block? s.focus = some b → b.hasNoSource →
      (s.run (.type s.editor) m).1.2.1 = .typed (.refused .malformed) := by
  intro s m
  have hstep : s.InStep m := inStep_runAll settings catalog hbyhand n
  refine ⟨hstep.acceptsOwn_iff, fun hlayout => ?_, fun b hb hempty => hstep.refuses_empty hb hempty⟩
  rw [hstep.acceptsOwn_iff]
  exact Reader.says_meant_iff hlayout (generated?_focus hstep.points)

/-- A nested query is added to the `FROM` clause and made the block of the pointer. -/
def newNested : List Request :=
  [.edit (.addSubquery .fromClause none default), .setFocus (.subquery (EntityId.minted 0))]

theorem byHand_newNested : ∀ r ∈ newNested, r.ByHand := by simp [newNested, Request.ByHand]

/-- The text that the editor shows for a new nested query is refused and is then in force, although
the text that stands for this nested query in the query of the root is received as one that changes
nothing. -/
theorem own_text_of_new_nested_refused :
    let s := ((start default .empty).runAll newNested 0).1
    let m := ((start default .empty).runAll newNested 0).2
    (∀ r ∈ newNested, r.ByHand) ∧ s.editor = noTables ∧ ¬s.AcceptsOwn m ∧
      (s.run (.type s.editor) m).1.1.override = some .malformed ∧
      (s.reader.reconcile s.canvas s.focus emptyNested m).1 = .unchanged := by
  have hrun : let s := ((start default .empty).runAll newNested 0).1
      let m := ((start default .empty).runAll newNested 0).2
      s.editor = noTables ∧ (s.run (.type s.editor) m).1.1.override = some .malformed ∧
        (s.reader.reconcile s.canvas s.focus emptyNested m).1 = .unchanged := by
    decide +kernel
  obtain ⟨heditor, hoverride, hnull⟩ := hrun
  refine ⟨byHand_newNested, heditor, fun haccepts => ?_, hoverride, hnull⟩
  cases haccepts.2.2.symm.trans hoverride

/-- In general terms: a new nested query reads from nothing. -/
theorem own_text_accepted_iff_newNested :
    let s := ((start default .empty).runAll newNested 0).1
    let m := ((start default .empty).runAll newNested 0).2
    (∀ r ∈ newNested, r.ByHand) ∧
    (s.AcceptsOwn m ↔ ∃ shape, s.reader.saidAt s.canvas s.focus m s.activeText = .ok shape ∧
      s.reader.meant? s.canvas s.focus m = some shape) ∧
    (s.settings.layout.pretty = false ∨
        s.settings.dialect = .generic ∧ s.canvas.WholeLines s.focus →
      (s.AcceptsOwn m ↔ ∃ shape, s.reader.saidAt s.canvas s.focus m s.activeText = .ok shape)) ∧
    ∀ b, s.canvas.block? s.focus = some b → b.hasNoSource →
      (s.run (.type s.editor) m).1.2.1 = .typed (.refused .malformed) :=
  ⟨byHand_newNested, own_text_accepted_iff default .empty byHand_newNested 0⟩

end Session

end QueryCanvas
