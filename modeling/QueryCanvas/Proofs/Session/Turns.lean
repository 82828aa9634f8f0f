import QueryCanvas.Proofs.Reconcile.Taken
import QueryCanvas.Session

/-!
# The turns of a session

A request either leaves a session uncounted, because it is about subscribers or about a challenge or
asks for what is not there, or it changes the session, and the change is counted and announced.
Here every request is told once by the whole state that it leaves, its answer and its events; what
holds in the course of a session is shown of these cases.
-/

set_option autoImplicit false

namespace QueryCanvas

open Sql

/-- The edit of the whole canvas that a request asks for, if it asks for one. -/
def Request.drawing? (focus : Focus) : Request → Option CanvasEdit
  | .reference cte position => some (.reference focus cte position)
  | .addCte name frame => some (.addCte name frame)
  | .renameCte id name => some (.renameCte id name)
  | .removeCte id => some (.removeCte id)
  | .removeSubquery id => some (.removeSubquery id)
  | _ => none

namespace Session

variable {s s' : Session} {n m : Nat} {request : Request} {reply : Reply} {events : List Event}

/-! ## Parts of a change -/

/-- Where the pointer is after an edit of the canvas: at the root, if it led to what is gone. -/
def landing (s : Session) : Focus :=
  if (s.canvas.block? s.focus).isSome then s.focus else .root

/-- A session that settled after an edit of its canvas.  The text in its editor means what the
canvas says. -/
def Settled (s s' : Session) : Prop :=
  ∃ editor, s' = { s with override := none, focus := s.landing, editor := editor }

theorem yields_settled (s : Session) (n : Nat) : Yields n s.settle fun s' _ => s.Settled s' := by
  unfold settle
  refine Yields.bind (Reader.yields_areEquivalent _ _ _ _ _ n) fun same m _ _ => ?_
  split
  · exact Yields.pure ⟨s.editor, rfl⟩
  · exact Yields.pure ⟨_, rfl⟩

/-- What a text that is put into the editor makes of a session, and what came of it. -/
def received (s : Session) (text : String) : Reconciliation → Session × TextOutcome
  | .unchanged => ({ s with editor := text, override := none }, .unchanged)
  | .replaced c => ({ s with editor := text, override := none, canvas := c }, .replaced)
  | .refused reason => ({ s with editor := text, override := some reason }, .refused reason)

theorem editActive_cte {p : EntityId} (hfocus : s.focus = .cte p) (new : EntityId)
    (edit : BlockEdit) : s.editActive new edit =
      ((CanvasEdit.inBlock (.cte p) edit).apply new s.canvas).refreshCteColumns p := by
  unfold editActive
  rw [hfocus]
  rfl

theorem editActive_of_ne (hfocus : ∀ p, s.focus ≠ .cte p) (new : EntityId) (edit : BlockEdit) :
    s.editActive new edit = (CanvasEdit.inBlock s.focus edit).apply new s.canvas := by
  unfold editActive
  dsimp only
  split
  · rename_i p hcte
    exact absurd hcte (hfocus p)
  · rfl

/-- What an edit of the block of the pointer preserves, and showing the results of a named query
does, holds after an edit of the block that is being edited. -/
theorem editActive_induction {P : Canvas → Prop} (new : EntityId) (edit : BlockEdit)
    (h : P ((CanvasEdit.inBlock s.focus edit).apply new s.canvas))
    (hrefresh : ∀ {c : Canvas} (id : EntityId), P c → P (c.refreshCteColumns id)) :
    P (s.editActive new edit) := by
  unfold editActive
  dsimp only
  split
  · exact hrefresh _ h
  · exact h

/-! ## Requests -/

/-- A change that a request makes, before it is counted, and what is answered, while the counter
goes from `n` to `m`. -/
inductive Changes (s : Session) (n m : Nat) : Request → Origin → Session → Reply → Prop
  | loaded (canvas : Canvas) :
    Changes s n m (.load canvas) .load ({ s with canvas := canvas, focus := .root }).showActive
      (.edited .done)
  | focused {focus : Focus} {b : Block} (hblock : s.canvas.block? focus = some b) :
    Changes s n m (.setFocus focus) .focus ({ s with focus := focus }).showActive
      (.edited (.flag true))
  | typed {text : String} {what : Reconciliation}
      (hwhat : what = (s.reader.reconcile s.canvas s.focus text n).1)
      (htakes : ∀ next, what = .replaced next → s.reader.Takes s.canvas text n m s.focus next) :
    Changes s n m (.type text) .text (s.received text what).1 (.typed (s.received text what).2)
  | edited {edit : BlockEdit} {b : Block} {s' : Session} (hm : n + 1 ≤ m)
      (hblock : s.canvas.block? s.focus = some b)
      (hsettled : ({ s with canvas := s.editActive (EntityId.minted n) edit }).Settled s') :
    Changes s n m (.edit edit) .canvas s' (.edited (edit.result (EntityId.minted n) b))
  | drawn {request : Request} {edit : CanvasEdit} {s' : Session} (hm : n + 1 ≤ m)
      (hedit : request.drawing? s.focus = some edit)
      (hsettled : ({ s with canvas := edit.apply (EntityId.minted n) s.canvas }).Settled s') :
    Changes s n m request .canvas s'
      (.edited ((edit.result? (EntityId.minted n) s.canvas).getD (.created none)))

/-- What a session is after a request, what is answered and which events go out, while the counter
goes from `n` to `m`. -/
inductive Turns (s : Session) (n m : Nat) : Request → Session → Reply → List Event → Prop
  | subscribed : Turns s n m .subscribe
      { s with
        subscribers := s.subscribers ++ [s.nextSubscriber], nextSubscriber := s.nextSubscriber + 1 }
      (.subscriber s.nextSubscriber) []
  | unsubscribed (id : SubscriberId) : Turns s n m (.unsubscribe id)
      { s with subscribers := s.subscribers.filter (· ≠ id) }
      (.edited (.flag (s.subscribers.contains id))) []
  | challenged (challenge : Option Challenge) : Turns s n m (.setChallenge challenge)
      { s with
        challenge := challenge, progress := ({ s with challenge := challenge }).currentProgress }
      (.edited .done) []
  /-- A pointer that leads nowhere is not taken. -/
  | stayed {focus : Focus} (hblock : s.canvas.block? focus = none) :
    Turns s n m (.setFocus focus) s (.edited (.flag false)) []
  /-- An edit of a block that is not there is not carried out. -/
  | ignored {edit : BlockEdit} (hblock : s.canvas.block? s.focus = none) :
    Turns s n m (.edit edit) s
      (.edited (edit.result (EntityId.minted n) Block.empty).refused) []
  | changed {request : Request} {origin : Origin} {s' : Session} {reply : Reply}
      (h : s.Changes n m request origin s' reply) :
    Turns s n m request s'.count reply (s'.count.events origin)

/-- A text that is put into the editor is read, and what comes of it decides the rest. -/
theorem yields_typed (s : Session) (n : Nat) (text : String) :
    Yields n (s.typeText text) fun p m => s.Changes n m (.type text) .text p.1 (.typed p.2) := by
  have hread := Reader.yields_reconcile s.reader s.canvas s.focus text n
  have hwhat : Yields n (s.reader.reconcile s.canvas s.focus text) fun what m =>
      what = (s.reader.reconcile s.canvas s.focus text n).1 ∧ ∀ next, what = .replaced next →
        s.reader.Takes s.canvas text n m s.focus next :=
    ⟨hread.counter, rfl, hread.result⟩
  unfold typeText
  refine Yields.bind hwhat fun what m _ hwhat => ?_
  obtain ⟨hrun, htakes⟩ := hwhat
  split
  · exact Yields.pure (.typed hrun htakes)
  · exact Yields.pure (.typed hrun htakes)
  · exact Yields.pure (.typed hrun htakes)

theorem yields_turns_editCanvas {edit : CanvasEdit} (hedit : request.drawing? s.focus = some edit) :
    Yields n (s.editCanvas edit) fun p m => s.Turns n m request p.1 p.2.1 p.2.2 := by
  unfold editCanvas
  refine Yields.bind (Yields.mint (Q := fun id m => m = n + 1 ∧ id = EntityId.minted n)
    ⟨rfl, rfl⟩) ?_
  rintro _ _ - ⟨rfl, rfl⟩
  refine Yields.bind (yields_settled _ (n + 1)) fun s' m hm hs' => Yields.pure ?_
  exact .changed (.drawn hm hedit hs')

/-- What a request does to a session. -/
theorem yields_turns (s : Session) (n : Nat) (request : Request) :
    Yields n (s.run request) fun p m => s.Turns n m request p.1 p.2.1 p.2.2 := by
  cases request with
  | subscribe => exact Yields.pure .subscribed
  | unsubscribe id => exact Yields.pure (.unsubscribed id)
  | setChallenge challenge => exact Yields.pure (.challenged challenge)
  | load canvas => exact Yields.pure (.changed (.loaded canvas))
  | setFocus focus =>
    simp only [run]
    cases hblock : s.canvas.block? focus with
    | none => exact Yields.pure (.stayed hblock)
    | some b => exact Yields.pure (.changed (.focused hblock))
  | type text =>
    exact Yields.bind (s.yields_typed n text) fun _ _ _ h => Yields.pure (.changed h)
  | edit edit =>
    unfold run
    refine Yields.bind (Yields.mint (Q := fun id m => m = n + 1 ∧ id = EntityId.minted n)
      ⟨rfl, rfl⟩) ?_
    rintro _ _ - ⟨rfl, rfl⟩
    cases hblock : s.canvas.block? s.focus with
    | none => exact Yields.pure (.ignored hblock)
    | some b =>
      refine Yields.bind (yields_settled _ (n + 1)) fun s' m hm hs' => Yields.pure ?_
      exact .changed (.edited hm hblock hs')
  | reference cte position => exact yields_turns_editCanvas rfl
  | addCte name frame => exact yields_turns_editCanvas rfl
  | renameCte id name => exact yields_turns_editCanvas rfl
  | removeCte id => exact yields_turns_editCanvas rfl
  | removeSubquery id => exact yields_turns_editCanvas rfl

/-! ## Whole sessions -/

/-- The session after several requests, one after the other. -/
def runAll (s : Session) : List Request → Fresh Session
  | [] => return s
  | request :: rest => do
    let (s, _) ← s.run request
    s.runAll rest

/-- What is said of a session and of the counter holds in the course of it, if every request
preserves it. -/
theorem yields_runAll_turns {I : Nat → Session → Prop} (requests : List Request)
    (hstep : ∀ {s s' : Session} {n m : Nat} {request : Request} {reply : Reply}
      {events : List Event}, request ∈ requests → s.Turns n m request s' reply events → n ≤ m →
        I n s → I m s') :
    ∀ (s : Session) (n : Nat), I n s → Yields n (s.runAll requests) fun s' m => I m s' := by
  induction requests with
  | nil =>
    intro s n h
    exact Yields.pure h
  | cons request rest ih =>
    intro s n h
    refine Yields.bind (s.yields_turns n request) fun p m hm hp => ?_
    have hnext := hstep List.mem_cons_self hp hm h
    exact ih (fun hmem => hstep (List.mem_cons_of_mem _ hmem)) p.1 m hnext

end Session

end QueryCanvas
