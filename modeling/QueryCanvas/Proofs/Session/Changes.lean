import Mathlib.Data.List.Induction
import QueryCanvas.Proofs.Session.Turns

/-!
# What a request does to the canvas of a session

A request leaves the canvas alone, edits it, or has it take over a text.  Whatever each of these
three preserves is preserved in the course of a session, as long as no other canvas is put in place.
-/

set_option autoImplicit false

namespace QueryCanvas

open Sql

/-- A request that does not put another canvas in place. -/
def Request.KeepsCanvas : Request → Prop
  | .load _ => False
  | _ => True

namespace Session

variable {s s' : Session} {n m : Nat} {request : Request} {reply : Reply} {events : List Event}

/-! ## Requests -/

/-- The canvas that a session takes over at a request; none if the request does not put a text into
the editor, or one that is not taken over. -/
def taken? (s : Session) (n : Nat) : Request → Option Canvas
  | .type text =>
    match (s.reader.reconcile s.canvas s.focus text n).1 with
    | .replaced next => some next
    | _ => none
  | _ => none

/-- What a request that puts no other canvas in place makes of the canvas, while the counter goes
from `n` to `m`. -/
inductive Redraws (s : Session) (n m : Nat) : Request → Canvas → Prop
  | kept {request : Request} (hdrawing : request.drawing? s.focus = none)
      (hedit : ∀ edit, request = .edit edit → s.canvas.block? s.focus = none)
      (htaken : s.taken? n request = none) : Redraws s n m request s.canvas
  | edited {edit : BlockEdit} {b : Block} (hm : n + 1 ≤ m)
      (hblock : s.canvas.block? s.focus = some b) :
    Redraws s n m (.edit edit) (s.editActive (EntityId.minted n) edit)
  | drawn {request : Request} {edit : CanvasEdit} (hm : n + 1 ≤ m)
      (hedit : request.drawing? s.focus = some edit) :
    Redraws s n m request (edit.apply (EntityId.minted n) s.canvas)
  | taken {text : String} {next : Canvas} (htaken : s.taken? n (.type text) = some next)
      (htakes : s.reader.Takes s.canvas text n m s.focus next) : Redraws s n m (.type text) next

theorem Settled.canvas_eq (h : s.Settled s') : s'.canvas = s.canvas := by
  obtain ⟨editor, rfl⟩ := h
  rfl

theorem Changes.redraws {origin : Origin} (h : s.Changes n m request origin s' reply)
    (hkeeps : request.KeepsCanvas) : s.Redraws n m request s'.canvas := by
  cases h with
  | loaded canvas => exact hkeeps.elim
  | focused hblock => exact .kept rfl (fun _ hedit => by cases hedit) rfl
  | @typed text what hwhat htakes =>
    cases what with
    | unchanged => exact .kept rfl (fun _ hedit => by cases hedit) (by rw [taken?, ← hwhat])
    | replaced next => exact .taken (by rw [taken?, ← hwhat]; rfl) (htakes next rfl)
    | refused reason => exact .kept rfl (fun _ hedit => by cases hedit) (by rw [taken?, ← hwhat])
  | edited hm hblock hsettled =>
    rw [hsettled.canvas_eq]
    exact .edited hm hblock
  | drawn hm hedit hsettled =>
    rw [hsettled.canvas_eq]
    exact .drawn hm hedit

theorem Turns.redraws (h : s.Turns n m request s' reply events) (hkeeps : request.KeepsCanvas) :
    s.Redraws n m request s'.canvas := by
  cases h with
  | changed hchanges => exact hchanges.redraws hkeeps
  | ignored hblock => exact .kept rfl (fun _ _ => hblock) rfl
  | subscribed => exact .kept rfl (fun _ hedit => by cases hedit) rfl
  | unsubscribed id => exact .kept rfl (fun _ hedit => by cases hedit) rfl
  | challenged challenge => exact .kept rfl (fun _ hedit => by cases hedit) rfl
  | stayed hblock => exact .kept rfl (fun _ hedit => by cases hedit) rfl

/-- The canvas that a session has after a request, while the counter goes from `n` to `m`. -/
inductive Leaves (s : Session) (n m : Nat) : Request → Canvas → Prop
  | kept {request : Request} (h : s.taken? n request = none) : Leaves s n m request s.canvas
  | edited {request : Request} (h : s.taken? n request = none) (hm : n + 1 ≤ m)
      (edit : CanvasEdit) :
    Leaves s n m request (edit.apply (EntityId.minted n) s.canvas)
  /-- After an edit of a named query the tables that read it show its results. -/
  | refreshed {request : Request} (h : s.taken? n request = none) (hm : n + 1 ≤ m)
      (edit : CanvasEdit) (cte : EntityId) :
    Leaves s n m request ((edit.apply (EntityId.minted n) s.canvas).refreshCteColumns cte)
  | taken {text : String} {next : Canvas} (h : s.taken? n (.type text) = some next)
      (htakes : s.reader.Takes s.canvas text n m s.focus next) : Leaves s n m (.type text) next

theorem leaves_editActive (h : s.taken? n request = none) (hm : n + 1 ≤ m)
    (edit : BlockEdit) : s.Leaves n m request (s.editActive (EntityId.minted n) edit) := by
  unfold editActive
  dsimp only
  split
  · exact .refreshed h hm (.inBlock s.focus edit) _
  · exact .edited h hm (.inBlock s.focus edit)

theorem Redraws.leaves {c : Canvas} (h : s.Redraws n m request c) : s.Leaves n m request c := by
  cases h with
  | kept _ _ htaken => exact .kept htaken
  | edited hm _ => exact leaves_editActive rfl hm _
  | drawn hm hedit =>
    refine .edited ?_ hm _
    cases request with
    | type text => cases hedit
    | _ => rfl
  | taken htaken htakes => exact .taken htaken htakes

/-- What a request leaves. -/
theorem yields_leaves (s : Session) (n : Nat) (request : Request) (hkeeps : request.KeepsCanvas) :
    Yields n (s.run request) fun p m => s.Leaves n m request p.1.canvas :=
  (s.yields_turns n request).imp fun _ _ hturns => (hturns.redraws hkeeps).leaves

/-! ## Whole sessions -/

/-- What is said of a canvas and of the counter holds throughout a session, if every request
preserves it. -/
theorem yields_runAll {I : Nat → Canvas → Prop}
    (hstep : ∀ {s : Session} {n m : Nat} {request : Request} {c : Canvas},
      s.Leaves n m request c → n ≤ m → I n s.canvas → I m c)
    (requests : List Request) (hkeeps : ∀ r ∈ requests, r.KeepsCanvas) :
    ∀ (s : Session) (n : Nat), I n s.canvas →
      Yields n (s.runAll requests) fun s' m => I m s'.canvas :=
  yields_runAll_turns (I := fun n s => I n s.canvas) requests fun hmem hturns hm h =>
    hstep (hturns.redraws (hkeeps _ hmem)).leaves hm h

theorem runAll_push (s : Session) (before : List Request) (request : Request) (n : Nat) :
    s.runAll (before ++ [request]) n =
      (((s.runAll before n).1.run request (s.runAll before n).2).1.1,
        ((s.runAll before n).1.run request (s.runAll before n).2).2) := by
  induction before generalizing s n with
  | nil => rfl
  | cons first rest ih => exact ih _ _

/-- What a request preserves of the canvas exactly if it does well holds at all times exactly if
every request does. -/
theorem always_iff {s : Session} {n : Nat} {requests : List Request} {P : Canvas → Prop}
    {D : Session → Nat → Request → Prop} (hkeeps : ∀ r ∈ requests, r.KeepsCanvas)
    (hstep : ∀ before request m c, (∀ r ∈ before, r.KeepsCanvas) →
      (s.runAll before n).1.Redraws (s.runAll before n).2 m request c →
        P (s.runAll before n).1.canvas →
          (P c ↔ D (s.runAll before n).1 (s.runAll before n).2 request)) (hs : P s.canvas) :
    (∀ before, before <+: requests → P (s.runAll before n).1.canvas) ↔
      ∀ before request, before ++ [request] <+: requests →
        D (s.runAll before n).1 (s.runAll before n).2 request := by
  have hiff : ∀ before request, before ++ [request] <+: requests →
      P (s.runAll before n).1.canvas → (P (s.runAll (before ++ [request]) n).1.canvas ↔
        D (s.runAll before n).1 (s.runAll before n).2 request) := by
    intro before request hfront hbefore
    obtain ⟨hkept, hrequest⟩ := List.forall_mem_append.1 fun r hr => hkeeps r (hfront.subset hr)
    have hturns := (yields_turns (s.runAll before n).1 (s.runAll before n).2 request).result
    have hredraws := hturns.redraws (hrequest request (List.mem_singleton_self request))
    rw [runAll_push]
    exact hstep before request _ _ hkept hredraws hbefore
  constructor
  · intro halways before request hfront
    have hbefore := halways before ((List.prefix_append _ _).trans hfront)
    exact (hiff before request hfront hbefore).1 (halways _ hfront)
  · intro hdone before
    induction before using List.reverseRecOn with
    | nil => exact fun _ => hs
    | append_singleton before request ih =>
      intro hfront
      have hbefore := ih ((List.prefix_append _ _).trans hfront)
      exact (hiff before request hfront hbefore).2 (hdone before request hfront)

end Session

end QueryCanvas
