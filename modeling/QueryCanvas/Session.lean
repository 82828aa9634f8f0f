import QueryCanvas.Canvas.Edit
import QueryCanvas.Lesson
import QueryCanvas.Reconcile
import QueryCanvas.Settings

/-!
# Editing sessions

A session holds a canvas, a pointer to the block that is being edited, and the text of an editor,
and keeps canvas and text in step.  A text that cannot be drawn stays in the editor and is in force
until the next edit of the canvas; the canvas is never lost.  Every change is counted and announced
to the subscribers.
-/

set_option autoImplicit false

namespace QueryCanvas

open Sql

/-- What a change came from. -/
inductive Origin where
  /-- An edit of the canvas. -/
  | canvas
  /-- A text in the editor. -/
  | text
  /-- Another canvas in place of the one before. -/
  | load
  /-- Another block to edit. -/
  | focus
deriving DecidableEq, Repr

/-- The lower-case word for an origin. -/
def Origin.word : Origin → String
  | canvas => "canvas"
  | text => "text"
  | load => "load"
  | focus => "focus"

/-- A number by which a subscriber is known. -/
abbrev SubscriberId := Nat

/-- What a subscriber is told about a change. -/
structure Event where
  subscriber : SubscriberId
  revision : Nat
  origin : Origin
  /-- The query text in force after the change. -/
  sql : String
  progress : Option Progress

/-- The state of a session. -/
structure Session where
  canvas : Canvas
  /-- The block that is being edited. -/
  focus : Focus
  editor : String
  /-- Why the text of the editor cannot be drawn, if it is in force for that reason. -/
  override : Option ReadFault
  catalog : Catalog
  settings : Settings
  challenge : Option Challenge
  progress : Option Progress
  /-- The number of changes so far. -/
  revision : Nat
  /-- The subscribers in the order in which they came. -/
  subscribers : List SubscriberId
  nextSubscriber : SubscriberId

/-- What can be asked of a session. -/
inductive Request where
  | subscribe
  | unsubscribe (subscriber : SubscriberId)
  | setChallenge (challenge : Option Challenge)
  | load (canvas : Canvas)
  | setFocus (focus : Focus)
  /-- Puts a text into the editor. -/
  | type (text : String)
  /-- Edits the block that is being edited. -/
  | edit (edit : BlockEdit)
  /-- Adds a table that reads a named query to the block that is being edited. -/
  | reference (cte : EntityId) (position : Position)
  | addCte (name : String) (frame : Frame)
  | renameCte (id : EntityId) (name : String)
  | removeCte (id : EntityId)
  | removeSubquery (id : EntityId)

/-- What comes of a text that is put into the editor. -/
inductive TextOutcome where
  | unchanged
  | replaced
  | refused (reason : ReadFault)

/-- What a session answers. -/
inductive Reply where
  | subscriber (id : SubscriberId)
  | edited (result : EditResult)
  | typed (outcome : TextOutcome)

/-- The result of an edit that was not carried out. -/
def EditResult.refused : EditResult → EditResult
  | created _ => created none
  | flag _ => flag false
  | done => done

namespace Session

/-! ## What a session shows -/

def reader (s : Session) : Reader := { dialect := s.settings.dialect, catalog := s.catalog }

/-- The query text of the canvas. -/
def generated (s : Session) : String := render s.settings.layout s.canvas

/-- The query text of a block of the canvas; that of the whole canvas for the root and for a block
that is not there. -/
def textOf (s : Session) : Focus → String
  | .root => s.generated
  | focus =>
    match s.canvas.block? focus with
    | some b => renderBlock s.settings.layout b
    | none => s.generated

/-- The query text of the block that is being edited. -/
def activeText (s : Session) : String := s.textOf s.focus

/-- The query text in force. -/
def textInForce (s : Session) : String :=
  if s.override.isSome then s.editor else s.generated

/-- The parameters in the query text in force. -/
def parameters (s : Session) : List String := Parameter.names s.textInForce

/-- The progress in the challenge as things stand. -/
def currentProgress (s : Session) : Option Progress :=
  s.challenge.map fun c => c.progress s.canvas s.textInForce

/-! ## Changes -/

/-- The editor shows the block that is being edited, and nothing is in force but the canvas. -/
def showActive (s : Session) : Session := { s with override := none, editor := s.activeText }

/-- A new session with an empty canvas. -/
def start (settings : Settings) (catalog : Catalog) : Session :=
  let s : Session :=
    { canvas := .empty, focus := .root, editor := "", override := none, catalog, settings
      challenge := none, progress := none, revision := 0, subscribers := [], nextSubscriber := 0 }
  s.showActive

/-- Counts a change. -/
def count (s : Session) : Session :=
  { s with revision := s.revision + 1, progress := s.currentProgress }

/-- The events by which a counted change is announced. -/
def events (s : Session) (origin : Origin) : List Event :=
  s.subscribers.map fun subscriber =>
    { subscriber, revision := s.revision, origin, sql := s.textInForce, progress := s.progress }

/-- Counts and announces a change. -/
def announce (s : Session) (origin : Origin) : Session × List Event :=
  (s.count, s.count.events origin)

/-- The session after the canvas was edited: the canvas is in force, a pointer that leads nowhere
goes back to the root, and the text in the editor stays only if it means what the canvas says. -/
def settle (s : Session) : Fresh Session := do
  let focus := if (s.canvas.block? s.focus).isSome then s.focus else .root
  let s := { s with override := none, focus }
  let text := s.activeText
  if ← s.reader.areEquivalent s.canvas s.focus s.editor text then return s
  else return { s with editor := text }

/-- The canvas after an edit of the block that is being edited.  A changed named query shows its
results in the tables that read it. -/
def editActive (s : Session) (new : EntityId) (edit : BlockEdit) : Canvas :=
  let c := s.canvas.updateBlock s.focus fun b => edit.apply new b
  match s.focus with
  | .cte id => c.refreshCteColumns id
  | _ => c

/-- The session after a text was put into the editor, and what came of it. -/
def typeText (s : Session) (text : String) : Fresh (Session × TextOutcome) := do
  let s := { s with editor := text }
  match ← s.reader.reconcile s.canvas s.focus text with
  | .unchanged => return ({ s with override := none }, .unchanged)
  | .replaced c => return ({ s with override := none, canvas := c }, .replaced)
  | .refused reason => return ({ s with override := some reason }, .refused reason)

/-- Carries out an edit of the whole canvas. -/
def editCanvas (s : Session) (edit : CanvasEdit) : Fresh (Session × Reply × List Event) := do
  let new ← Fresh.mint
  let result := (edit.result? new s.canvas).getD (.created none)
  let s ← { s with canvas := edit.apply new s.canvas }.settle
  let (s, events) := s.announce .canvas
  return (s, .edited result, events)

/-- Carries out what is asked of a session. -/
def run (s : Session) : Request → Fresh (Session × Reply × List Event)
  | .subscribe =>
    return ({ s with
      subscribers := s.subscribers ++ [s.nextSubscriber], nextSubscriber := s.nextSubscriber + 1 },
      .subscriber s.nextSubscriber, [])
  | .unsubscribe id =>
    return ({ s with subscribers := s.subscribers.filter (· ≠ id) },
      .edited (.flag (s.subscribers.contains id)), [])
  | .setChallenge challenge => do
    let s := { s with challenge }
    return ({ s with progress := s.currentProgress }, .edited .done, [])
  | .load canvas => do
    let s := { s with canvas, focus := .root }.showActive
    let (s, events) := s.announce .load
    return (s, .edited .done, events)
  | .setFocus focus => do
    if (s.canvas.block? focus).isNone then return (s, .edited (.flag false), [])
    else
      let s := { s with focus }.showActive
      let (s, events) := s.announce .focus
      return (s, .edited (.flag true), events)
  | .type text => do
    let (s, outcome) ← s.typeText text
    let (s, events) := s.announce .text
    return (s, .typed outcome, events)
  | .edit edit => do
    let new ← Fresh.mint
    match s.canvas.block? s.focus with
    | none => return (s, .edited (edit.result new Block.empty).refused, [])
    | some b =>
      let result := edit.result new b
      let s ← { s with canvas := s.editActive new edit }.settle
      let (s, events) := s.announce .canvas
      return (s, .edited result, events)
  | .reference cte position => s.editCanvas (.reference s.focus cte position)
  | .addCte name frame => s.editCanvas (.addCte name frame)
  | .renameCte id name => s.editCanvas (.renameCte id name)
  | .removeCte id => s.editCanvas (.removeCte id)
  | .removeSubquery id => s.editCanvas (.removeSubquery id)

end Session

end QueryCanvas
