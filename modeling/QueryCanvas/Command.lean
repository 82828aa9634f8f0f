import QueryCanvas.CommandLine
import QueryCanvas.Diagnosis
import QueryCanvas.Lesson
import QueryCanvas.Saved
import QueryCanvas.Settings
import QueryCanvas.Sql.Reading

/-!
# Commands

What each command does with the files that it is given.  Files are read through a function, so that
a command is the same whatever they come from.
-/

set_option autoImplicit false

namespace QueryCanvas

open CommandLine (Command Invocation Options)
open Sql (ReadFault)

/-- What a command prints, and whether it achieved what was asked. -/
structure Report where
  output : String
  success : Bool
deriving DecidableEq, Repr

/-- What is wrong with a file. -/
inductive FileFault where
  | unreadable
  | badJson
  | badToml
  | newerVersion (n : Nat)
deriving DecidableEq, Repr

/-- Why a command failed: what it tried, and what was wrong with a file, if the file could be read
at all. -/
structure CommandFault where
  message : String
  cause : Option FileFault
deriving DecidableEq, Repr

namespace Report

/-- Output of a command that succeeded. -/
def ok (output : String) : Report := { output, success := true }

/-- Output of a command that did not achieve what was asked. -/
def failed (output : String) : Report := { output, success := false }

end Report

/-- The name of a file without the directories before it. -/
def fileName (path : String) : List Char :=
  (path.toList.reverse.takeWhile (· ≠ '/')).reverse

/-- Whether the name of a file ends in `.json`, in any case, and begins with something else. -/
def isJsonFile (path : String) : Bool :=
  let name := (fileName path).reverse
  let ending := (name.takeWhile (· ≠ '.')).reverse
  let before := (name.dropWhile (· ≠ '.')).drop 1
  !before.isEmpty && Text.sameName (String.ofList ending) "json"

/-- A challenge in the format that the name of its file tells. -/
def Challenge.readFile (path content : String) : Except FileFault Challenge :=
  if isJsonFile path then (Challenge.readJson? content).elim (.error .badJson) .ok
  else (Challenge.readToml? content).elim (.error .badToml) .ok

/-- The text without blanks at its end. -/
def trimEnd (s : String) : String :=
  String.ofList (s.toList.reverse.dropWhile Text.isBlank).reverse

/-- How well a canvas meets a challenge, with a hint for each criterion that is not met. -/
def Challenge.report (c : Challenge) (p : Progress) : String :=
  let title := c.title ++ " (" ++ toString p.count ++ "/" ++ toString p.total ++ ")"
  let criteria := p.outcomes.map fun o => (if o.2 then "  [x] " else "  [ ] ") ++ o.1.display
  let hints := (c.hints.take (p.total - p.count)).map ("  hint: " ++ ·)
  trimEnd ("\n".intercalate (title :: criteria ++ hints))

/-- The text for a query that a canvas cannot hold. -/
def Sql.ReadFault.report (e : ReadFault) : String := e.message?.getD "Syntax error"

namespace Command

variable {m : Type → Type} [Monad m] (file : String → m (Option String))

/-- Commands may fail. -/
abbrev Run (m : Type → Type) := ExceptT CommandFault m

/-- The content of a file that a command works on. -/
def content (path : String) : Run m String := do
  match ← (file path : m (Option String)) with
  | some s => return s
  | none => throw { message := "Failed to read " ++ path, cause := none }

/-- What is read from a file, where all that can be wrong with it is reported alike. -/
def load {α : Type} (message path : String) (read : String → Except FileFault α) : Run m α := do
  match ← (file path : m (Option String)) with
  | none => throw { message, cause := some .unreadable }
  | some s =>
    match read s with
    | .ok a => return a
    | .error e => throw { message, cause := some e }

/-- The stored canvas of a file. -/
def canvas (path : String) : Run m Canvas := do
  match Saved.read (← content file path) with
  | .ok c => return c
  | .error e =>
    let cause : FileFault := match e with
      | .malformed => .badJson
      | .newerVersion n => .newerVersion n
    throw { message := "Failed to load model " ++ path, cause := some cause }

/-- The settings in force. -/
def settings (o : Options) : Run m Settings := do
  let stored ← match o.config with
    | some path =>
      load file "Failed to load engine config" path fun s =>
        (Settings.read? s).elim (.error .badToml) .ok
    | none => pure default
  return { layout := { stored.layout with pretty := stored.layout.pretty && !o.compact }
           dialect := o.dialect.getD stored.dialect }

/-- The catalog in force. -/
def catalog (o : Options) : Run m Catalog := do
  match o.catalog with
  | some path =>
    load file ("Failed to load schema catalog " ++ path) path fun s =>
      (Catalog.read? s).elim (.error .badJson) .ok
  | none => return Catalog.empty

/-- Carries out a command. -/
def run (i : Invocation) : Run m Report := do
  let settings ← settings file i.options
  let catalog ← catalog file i.options
  match i.command with
  | .generate path => return .ok (Sql.render settings.layout (← canvas file path))
  | .parse path =>
    let text ← content file path
    let result : Fresh (Except ReadFault Canvas) := Sql.readText settings.dialect catalog text
    match (result 0).1 with
    | .ok c => return .ok (Saved.write c)
    | .error reason => return .failed reason.report
  | .check path model =>
    let challenge ← load file ("Failed to load challenge " ++ path) path (Challenge.readFile path)
    let c ← canvas file model
    let progress := challenge.progress c (Sql.render settings.layout c)
    return { output := challenge.report progress, success := progress.isComplete }
  | .placeholders path => return .ok ("\n".intercalate (Parameter.names (← content file path)))
  | .diagnose path =>
    let found := (← canvas file path).diagnose
    if found.isEmpty then return .ok "no problems found"
    else return { output := "\n".intercalate (found.map (·.display))
                  success := !found.any (·.severity = .error) }
  | .config => return .ok (trimEnd settings.write)

end Command

end QueryCanvas
