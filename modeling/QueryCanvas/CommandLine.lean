import QueryCanvas.Sql.Dialect

/-!
# Command lines

A command line names a command with its operands, and options before or behind the command.  An
option behind the command counts more than the same option before it, and both count more than the
environment.  Of several faults the one that is met first is reported; those behind the command are
met before the values of the options in front of it.
-/

set_option autoImplicit false

namespace QueryCanvas.CommandLine

open Sql (Dialect)

/-! ## What a command line says -/

/-- A command with its operands, which are paths of files. -/
inductive Command where
  /-- Writes the query of a stored canvas. -/
  | generate (model : String)
  /-- Reads a query and stores the canvas. -/
  | parse (query : String)
  /-- Compares a stored canvas with a challenge. -/
  | check (challenge model : String)
  /-- Lists the parameters of a query. -/
  | placeholders (query : String)
  /-- Lists what is wrong with a stored canvas. -/
  | diagnose (model : String)
  /-- Shows the settings in force. -/
  | config
deriving DecidableEq, Repr

/-- The options of a command line. -/
structure Options where
  logLevel : Option String
  config : Option String
  dialect : Option Dialect
  compact : Bool
  catalog : Option String
deriving DecidableEq, Repr

/-- A command with its options. -/
structure Invocation where
  command : Command
  options : Options
deriving DecidableEq, Repr

/-- What the environment has to say: a path of settings and the name of a dialect. -/
structure Environment where
  config : Option String
  dialect : Option String

/-- Why a command line is not carried out. -/
inductive UsageFault where
  | helpWanted
  | versionWanted
  /-- Nothing is given at all. -/
  | nothingGiven
  | noCommand
  | unknownCommand
  | unknownArgument
  /-- A value is missing, or is none of the possible ones. -/
  | badValue
  /-- A value cannot be read. -/
  | unreadableValue
  | missingOperand
  | givenTwice
  /-- A value is given to an option that has none. -/
  | unwantedValue
deriving DecidableEq, Repr

/-! ## Names -/

/-- The options that have a value. -/
inductive ValueOption where
  | logLevel | config | dialect | catalog
deriving DecidableEq, Repr

/-- The options. -/
inductive OptionName where
  | value (o : ValueOption)
  | compact | help | version
deriving DecidableEq, Repr

/-- The option of a long name.  The version can only be asked for before a command. -/
def longName? (beforeCommand : Bool) (s : String) : Option OptionName :=
  match s with
  | "log-level" => some (.value .logLevel)
  | "config" => some (.value .config)
  | "dialect" => some (.value .dialect)
  | "catalog" => some (.value .catalog)
  | "compact" => some .compact
  | "help" => some .help
  | "version" => if beforeCommand then some .version else none
  | _ => none

/-- The option of a letter. -/
def letter? (beforeCommand : Bool) (c : Char) : Option OptionName :=
  match c with
  | 'l' => some (.value .logLevel)
  | 'C' => some (.value .config)
  | 'd' => some (.value .dialect)
  | 'h' => some .help
  | 'V' => if beforeCommand then some .version else none
  | _ => none

/-- The levels of logging. -/
def logLevels : List String := ["off", "error", "warn", "info", "debug", "trace"]

/-- The names of the commands. -/
def commandNames : List String :=
  ["generate", "parse", "check", "placeholders", "diagnose", "config"]

/-- The number of operands of a command. -/
def operandCount (command : String) : Nat :=
  match command with
  | "check" => 2
  | "config" => 0
  | _ => 1

/-- The command of a name with its operands. -/
def command? (name : String) (operands : List String) : Option Command :=
  match name, operands with
  | "generate", [model] => some (.generate model)
  | "parse", [query] => some (.parse query)
  | "check", [challenge, model] => some (.check challenge model)
  | "placeholders", [query] => some (.placeholders query)
  | "diagnose", [model] => some (.diagnose model)
  | "config", [] => some .config
  | _, _ => none

/-! ## Values -/

/-- No options at all. -/
def Options.empty : Options :=
  { logLevel := none, config := none, dialect := none, compact := false, catalog := none }

namespace Options

/-- Whether an option is given. -/
def has (g : Options) : ValueOption → Bool
  | .logLevel => g.logLevel.isSome
  | .config => g.config.isSome
  | .dialect => g.dialect.isSome
  | .catalog => g.catalog.isSome

/-- Whether no option is given. -/
def isEmpty (g : Options) : Bool := g = .empty

/-- A path, which has to be there. -/
def path (s : String) : Except UsageFault String :=
  if s.isEmpty then .error .badValue else .ok s

/-- Gives a value to an option. -/
def set (g : Options) (o : ValueOption) (value : String) : Except UsageFault Options :=
  match o with
  | .logLevel =>
    if logLevels.contains value then .ok { g with logLevel := some value } else .error .badValue
  | .config => do return { g with config := some (← path value) }
  | .catalog => do return { g with catalog := some (← path value) }
  | .dialect =>
    match Dialect.ofName? value with
    | some d => .ok { g with dialect := some d }
    | none => .error .unreadableValue

/-- The options of the environment, as far as they are not given. -/
def fill (g : Options) (env : Environment) : Except UsageFault Options := do
  let g ← match g.config, env.config with
    | none, some value => g.set .config value
    | _, _ => pure g
  match g.dialect, env.dialect with
  | none, some value => g.set .dialect value
  | _, _ => pure g

/-- The options of two places, where those of the first one count more. -/
def orElse (a b : Options) : Options :=
  { logLevel := a.logLevel.or b.logLevel, config := a.config.or b.config
    dialect := a.dialect.or b.dialect, compact := a.compact || b.compact
    catalog := a.catalog.or b.catalog }

end Options

/-! ## Arguments in turn -/

/-- What was met last and is not taken up yet. -/
inductive Pending where
  | nothing
  /-- An option, perhaps with its value. -/
  | option (o : ValueOption) (value : Option String)
  | operand (value : String)

/-- What is known of the arguments before a command, or of those behind it. -/
structure Progress where
  options : Options
  operands : List String
  pending : Pending

namespace Progress

/-- Nothing is known yet. -/
def start : Progress := { options := .empty, operands := [], pending := .nothing }

/-- Takes up what is pending. -/
def resolve (p : Progress) : Except UsageFault Progress :=
  match p.pending with
  | .nothing => .ok p
  | .option _ none => .error .badValue
  | .option o (some value) =>
    if p.options.has o then .error .givenTwice
    else do return { p with options := ← p.options.set o value, pending := .nothing }
  | .operand value => do
    return { p with operands := p.operands ++ [← Options.path value], pending := .nothing }

/-- Whether an option waits for its value. -/
def awaitsValue (p : Progress) : Bool :=
  match p.pending with
  | .option _ none => true
  | _ => false

/-- The number of operands so far. -/
def operandNumber (p : Progress) : Nat :=
  match p.pending with
  | .operand _ => p.operands.length + 1
  | _ => p.operands.length

/-- Meets an option, perhaps with a value attached to it. -/
def meet (p : Progress) (name : OptionName) (value : Option String) :
    Except UsageFault Progress := do
  match name, value with
  | .value o, some value =>
    let p ← p.resolve
    { p with pending := .option o (some value) }.resolve
  | .value o, none =>
    let p ← p.resolve
    return { p with pending := .option o none }
  | _, some _ => throw .unwantedValue
  | .compact, none =>
    let p ← p.resolve
    if p.options.compact then throw .givenTwice
    else return { p with options := { p.options with compact := true } }
  | .help, none =>
    let _ ← p.resolve
    throw .helpWanted
  | .version, none =>
    let _ ← p.resolve
    throw .versionWanted

/-- Meets options that are written as letters behind one dash.  What follows the letter of an option
with a value is its value. -/
def meetLetters (beforeCommand : Bool) : List Char → Progress → Except UsageFault Progress
  | [], p => .ok p
  | c :: rest, p =>
    match letter? beforeCommand c with
    | none => .error .unknownArgument
    | some (.value o) =>
      let attached := match rest with
        | [] => none
        | '=' :: value => some (String.ofList value)
        | value => some (String.ofList value)
      p.meet (.value o) attached
    | some name => do meetLetters beforeCommand rest (← p.meet name none)

/-- Meets an option with a long name, perhaps with a value behind a sign of equality. -/
def meetLong (beforeCommand : Bool) (s : List Char) (p : Progress) :
    Except UsageFault Progress :=
  let name := String.ofList (s.takeWhile (· ≠ '='))
  let value := match s.dropWhile (· ≠ '=') with
    | '=' :: value => some (String.ofList value)
    | _ => none
  match longName? beforeCommand name with
  | some o => p.meet o value
  | none => .error .unknownArgument

/-- Meets the value that an option waits for, or an operand. -/
def meetPlain (limit : Nat) (s : String) (p : Progress) : Except UsageFault Progress := do
  if limit ≤ p.operandNumber then throw .unknownArgument
  else
    let p ← p.resolve
    return { p with pending := .operand s }

/-- The arguments behind a command with so many operands. -/
def behindCommand (limit : Nat) : List String → Bool → Progress → Except UsageFault Progress
  | [], _, p => .ok p
  | s :: rest, onlyOperands, p => do
    if onlyOperands then behindCommand limit rest true (← p.meetPlain limit s)
    else match s.toList with
      | ['-', '-'] => behindCommand limit rest true p
      | '-' :: '-' :: name => behindCommand limit rest false (← p.meetLong false name)
      | '-' :: c :: letters =>
        behindCommand limit rest false (← meetLetters false (c :: letters) p)
      | _ =>
        match p.pending with
        | .option o none =>
          behindCommand limit rest false { p with pending := .option o (some s) }
        | _ => behindCommand limit rest false (← p.meetPlain limit s)

end Progress

/-! ## Command lines -/

/-- What follows the word `help`: the name of at most one command. -/
def helpFor : List String → UsageFault
  | [] => .helpWanted
  | [name] => if (commandNames ++ ["help"]).contains name then .helpWanted else .unknownCommand
  | _ => .unknownCommand

/-- What the arguments behind a command say. -/
def readCommand (env : Environment) (name : String) (arguments : List String) :
    Except UsageFault Invocation := do
  let count := operandCount name
  let p ← Progress.behindCommand count arguments false Progress.start
  let p ← p.resolve
  let _ ← p.options.fill env
  match command? name p.operands with
  | some command => return { command, options := p.options }
  | none => throw .missingOperand

/-- The arguments in front of a command, and what follows from there. -/
def readFrom (env : Environment) : List String → Progress → Except UsageFault Invocation
  | [], p => do
    let p ← p.resolve
    let options ← p.options.fill env
    throw (if options.isEmpty then .nothingGiven else .noCommand)
  | s :: rest, p => do
    if !p.awaitsValue && s = "help" then throw (helpFor rest)
    else if !p.awaitsValue && commandNames.contains s then
      let behind ← readCommand env s rest
      let p ← p.resolve
      let options ← (behind.options.orElse p.options).fill env
      let _ ← p.options.fill env
      return { behind with options }
    else match s.toList with
      | ['-', '-'] =>
        match rest with
        | [] => readFrom env [] p
        | name :: _ =>
          throw (if (commandNames ++ ["help"]).contains name then .unknownArgument
            else .unknownCommand)
      | '-' :: '-' :: name => readFrom env rest (← p.meetLong true name)
      | '-' :: c :: letters => readFrom env rest (← Progress.meetLetters true (c :: letters) p)
      | _ =>
        match p.pending with
        | .option o none => readFrom env rest { p with pending := .option o (some s) }
        | _ => throw .unknownCommand

/-- What a command line says in an environment. -/
def read (env : Environment) (arguments : List String) : Except UsageFault Invocation :=
  readFrom env arguments Progress.start

end QueryCanvas.CommandLine
