import QueryCanvas.Command

/-!
# The program

Reads the command line and the environment, carries out the command on files, and prints what it
reports.  All decisions are made in the modules that this one calls.
-/

set_option autoImplicit false

namespace QueryCanvas.Program

open CommandLine (UsageFault Environment)

/-- What can be asked for. -/
def help : String :=
  "\n".intercalate
    ["seaquel - generate, parse and check visual query builder models", "",
     "Usage: seaquel [OPTIONS] <COMMAND>", "",
     "Commands:",
     "  generate      Render a saved model as SQL",
     "  parse         Read SQL into a model and print it as persisted JSON",
     "  check         Evaluate a lesson challenge against a saved model",
     "  placeholders  List the template placeholders in a SQL file",
     "  diagnose      Report dangling references and other model problems",
     "  config        Show the effective engine configuration as TOML",
     "  help          Print this message or the help of the given subcommand(s)", "",
     "Options:",
     "  -l, --log-level <LOG_LEVEL>  Set log level (off, error, warn, info, debug, trace)",
     "  -C, --config <CONFIG>        Engine config file (TOML with [generator] and [parser] "
       ++ "sections)",
     "  -d, --dialect <DIALECT>      SQL dialect used to read SQL (overrides config file)",
     "      --compact                Single-line SQL output (overrides config file)",
     "      --catalog <CATALOG>      Schema catalog JSON mapping table names to column lists",
     "  -h, --help                   Print help",
     "  -V, --version                Print version"]

/-- The version of the program. -/
def version : String := "seaquel 0.1.0"

/-- What is wrong with a command line. -/
def usageMessage : UsageFault → String
  | .helpWanted | .nothingGiven => help
  | .versionWanted => version
  | .noCommand => "error: a command is required"
  | .unknownCommand => "error: unrecognized command"
  | .unknownArgument => "error: unexpected argument"
  | .badValue => "error: a value is missing or not a possible one"
  | .unreadableValue => "error: unknown SQL dialect"
  | .missingOperand => "error: a file of the command is missing"
  | .givenTwice => "error: an option is given more than once"
  | .unwantedValue => "error: a value is given to an option that takes none"

/-- What is wrong with a file. -/
def causeMessage : FileFault → String
  | .unreadable => "the file cannot be read"
  | .badJson => "invalid JSON"
  | .badToml => "invalid TOML"
  | .newerVersion n =>
    "Unsupported model format version " ++ toString n ++ " (newest known is "
      ++ toString Saved.version ++ ")"

/-- What is wrong with a command and the files that it works on. -/
def faultMessage (e : CommandFault) : String :=
  "Error: " ++ e.message ++ (e.cause.elim "" fun cause => ": " ++ causeMessage cause)

/-- The content of a file, if it can be read. -/
def readFile? (path : String) : IO (Option String) := do
  try
    return some (← IO.FS.readFile path)
  catch _ =>
    return none

end QueryCanvas.Program

open QueryCanvas in
/-- The program: it ends with 0 if the command achieved what was asked, with 1 if it did not, and
with 2 if the command line makes no sense. -/
def main (arguments : List String) : IO UInt32 := do
  let environment : CommandLine.Environment :=
    { config := ← IO.getEnv "SEAQUEL_CONFIG", dialect := ← IO.getEnv "SEAQUEL_DIALECT" }
  match CommandLine.read environment arguments with
  | .error e =>
    match e with
    | .helpWanted | .versionWanted =>
      IO.println (Program.usageMessage e)
      return 0
    | _ =>
      IO.eprintln (Program.usageMessage e)
      return 2
  | .ok invocation =>
    match ← (Command.run Program.readFile? invocation).run with
    | .error e =>
      IO.eprintln (Program.faultMessage e)
      return 1
    | .ok report =>
      unless report.output.isEmpty do IO.println report.output
      return if report.success then 0 else 1
