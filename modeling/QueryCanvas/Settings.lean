import QueryCanvas.Data.Toml
import QueryCanvas.Sql.Dialect
import QueryCanvas.Sql.Render

/-!
# Settings

The layout in which queries are written and the dialect in which they are read.  Settings are stored
as a TOML document in which everything may be left out.
-/

set_option autoImplicit false

namespace QueryCanvas

open Sql (Dialect Layout)

/-- The layout of written queries and the dialect of those that are read. -/
structure Settings where
  layout : Layout
  dialect : Dialect
deriving DecidableEq, Repr, Inhabited

namespace Settings

open Data

/-- Reads a layout; its indentation is limited to the widest one. -/
def toLayout? : Decoder Layout := fun d => do
  let f ← d.open? ["pretty", "indent"]
  let layout : Layout := {
    pretty := ← f.withDefault "pretty" (default : Layout).pretty toBool?
    indent := ← f.withDefault "indent" (default : Layout).indent (toNat? (UInt64.size - 1)) }
  return layout.clamped

def toDialect? : Decoder Dialect := fun d => do
  let f ← d.open? ["dialect"]
  f.withDefault "dialect" default (toWord? Dialect.all Dialect.name)

/-- The settings of a document. -/
def decode? : Decoder Settings := fun d => do
  let f ← d.open? ["generator", "parser"]
  return {
    layout := ← f.withDefault "generator" default toLayout?
    dialect := ← f.withDefault "parser" default toDialect? }

/-- The settings of a stored text. -/
def read? (s : String) : Option Settings := (Toml.read? s).bind decode?

/-- The text in which settings are stored. -/
def write (s : Settings) : String :=
  "\n".intercalate
    ["[generator]", "pretty = " ++ toString s.layout.pretty,
     "indent = " ++ toString s.layout.indent, "", "[parser]",
     "dialect = \"" ++ s.dialect.name ++ "\""]

end Settings

end QueryCanvas
