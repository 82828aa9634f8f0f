import QueryCanvas.Data.Json
import QueryCanvas.NameMap
import QueryCanvas.Text.Case

/-!
# Catalogs of known tables

A catalog knows tables and their declared columns.  It is used to list chosen columns in declared
order and to find the table of a column that is written without one.
-/

set_option autoImplicit false

namespace QueryCanvas

/-- The known tables with their declared columns. -/
structure Catalog where
  tables : NameMap (List String)
deriving DecidableEq, Inhabited

namespace Catalog

def empty : Catalog := ⟨.empty⟩

/-- Adds a table, in place of an earlier one of that very name. -/
def insert (c : Catalog) (name : String) (columns : List String) : Catalog :=
  ⟨c.tables.insert name columns⟩

/-- The columns of a table: the one of that very name, else the first one of that name in another
case. -/
def columns? (c : Catalog) (name : String) : Option (List String) :=
  (c.tables.find? name).or
    ((c.tables.entries.find? fun entry => Text.sameName entry.1 name).map (·.2))

/-- The columns of a table, none if it is not known. -/
def columns (c : Catalog) (name : String) : List String := (c.columns? name).getD []

/-- The catalog of a document: a record with the columns of each table. -/
def decode? : Data → Option Catalog
  | .record fields => do
    let tables ← fields.mapM fun field => do return (field.1, ← field.2.toList? Data.toText?)
    return ⟨NameMap.ofList tables⟩
  | _ => none

/-- The catalog of a stored text. -/
def read? (s : String) : Option Catalog := (Json.read? s).bind decode?

end Catalog

end QueryCanvas
