/-!
# Dialects

The dialects of the query language.  Each has one proper name; on request a dialect is also found
by a few other names, in any case.
-/

set_option autoImplicit false

namespace QueryCanvas.Sql

/-- A dialect of the query language. -/
inductive Dialect where
  | generic | postgresql | mysql | sqlite | duckdb | mssql
deriving DecidableEq, Repr, Inhabited

namespace Dialect

def all : List Dialect := [generic, postgresql, mysql, sqlite, duckdb, mssql]

/-- The proper name of a dialect. -/
def name : Dialect → String
  | generic => "generic"
  | postgresql => "postgresql"
  | mysql => "mysql"
  | sqlite => "sqlite"
  | duckdb => "duckdb"
  | mssql => "mssql"

/-- The further names of a dialect. -/
def otherNames : Dialect → List String
  | generic => ["ansi"]
  | postgresql => ["postgres", "pg"]
  | mysql => ["mariadb"]
  | mssql => ["sqlserver"]
  | sqlite | duckdb => []

/-- The dialect of a name in any case. -/
def ofName? (s : String) : Option Dialect :=
  all.find? fun d => s.toLower ∈ d.name :: d.otherNames

/-- What is said of a name that no dialect has. -/
def unknownName (s : String) : String := "unknown SQL dialect '" ++ s.toLower ++ "'"

end Dialect

end QueryCanvas.Sql
