import QueryCanvas.Number.Double

/-!
# Documents as data

Saved canvases, catalogs, lessons and settings are documents.  Read from JSON or TOML, a document is
a tree of values, and the things stored in it are decoded from that tree: a record by the names of
its fields or, as a list, by their order.  A field that nobody asks for is passed over.
-/

set_option autoImplicit false

namespace QueryCanvas

/-- A tree of values. -/
inductive Data where
  | null
  | bool (b : Bool)
  /-- A number written as a whole number. -/
  | whole (n : Int)
  | double (d : Double)
  | text (s : String)
  | list (items : List Data)
  | record (fields : List (String × Data))
  /-- A well-formed value that no field of ours can hold, such as a number beyond the doubles, a
  text with half a surrogate pair, or a date. -/
  | unusable
deriving Inhabited

namespace Data

universe u

variable {α : Type u}

/-- A reader of a value from a tree. -/
abbrev Decoder (α : Type u) := Data → Option α

/-- The fields of a record, opened for reading by name. -/
abbrev Fields := String → Option Data

/-- Opens a record with the given field names.  As a list it holds the fields in that order, with
any missing at the end.  As a record it may hold other fields too, but none of these twice. -/
def open? (names : List String) : Data → Option Fields
  | record fields =>
    let known := fields.filter fun f => names.contains f.1
    if (known.map (·.1)).Nodup then some fun name => (known.find? (·.1 = name)).map (·.2)
    else none
  | list items =>
    if items.length ≤ names.length then
      some fun name => ((names.zip items).find? (·.1 = name)).map (·.2)
    else none
  | _ => none

/-- A field that has to be there. -/
def Fields.required (fields : Fields) (name : String) (decode : Decoder α) : Option α :=
  (fields name).bind decode

/-- A field with a value of its own where it is not there. -/
def Fields.withDefault (fields : Fields) (name : String) (value : α) (decode : Decoder α) :
    Option α :=
  match fields name with
  | some data => decode data
  | none => some value

/-- A field that may be absent or null. -/
def Fields.maybe (fields : Fields) (name : String) (decode : Decoder α) : Option (Option α) :=
  match fields name with
  | some null | none => some none
  | some data => (decode data).map some

def toText? : Decoder String
  | text s => some s
  | _ => none

def toBool? : Decoder Bool
  | bool b => some b
  | _ => none

/-- A natural number up to a bound. -/
def toNat? (bound : Nat) : Decoder Nat
  | whole (.ofNat n) => if n ≤ bound then some n else none
  | _ => none

/-- A double; a whole number stands for the double nearest to it. -/
def toDouble? : Decoder Double
  | double d => some d
  | whole n => Double.ofRatio? (n < 0) n.natAbs 1
  | _ => none

/-- A list, member by member. -/
def toList? (decode : Decoder α) : Decoder (List α)
  | list items => items.mapM decode
  | _ => none

/-- A pair, written as a list of two members. -/
def toPair? {β : Type u} (first : Decoder α) (second : Decoder β) : Decoder (α × β)
  | list [a, b] => do return (← first a, ← second b)
  | _ => none

/-- A member of a fixed vocabulary, by its word.  The word may also be the only field of a record,
with nothing in it. -/
def toWord? (all : List α) (word : α → String) : Decoder α
  | text s => all.find? fun a => word a = s
  | record [(s, null)] => all.find? fun a => word a = s
  | _ => none

/-- Whether no part of a tree is unusable. -/
def isUsable : Data → Bool
  | unusable => false
  | list items => areUsable items
  | record fields => fieldsUsable fields
  | _ => true
where
  areUsable : List Data → Bool
    | [] => true
    | d :: rest => isUsable d && areUsable rest
  fieldsUsable : List (String × Data) → Bool
    | [] => true
    | (_, d) :: rest => isUsable d && fieldsUsable rest

/-- A value that may be null, as data. -/
def ofMaybe (encode : α → Data) : Option α → Data
  | some a => encode a
  | none => null

end Data

end QueryCanvas
