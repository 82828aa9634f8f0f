/-!
# Identifiers of entities

Everything drawn on the canvas has an identifier, an opaque text.  New identifiers come from a
counter that an editing run carries along: the identifier of a serial number has the form of a
UUID, and different serial numbers give different texts.
-/

set_option autoImplicit false

namespace QueryCanvas

/-- The identifier of an entity.  Only its equality with other identifiers means anything. -/
structure EntityId where
  text : String
deriving DecidableEq, Repr, Inhabited

namespace EntityId

/-- Hexadecimal digits of a number, at least twelve of them. -/
def serialDigits (n : Nat) : List Char :=
  let ds := Nat.toDigits 16 n
  List.replicate (12 - ds.length) '0' ++ ds

/-- The identifier of a serial number. -/
def minted (n : Nat) : EntityId :=
  ⟨"7a61d0c4-51e8-4b3f-9c06-" ++ String.ofList (serialDigits n)⟩

end EntityId

/-- A computation that may use new identifiers; the state is the next serial number. -/
abbrev Fresh := StateM Nat

/-- A new identifier. -/
def Fresh.mint : Fresh EntityId := fun n => (EntityId.minted n, n + 1)

end QueryCanvas
