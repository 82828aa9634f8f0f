import QueryCanvas.Data.Basic
import QueryCanvas.Number.Decimal

/-!
# Reading JSON

A reader of JSON documents.  Numbers without point and exponent that fit in 64 bits are whole
numbers.  Any other number is a double, found in a fixed way: the digits that fit in 64 bits are
rounded to a double, which is then multiplied or divided by one power of ten.
-/

set_option autoImplicit false

namespace QueryCanvas.Json

/-- A reader of something at the beginning of a text; it gives what it read and the rest. -/
abbrev Reader (α : Type) := List Char → Option (α × List Char)

def isSpace (c : Char) : Bool := c == ' ' || c == '\n' || c == '\t' || c == '\r'

def skipSpace (cs : List Char) : List Char := cs.dropWhile isSpace

/-- The value of a hexadecimal digit. -/
def hexDigit? (c : Char) : Option Nat :=
  if c.isDigit then some (c.toNat - '0'.toNat)
  else if 'a' ≤ c && c ≤ 'f' then some (c.toNat - 'a'.toNat + 10)
  else if 'A' ≤ c && c ≤ 'F' then some (c.toNat - 'A'.toNat + 10)
  else none

/-- The value of four hexadecimal digits. -/
def hex4? (a b c d : Char) : Option Nat := do
  return ((← hexDigit? a) * 16 + (← hexDigit? b)) * 256 + (← hexDigit? c) * 16 + (← hexDigit? d)

/-- The character of a one-letter escape. -/
def shortEscape? : Char → Option Char
  | '"' => some '"'
  | '\\' => some '\\'
  | '/' => some '/'
  | 'b' => some '\x08'
  | 'f' => some '\x0c'
  | 'n' => some '\n'
  | 'r' => some '\r'
  | 't' => some '\t'
  | _ => none

def isHighSurrogate (n : Nat) : Bool := 0xd800 ≤ n && n < 0xdc00

def isLowSurrogate (n : Nat) : Bool := 0xdc00 ≤ n && n < 0xe000

/-- The second half of a surrogate pair, written as an escape, and the rest. -/
def lowSurrogate? : Reader Nat
  | '\\' :: 'u' :: a :: b :: c :: d :: rest =>
    ((hex4? a b c d).filter isLowSurrogate).map (·, rest)
  | _ => none

theorem lowSurrogate?_length {cs rest : List Char} {n : Nat}
    (h : lowSurrogate? cs = some (n, rest)) : rest.length < cs.length := by
  unfold lowSurrogate? at h
  split at h
  · simp only [Option.map_eq_some_iff, Prod.mk.injEq] at h
    obtain ⟨_, _, _, rfl⟩ := h
    simp only [List.length_cons]
    omega
  · cases h

/-- A character read from the inside of a text, or a half of a surrogate pair that stands alone, and
the rest; nothing where the text is badly written. -/
def textChar? : Reader (Option Char)
  | [] => none
  | '\\' :: 'u' :: a :: b :: c :: d :: rest =>
    (hex4? a b c d).map fun n =>
      if isHighSurrogate n then
        match lowSurrogate? rest with
        | some (m, rest) =>
          (some (Char.ofNat (0x10000 + (n - 0xd800) * 0x400 + (m - 0xdc00))), rest)
        | none => (none, rest)
      else if isLowSurrogate n then (none, rest)
      else (some (Char.ofNat n), rest)
  | '\\' :: e :: rest => (shortEscape? e).map fun c => (some c, rest)
  | c :: rest => if c == '\\' || c.toNat < 0x20 then none else some (some c, rest)

theorem textChar?_length {cs rest : List Char} {c : Option Char}
    (h : textChar? cs = some (c, rest)) : rest.length < cs.length := by
  unfold textChar? at h
  split at h
  · cases h
  · obtain ⟨n, _, h⟩ := Option.map_eq_some_iff.mp h
    split at h
    · split at h
      · next hl =>
        have := lowSurrogate?_length hl
        cases h
        simp only [List.length_cons]
        omega
      · cases h
        simp only [List.length_cons]
        omega
    · split at h <;> cases h <;> simp only [List.length_cons] <;> omega
  · obtain ⟨_, _, h⟩ := Option.map_eq_some_iff.mp h
    cases h
    simp only [List.length_cons]
    omega
  · split at h
    · cases h
    · cases h
      simp

/-- Reads a text from after its opening quote.  The text is none if it holds half a surrogate
pair. -/
def textBody? (cs : List Char) : Option (Option (List Char) × List Char) :=
  match cs with
  | '"' :: rest => some (some [], rest)
  | cs =>
    match _h : textChar? cs with
    | none => none
    | some (c, rest) =>
      (textBody? rest).map fun r => ((c.bind fun c => r.1.map (c :: ·)), r.2)
termination_by cs.length
decreasing_by exact textChar?_length _h

/-- Keeps digits in front as long as the number of the kept ones fits in 64 bits: that number and
how many were kept. -/
def keepDigits : Nat → List Char → Nat × Nat
  | n, [] => (n, 0)
  | n, c :: cs =>
    let next := n * 10 + (c.toNat - '0'.toNat)
    if next < UInt64.size then
      let (m, k) := keepDigits next cs
      (m, k + 1)
    else (n, 0)

/-- The double nearest to a power of ten. -/
def tenTo (k : Nat) : Double := (Double.ofRatio? false (Nat.pow 10 k) 1).getD .zero

/-- Divides by a power of ten, in steps of at most 308 places. -/
def scaleDown (d : Double) (k : Nat) : Option Double :=
  if k ≤ 308 then d.div? (tenTo k)
  else if d.isZero then some d
  else (d.div? (tenTo 308)).bind fun d => scaleDown d (k - 308)
termination_by k

/-- Multiplies a number that fits in 64 bits by a power of ten. -/
def scaled? (n : Nat) (exponent : Int) : Option Double :=
  (Double.ofNat? n).bind fun d =>
    match exponent with
    | .negSucc k => scaleDown d (k + 1)
    | .ofNat k => if d.isZero then some d else if k ≤ 308 then d.mul? (tenTo k) else none

/-- The value of a number from its parts: sign, digits before and after the point, and the
exponent, if it has a point or an exponent. -/
def numberValue (negative : Bool) (whole fraction : List Char) (exponent : Option Int) : Data :=
  let n := Decimal.digitsValue whole
  let (kept, count) := keepDigits 0 whole
  let (digits, extra) := keepDigits kept fraction
  let places : Int := (whole.length - count : Nat) - (extra : Int)
  let asDouble : Data :=
    match scaled? digits (places + exponent.getD 0) with
    | some d => .double (d.withSign negative)
    | none => .unusable
  if exponent.isSome || !fraction.isEmpty then asDouble
  else if !negative && n < UInt64.size then .whole n
  else if negative && 0 < n && n ≤ Nat.pow 2 63 then .whole (-n)
  else asDouble

/-- Reads a number. -/
def number? (cs : List Char) : Option (Data × List Char) :=
  let (negative, cs) := match cs with
    | '-' :: rest => (true, rest)
    | rest => (false, rest)
  let whole := cs.takeWhile Char.isDigit
  let cs := cs.dropWhile Char.isDigit
  let (point, fraction, cs) := match cs with
    | '.' :: rest => (true, rest.takeWhile Char.isDigit, rest.dropWhile Char.isDigit)
    | rest => (false, [], rest)
  let (mark, sign, cs) := match cs with
    | 'e' :: '-' :: rest | 'E' :: '-' :: rest => (true, (-1 : Int), rest)
    | 'e' :: '+' :: rest | 'E' :: '+' :: rest => (true, 1, rest)
    | 'e' :: rest | 'E' :: rest => (true, 1, rest)
    | rest => (false, 1, rest)
  let power := if mark then cs.takeWhile Char.isDigit else []
  let cs := if mark then cs.dropWhile Char.isDigit else cs
  if whole.isEmpty || (whole.head? = some '0' && whole.length ≠ 1) then none
  else if point && fraction.isEmpty then none
  else if mark && power.isEmpty then none
  else
    let exponent := if mark then some (sign * Decimal.digitsValue power) else none
    some (numberValue negative whole fraction exponent, cs)

/-- Reads members separated by commas, up to and with the closing mark.  The first argument bounds
their number. -/
def members? {α : Type} (member : Reader α) (close : Char) : Nat → List Char →
    Option (List α × List Char)
  | 0, _ => none
  | n + 1, cs =>
    match member (skipSpace cs) with
    | none => none
    | some (a, rest) =>
      match skipSpace rest with
      | ',' :: rest => (members? member close n rest).map fun r => (a :: r.1, r.2)
      | c :: rest => if c == close then some ([a], rest) else none
      | [] => none

/-- Reads members after an opening mark; there may be none. -/
def enclosed? {α : Type} (member : Reader α) (close : Char) (cs : List Char) :
    Option (List α × List Char) :=
  match skipSpace cs with
  | c :: rest => if c == close then some ([], rest) else members? member close (rest.length + 1) cs
  | [] => none

/-- Reads a field of a record. -/
def field? (value : Reader Data) : List Char → Option ((String × Data) × List Char)
  | '"' :: cs =>
    match textBody? cs with
    | some (some name, rest) =>
      match skipSpace rest with
      | ':' :: rest => (value (skipSpace rest)).map fun r => ((String.ofList name, r.1), r.2)
      | _ => none
    | _ => none
  | _ => none

/-- Reads a value.  Lists and records that nest deeper than `depth` are well-formed but of no use;
`room` bounds how deep they can nest at all. -/
def value? (depth room : Nat) : Reader Data
  | '"' :: cs =>
    (textBody? cs).map fun r =>
      (match r.1 with
        | some s => .text (String.ofList s)
        | none => .unusable, r.2)
  | 't' :: 'r' :: 'u' :: 'e' :: rest => some (.bool true, rest)
  | 'f' :: 'a' :: 'l' :: 's' :: 'e' :: rest => some (.bool false, rest)
  | 'n' :: 'u' :: 'l' :: 'l' :: rest => some (.null, rest)
  | '[' :: cs =>
    match room with
    | 0 => none
    | room + 1 =>
      (enclosed? (value? (depth - 1) room) ']' cs).map fun r =>
        (if depth = 0 then .unusable else .list r.1, r.2)
  | '{' :: cs =>
    match room with
    | 0 => none
    | room + 1 =>
      (enclosed? (field? (value? (depth - 1) room)) '}' cs).map fun r =>
        (if depth = 0 then .unusable else .record r.1, r.2)
  | cs => number? cs
termination_by room

/-- The most lists and records that may nest in the parts of a document that are used. -/
def maxDepth : Nat := 127

/-- Reads a whole document whose used parts nest at most `depth` lists and records. -/
def readWithin? (depth : Nat) (s : String) : Option Data :=
  match value? depth s.length (skipSpace s.toList) with
  | some (data, rest) => if (skipSpace rest).isEmpty then some data else none
  | none => none

/-- Reads a whole document. -/
def read? (s : String) : Option Data := readWithin? maxDepth s

end QueryCanvas.Json
