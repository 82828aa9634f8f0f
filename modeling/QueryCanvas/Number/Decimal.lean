import QueryCanvas.Number.Double

/-!
# Decimal numerals

A decimal numeral is a sign, a whole number and a power of ten.  Here are the numerals as written
text, their conversion to the nearest double, the shortest numeral that reads back as a given
double, and the layouts in which such a numeral is written.
-/

set_option autoImplicit false

namespace QueryCanvas

/-- The number `± digits * 10 ^ exponent`. -/
structure Decimal where
  negative : Bool
  digits : Nat
  exponent : Int
deriving DecidableEq, Repr

namespace Decimal

/-- The number of a run of decimal digits. -/
def digitsValue (cs : List Char) : Nat :=
  cs.foldl (fun n c => n * 10 + (c.toNat - '0'.toNat)) 0

/-- The double nearest to a numeral, or none beyond the finite range.  Numerals far outside the
range are decided from their length, so that no large power is ever taken. -/
def toDouble? (d : Decimal) : Option Double :=
  let length : Int := (Nat.toDigits 10 d.digits).length
  if d.digits = 0 then some (Double.zero.withSign d.negative)
  else if length + d.exponent > 310 then none
  else if length + d.exponent < -400 then some (Double.zero.withSign d.negative)
  else
    Double.ofRatio? d.negative (d.digits * Nat.pow 10 d.exponent.toNat)
      (Nat.pow 10 (-d.exponent).toNat)

/-- The exponent part of a numeral, or the empty text; none if neither. -/
def readExponent? : List Char → Option Int
  | [] => some 0
  | c :: rest =>
    if c == 'e' || c == 'E' then
      let (sign, ds) := match rest with
        | '-' :: ds => ((-1 : Int), ds)
        | '+' :: ds => (1, ds)
        | ds => (1, ds)
      if ds.isEmpty || !ds.all Char.isDigit then none else some (sign * digitsValue ds)
    else none

/-- The same number without zeros at the end of its digits. -/
def trimZeros (d : Decimal) : Decimal :=
  let zeros := ((Nat.toDigits 10 d.digits).reverse.takeWhile (· == '0')).length
  if d.digits = 0 then d
  else { d with digits := d.digits / Nat.pow 10 zeros, exponent := d.exponent + zeros }

/-- Reads a whole text as a numeral: an optional sign, digits with at most one point among or at
either end of them, and an optional exponent.  At least one digit stands before the exponent. -/
def read? (cs : List Char) : Option Decimal :=
  let (negative, cs) := match cs with
    | '-' :: rest => (true, rest)
    | '+' :: rest => (false, rest)
    | rest => (false, rest)
  let whole := cs.takeWhile Char.isDigit
  let rest := cs.dropWhile Char.isDigit
  let (fraction, rest) := match rest with
    | '.' :: tail => (tail.takeWhile Char.isDigit, tail.dropWhile Char.isDigit)
    | _ => ([], rest)
  if whole.isEmpty && fraction.isEmpty then none
  else
    (readExponent? rest).map fun e =>
      { negative := negative
        digits := digitsValue (whole ++ fraction)
        exponent := e - fraction.length }

end Decimal

namespace Double

/-- The largest `k` with `10 ^ k ≤ n / d`, for positive `n` and `d`; found upwards from a power
that the binary logarithm shows to be too small. -/
def floorLog10 (n d : Nat) : Int :=
  let low : Int := (floorLog2 n d * 30103).fdiv 100000 - 1
  let fits (k : Int) : Bool := d * Nat.pow 10 k.toNat ≤ n * Nat.pow 10 (-k).toNat
  if fits (low + 2) then low + 2 else if fits (low + 1) then low + 1 else low

/-- Of the two numerals with the given power of ten that enclose the magnitude, the one that reads
back as the same double: if both do the nearer one, and the even one of two equally near. -/
def candidate? (d : Double) (e : Int) : Option Decimal :=
  let n := d.num * Nat.pow 10 (-e).toNat
  let m := d.den * Nat.pow 10 e.toNat
  let low : Decimal := { negative := d.negative, digits := n / m, exponent := e }
  let high : Decimal := { low with digits := n / m + 1 }
  let nearer := if 2 * (n % m) < m || (2 * (n % m) = m && (n / m) % 2 = 0) then (low, high)
    else (high, low)
  if nearer.1.toDouble? = some d then some nearer.1
  else if nearer.2.toDouble? = some d then some nearer.2
  else none

/-- The numeral with the fewest digits that reads back as this double, and among those the one
nearest to it. -/
def shortest (d : Double) : Decimal :=
  if d.isZero then { negative := d.negative, digits := 0, exponent := 0 }
  else
    let top := floorLog10 d.num d.den
    let exact : Decimal :=
      { negative := d.negative, digits := d.num * Nat.pow 5 (-d.exponent).toNat
        exponent := -((-d.exponent).toNat : Int) }
    let found := (List.range 17).findSome? fun (i : Nat) => d.candidate? (top - (i : Int))
    (found.getD exact).trimZeros

end Double

/-- How a numeral is written. -/
structure NumberLayout where
  /-- At most so many places before the point are written out; more call for an exponent. -/
  wholePlaces : Option Nat
  /-- At most so many zeros are written between the point and the first digit. -/
  leadingZeros : Option Nat
  /-- A whole number written out ends in a point and a zero. -/
  pointZero : Bool

namespace Decimal

/-- Writes a numeral in a layout.  `places` is the number of digits before the point, negative if
zeros follow the point first. -/
def write (layout : NumberLayout) (d : Decimal) : String :=
  let sign := if d.negative then "-" else ""
  let ds := Nat.toDigits 10 d.digits
  let places : Int := ds.length + d.exponent
  let zeros (n : Int) : List Char := List.replicate n.toNat '0'
  let within (bound : Option Nat) (n : Int) : Bool := bound.all fun b => n ≤ b
  let body : List Char :=
    if 0 ≤ d.exponent && within layout.wholePlaces places then
      ds ++ zeros d.exponent ++ (if layout.pointZero then ['.', '0'] else [])
    else if 0 < places && d.exponent < 0 && within layout.wholePlaces places then
      ds.take places.toNat ++ '.' :: ds.drop places.toNat
    else if places ≤ 0 && within layout.leadingZeros (-places) then
      ['0', '.'] ++ zeros (-places) ++ ds
    else
      let fraction := ds.drop 1
      ds.take 1 ++ (if fraction.isEmpty then [] else '.' :: fraction)
        ++ 'e' :: (toString (places - 1)).toList
  sign ++ String.ofList body

end Decimal

end QueryCanvas
