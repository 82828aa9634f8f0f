/-!
# Finite doubles

Coordinates on the canvas are finite binary64 numbers.  The non-negative ones, taken in increasing
order, are numbered from zero without a gap, so a double is held as its sign and its *rank* in
that order: ranks below `2 ^ 52` are the subnormal numbers, and each further block of `2 ^ 52`
ranks is one binade.  Two doubles are equal exactly if they are the same number with the same sign
of zero, and rounding a ratio is a calculation on natural numbers.
-/

set_option autoImplicit false

namespace QueryCanvas

/-- A finite binary64 number: its sign and its rank among the non-negative ones. -/
structure Double where
  negative : Bool
  rank : Nat
  finite : rank < 0x7ff0000000000000 := by decide
deriving DecidableEq, Repr

namespace Double

/-- The positive zero. -/
def zero : Double := { negative := false, rank := 0 }

instance : Inhabited Double := ⟨zero⟩

/-- The whole number that, scaled by `2 ^ exponent`, is the magnitude. -/
def significand (d : Double) : Nat :=
  if d.rank < Nat.pow 2 52 then d.rank else Nat.pow 2 52 + d.rank % Nat.pow 2 52

/-- The power of two that scales `significand`. -/
def exponent (d : Double) : Int :=
  if d.rank < Nat.pow 2 52 then -1074 else (d.rank / Nat.pow 2 52 : Nat) - 1075

/-- Numerator of the magnitude as a ratio over `den`. -/
def num (d : Double) : Nat := d.significand * Nat.pow 2 d.exponent.toNat

/-- Denominator of the magnitude as a ratio, a power of two. -/
def den (d : Double) : Nat := Nat.pow 2 (-d.exponent).toNat

def isZero (d : Double) : Bool := d.rank == 0

/-- The same magnitude with the given sign. -/
def withSign (negative : Bool) (d : Double) : Double := { d with negative := negative }

/-- The quotient rounded to a whole number; a tie goes to the even neighbour. -/
def divHalfEven (n d : Nat) : Nat :=
  let q := n / d
  let r := n % d
  if 2 * r < d then q else if 2 * r = d then q + q % 2 else q + 1

/-- The largest `k` with `2 ^ k ≤ n / d`, for positive `n` and `d`. -/
def floorLog2 (n d : Nat) : Int :=
  let k : Int := (n.log2 : Int) - (d.log2 : Int)
  if d * Nat.pow 2 k.toNat ≤ n * Nat.pow 2 (-k).toNat then k else k - 1

/-- The double nearest to `n / d`, a tie going to the even significand; none if that is beyond the
finite range.  The scale is the binade of the quotient, or that of the subnormal numbers. -/
def ofRatio? (negative : Bool) (n d : Nat) : Option Double :=
  if n = 0 then some { negative := negative, rank := 0 }
  else
    let q : Int := max (floorLog2 n d - 52) (-1074)
    let m := divHalfEven (n * Nat.pow 2 (-q).toNat) (d * Nat.pow 2 q.toNat)
    let rank := m + (q + 1074).toNat * Nat.pow 2 52
    if h : rank < 0x7ff0000000000000 then some { negative := negative, rank := rank, finite := h }
    else none

/-- The double nearest to a natural number. -/
def ofNat? (n : Nat) : Option Double := ofRatio? false n 1

/-- The product, rounded once. -/
def mul? (a b : Double) : Option Double :=
  ofRatio? (a.negative != b.negative) (a.num * b.num) (a.den * b.den)

/-- The quotient by a number other than zero, rounded once. -/
def div? (a b : Double) : Option Double :=
  ofRatio? (a.negative != b.negative) (a.num * b.den) (a.den * b.num)

end Double

end QueryCanvas
