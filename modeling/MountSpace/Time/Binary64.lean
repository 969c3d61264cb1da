/-!
# Binary floating-point numbers by exact arithmetic

A number is a 64-bit pattern: a sign, an eleven-bit exponent field and a 52-bit fraction field.
Every finite one is a whole multiple of 2^-1074, so its size is a natural number of such units, and
an operation is an exact computation on those numbers followed by one rounding.

- `Binary64`: the pattern, kept as it is, not-a-number patterns included.
- `magnitude`: the size of a finite number in units of 2^-1074.
- `nearest`: the pattern nearest to a quotient of units, a tie going to the even one.
- `numEq`: equality of numbers, under which zeros are equal and not-a-number equals nothing.
-/

namespace MountSpace

/-- A floating-point number as its 64-bit pattern. -/
structure Binary64 where
  bits : UInt64
  deriving DecidableEq, Repr, Inhabited

namespace Binary64

/-- How many units of 2^-1074 make one. -/
def one : Nat := 1 <<< 1074

/-- The sign bit of a pattern. -/
def signBit : Nat := 0x8000000000000000

/-- How many patterns share an exponent. -/
def fractions : Nat := 0x10000000000000

/-- The pattern without its sign. -/
def unsigned (x : Binary64) : Nat := x.bits.toNat % signBit

def isNegative (x : Binary64) : Bool := decide (signBit ≤ x.bits.toNat)

/-- The pattern of infinity; all above it are not numbers. -/
def infinity : Nat := 0x7FF * fractions

def isFinite (x : Binary64) : Bool := decide (x.unsigned < infinity)

def isNaN (x : Binary64) : Bool := decide (infinity < x.unsigned)

/-- The size of the finite number with an unsigned pattern, in units of 2^-1074. -/
def unitsOf (pattern : Nat) : Nat :=
  match pattern / fractions with
  | 0 => pattern
  | e + 1 => (fractions + pattern % fractions) <<< e

/-- The size of a finite number, in units of 2^-1074. -/
def magnitude (x : Binary64) : Nat := unitsOf x.unsigned

/-- A quotient rounded to the nearest natural number, a tie to the even one. -/
def roundToEven (num den : Nat) : Nat :=
  let q := num / den
  let r := num % den
  if 2 * r < den then q
  else if den < 2 * r then q + 1
  else q + q % 2

/-- The unsigned pattern nearest to `num / den` units, infinity past the greatest finite number.
The patterns of one exponent are consecutive, and rounding up past the last of them gives the first
of the next exponent. -/
def nearest (num den : Nat) : Nat :=
  let shift := Nat.log2 (num / den) - 52
  min infinity (shift * fractions + roundToEven num (den <<< shift))

/-- A quotient of units rounded to a number of units that is a floating-point number. -/
def rounded (num den : Nat) : Nat := unitsOf (nearest num den)

/-- The same for a dividend of either sign. -/
def roundedInt (num : Int) (den : Nat) : Int :=
  if num < 0 then -rounded num.natAbs den else rounded num.natAbs den

/-- The pattern nearest to a signed quotient of units. -/
def ofQuotient (negative : Bool) (num den : Nat) : Binary64 :=
  ⟨((if negative then signBit else 0) + nearest num den).toUInt64⟩

/-- Equality of numbers: zeros of either sign are equal, and a pattern that is no
number equals none. -/
def numEq (x y : Binary64) : Bool :=
  !x.isNaN && !y.isNaN && (x.bits == y.bits || x.unsigned == 0 && y.unsigned == 0)

end Binary64

end MountSpace
