/-!
# Binary64 — double precision numbers in exact arithmetic

A number is a sign and a magnitude, where the magnitude is the position of the absolute value in
the increasing list of all non-negative doubles.  Neighbours differ by one, so the order of
magnitudes is the order of absolute values, and rounding is a search for the nearest position.

* `Binary64.units` — the absolute value as a multiple of the least positive double;
* `Binary64.nearest` — a quotient of naturals rounded to the nearest double, ties to even;
* `Binary64.compare?` — the order, in which NaN has no place and both zeros are equal.
-/

namespace Eligibility

/-- A double precision number. -/
structure Binary64 where
  negative : Bool
  /-- The position among the non-negative doubles, zero first. -/
  magnitude : Nat
deriving DecidableEq, Repr

namespace Binary64

/-- How many doubles share one binary exponent: `2 ^ 52`. -/
def binade : Nat :=
  4503599627370496

/-- The position of infinity; the positions after it are not numbers. -/
def infinite : Nat :=
  2047 * binade

/-- The power of two that the least positive double is one part of. -/
def finest : Nat :=
  Nat.pow 2 1074

def zero : Binary64 :=
  ⟨false, 0⟩

def infinity : Binary64 :=
  ⟨false, infinite⟩

def nan : Binary64 :=
  ⟨false, infinite + 1⟩

def isNaN (x : Binary64) : Bool :=
  infinite < x.magnitude

def isInfinite (x : Binary64) : Bool :=
  x.magnitude == infinite

def isFinite (x : Binary64) : Bool :=
  x.magnitude < infinite

def isZero (x : Binary64) : Bool :=
  x.magnitude == 0

def neg (x : Binary64) : Binary64 :=
  ⟨!x.negative, x.magnitude⟩

/-- The number with the given sign put in front of it. -/
def withSign (negative : Bool) (x : Binary64) : Binary64 :=
  if negative then x.neg else x

/-! ## Order -/

/-- The position on the line that runs through both signs; both zeros stand at `0`. -/
def position (x : Binary64) : Int :=
  if x.negative then -(x.magnitude : Int) else x.magnitude

/-- The order of numbers; nothing compares with NaN. -/
def compare? (x y : Binary64) : Option Ordering :=
  if x.isNaN || y.isNaN then none else some (compare x.position y.position)

/-! ## Rounding -/

/-- The absolute value at a position, in multiples of the least positive double. -/
def units (magnitude : Nat) : Nat :=
  if magnitude < 2 * binade then magnitude
  else (magnitude % binade + binade) * Nat.pow 2 (magnitude / binade - 1)

/-- A quotient rounded to the nearest natural, a tie to the even one. -/
def roundDiv (num den : Nat) : Nat :=
  let quotient := num / den
  let twice := 2 * (num % den)
  if twice < den then quotient
  else if den < twice then quotient + 1
  else quotient + quotient % 2

/-- The position of the double nearest to `num / den`, a tie to the even one; what lies past the
largest double rounds to infinity. -/
def nearestMagnitude (num den : Nat) : Nat :=
  let scaled := num * finest
  let shift := Nat.log2 (scaled / den) - 52
  -- the leading bit of the rounded quotient counts the one binade that `shift` does not
  min infinite (shift * binade + roundDiv scaled (den * Nat.pow 2 shift))

/-- The double nearest to `num / den`. -/
def nearest (num den : Nat) : Binary64 :=
  ⟨false, nearestMagnitude num den⟩

def ofNat (n : Nat) : Binary64 :=
  nearest n 1

def ofInt (i : Int) : Binary64 :=
  withSign (decide (i < 0)) (ofNat i.natAbs)

/-- The product of the absolute values of two finite numbers, rounded. -/
def mulAbs (x y : Binary64) : Binary64 :=
  nearest (units x.magnitude * units y.magnitude) (finest * finest)

/-- The quotient of the absolute values of two finite numbers, rounded. -/
def divAbs (x y : Binary64) : Binary64 :=
  nearest (units x.magnitude) (units y.magnitude)

/-- A power of ten, rounded. -/
def pow10 (k : Nat) : Binary64 :=
  ofNat (Nat.pow 10 k)

end Binary64
end Eligibility
