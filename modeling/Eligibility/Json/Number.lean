import Eligibility.Binary64.Text

/-!
# Number — the doubles of numerals in documents

The digits of a numeral make up an integer as long as it fits into 64 bits.  Further digits before
the point count as zeros, further digits after the point do not count.  The integer is rounded to a
double, and so is its product or quotient with a power of ten, so that a long numeral need not
denote the double that is nearest to it.

* `Json.absorb` — the integer of some digits, and the digits that are left over;
* `Json.scale?` — an integer times a power of ten;
* `Json.numeralValue?` — the double that a numeral denotes, if it is in range.
-/

namespace Eligibility
namespace Json

/-- The greatest integer that keeps its digits: `2 ^ 64 - 1`. -/
def maxSignificand : Nat :=
  18446744073709551615

/-- Appends digits to an integer as long as it keeps them all; the rest is left over. -/
def absorb (significand : Nat) : List Nat → Nat × List Nat
  | [] => (significand, [])
  | d :: ds =>
    if significand * 10 + d ≤ maxSignificand then absorb (significand * 10 + d) ds
    else (significand, d :: ds)

/-- The greatest power of ten among the doubles. -/
def maxPower : Nat :=
  308

/-- A positive double divided by `10 ^ power`, in steps that are powers of ten themselves. -/
def shrink (x : Binary64) (power : Nat) : Binary64 :=
  if power ≤ maxPower then x.divAbs (.pow10 power)
  else if x.isZero then x
  else shrink (x.divAbs (.pow10 maxPower)) (power - maxPower)
termination_by power
decreasing_by simp only [maxPower] at *; omega

/-- The double `significand * 10 ^ exponent`, unless it is out of range. -/
def scale? (significand : Nat) (exponent : Int) : Option Binary64 :=
  if significand = 0 then some .zero
  else if exponent < 0 then some (shrink (.ofNat significand) exponent.natAbs)
  else if maxPower < exponent.natAbs then none
  else (some ((Binary64.ofNat significand).mulAbs (.pow10 exponent.natAbs))).filter
    Binary64.isFinite

/-- The double that a numeral denotes, unless it is out of range. -/
def numeralValue? (numeral : Numeral) : Option Binary64 :=
  let (whole, uncounted) := absorb 0 numeral.whole
  let (significand, ignored) := absorb whole numeral.fraction
  let places : Int := (numeral.fraction.length : Int) - ignored.length
  (scale? significand (numeral.exponent + uncounted.length - places)).map fun x =>
    x.withSign numeral.negative

end Json
end Eligibility
