import Eligibility.Binary64.Basic

/-!
# Shortest — the fewest digits that read back

A finite number is written with the fewest significant digits whose decimal value rounds to it,
and among those with the digits nearest to it, a tie upwards.

* `Binary64.Shortest.digits?` — the candidate with a given number of digits;
* `Binary64.Shortest.decimal` — the first candidate;
* `Binary64.toText` — the written form: always positional, no point without a fraction.
-/

namespace Eligibility
namespace Binary64
namespace Shortest

/-- The reals that round to a number, as twice their multiple of the least positive double: the
midpoints to both neighbours.  The ends belong to the interval of an even position. -/
structure Interval where
  low : Nat
  value : Nat
  high : Nat
  closed : Bool

def interval (magnitude : Nat) : Interval where
  low := units (magnitude - 1) + units magnitude
  value := 2 * units magnitude
  high := units magnitude + units (magnitude + 1)
  closed := magnitude % 2 == 0

/-- Does `num / den` lie in the interval? -/
def Interval.contains (i : Interval) (num den : Nat) : Bool :=
  if i.closed then i.low * den ≤ num && num ≤ i.high * den
  else i.low * den < num && num < i.high * den

/-- The multiple of `10 ^ exponent` next to the number, below or above, that lies in the interval;
of two the nearer, a tie upwards. -/
def digits? (i : Interval) (exponent : Int) : Option Nat :=
  -- the grid point `d` is `d * step / den` on the scale of the interval
  let step := 2 * finest * Nat.pow 10 exponent.toNat
  let den := Nat.pow 10 (-exponent).toNat
  let below := i.value * den / step
  let above := below + 1
  match i.contains (below * step) den, i.contains (above * step) den with
  | false, false => none
  | true, false => some below
  | false, true => some above
  | true, true =>
    if i.value * den - below * step < above * step - i.value * den then some below else some above

/-- The least `k` with `value < 10 ^ k`, found from a start that is not above it. -/
def leadingPower (i : Interval) : Nat → Int → Int
  | 0, k => k
  | fuel + 1, k =>
    if i.value * Nat.pow 10 (-k).toNat < 2 * finest * Nat.pow 10 k.toNat then k
    else leadingPower i fuel (k + 1)

/-- The first digit count from `17 - fuel` on with a candidate. -/
def search (i : Interval) (leading : Int) : Nat → Nat × Int
  | 0 => (i.value / (2 * finest), 0)
  | fuel + 1 =>
    let exponent := leading - (17 - fuel)
    match digits? i exponent with
    | some d => (d, exponent)
    | none => search i leading fuel

/-- The shortest decimal `d * 10 ^ exponent` that rounds to the number at a finite, non-zero
position. -/
def decimal (magnitude : Nat) : Nat × Int :=
  let i := interval magnitude
  -- `3 / 10` lies below the decimal logarithm of two, and `9 / 10 ^ 4` is more than the difference
  let power : Int := (Nat.log2 (units magnitude) : Int) - 1074
  let start := power * 3 / 10 - 1
  search i (leadingPower i 20 start) 17

/-- Digits and a power of ten written out positionally. -/
def positional (digits : List Char) (exponent : Int) : List Char :=
  if 0 ≤ exponent then digits ++ List.replicate exponent.toNat '0'
  else
    let places := exponent.natAbs
    let padded := List.replicate (places + 1 - digits.length) '0' ++ digits
    let point := padded.length - places
    padded.take point ++ '.' :: padded.drop point

end Shortest

/-- The written form of an absolute value. -/
def magnitudeText (magnitude : Nat) : List Char :=
  if magnitude = 0 then ['0']
  else
    let (significand, exponent) := Shortest.decimal magnitude
    let digits := Nat.toDigits 10 significand
    -- a candidate that was rounded up to a power of ten ends in zeros
    let kept := (digits.reverse.dropWhile (· == '0')).reverse
    Shortest.positional kept (exponent + (digits.length - kept.length))

/-- The written form of a number. -/
def toText (x : Binary64) : String :=
  if x.isNaN then "NaN"
  else
    let text := if x.isInfinite then "inf".toList else magnitudeText x.magnitude
    String.ofList (if x.negative then '-' :: text else text)

end Binary64
end Eligibility
