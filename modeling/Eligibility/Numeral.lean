/-!
# Numeral — decimal numbers as they are written

A numeral keeps the digits of a written number apart from any rounding:

* `Numeral`, the sign, the digits on both sides of the point and the power of ten;
* `Numeral.digits`, the digits at the head of a text;
* `Numeral.ofDigits`, the number that a list of digits stands for.
-/

namespace Eligibility

/-- A decimal number as written: `± whole . fraction × 10 ^ exponent`. -/
structure Numeral where
  negative : Bool
  whole : List Nat
  fraction : List Nat
  exponent : Int
deriving DecidableEq, Repr

namespace Numeral

/-- The digit that a character shows. -/
def digit (c : Char) : Nat :=
  c.toNat - '0'.toNat

/-- The digits at the head of a text, and what follows them. -/
def digits (cs : List Char) : List Nat × List Char :=
  ((cs.takeWhile Char.isDigit).map digit, cs.dropWhile Char.isDigit)

/-- The number that a list of digits stands for, most significant digit first. -/
def ofDigits (ds : List Nat) : Nat :=
  ds.foldl (fun n d => 10 * n + d) 0

/-- The number that the digits of a text stand for, when it has nothing but digits and at least
one of them. -/
def nat? (cs : List Char) : Option Nat :=
  match digits cs with
  | ([], _) => none
  | (ds, []) => some (ofDigits ds)
  | (_, _ :: _) => none

end Numeral
end Eligibility
