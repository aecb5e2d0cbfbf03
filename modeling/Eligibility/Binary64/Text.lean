import Eligibility.Binary64.Basic
import Eligibility.Numeral
import Eligibility.Text.Blank

/-!
# Text — numbers read from free decimal text

* `Binary64.ofNumeral` — the double nearest to a numeral, read exactly and rounded once;
* `Binary64.ofText?` — the accepted spellings: an optional sign, then digits with an optional
  point and exponent, or `inf`, `infinity`, `nan` in any letter case;
* `Binary64.ofLiteral?` — the numbers that rule text may hold: blank ends are dropped and the
  value has to be finite.
-/

namespace Eligibility
namespace Binary64

/-- The double nearest to a numeral.  A numeral whose leading digit lies beyond `10 ^ 310` or
whose value lies below `10 ^ -345` needs no arithmetic: it is infinite or zero. -/
def ofNumeral (numeral : Numeral) : Binary64 :=
  let significand := Numeral.ofDigits (numeral.whole ++ numeral.fraction)
  let exponent := numeral.exponent - numeral.fraction.length
  let size : Int := (Nat.toDigits 10 significand).length
  withSign numeral.negative <|
    if significand = 0 then zero
    else if 310 < size + exponent then infinity
    else if size + exponent < -345 then zero
    else if 0 ≤ exponent then nearest (significand * Nat.pow 10 exponent.toNat) 1
    else nearest significand (Nat.pow 10 exponent.natAbs)

/-- An optional sign, and whether it is a minus. -/
def readSign : List Char → Bool × List Char
  | '-' :: rest => (true, rest)
  | '+' :: rest => (false, rest)
  | cs => (false, cs)

/-- An optional fraction: a point and any number of digits. -/
def readFraction : List Char → List Nat × List Char
  | '.' :: rest => Numeral.digits rest
  | cs => ([], cs)

/-- The power of ten at the end of a numeral: nothing, or a mark, an optional sign and digits. -/
def readExponent? : List Char → Option Int
  | [] => some 0
  | mark :: rest =>
    if mark = 'e' || mark = 'E' then
      let (negative, unsigned) := readSign rest
      (Numeral.nat? unsigned).map fun n => if negative then -(n : Int) else n
    else none

/-- A decimal numeral with at least one digit on either side of the point. -/
def readNumeral? (negative : Bool) (cs : List Char) : Option Numeral :=
  let (whole, afterWhole) := Numeral.digits cs
  let (fraction, afterFraction) := readFraction afterWhole
  if whole.isEmpty && fraction.isEmpty then none
  else (readExponent? afterFraction).map fun exponent => ⟨negative, whole, fraction, exponent⟩

/-- The names of the values that have no digits, in any letter case. -/
def ofName? (cs : List Char) : Option Binary64 :=
  let name := String.ofList (cs.map Char.toLower)
  if name = "inf" || name = "infinity" then some infinity
  else if name = "nan" then some nan
  else none

/-- The number that a text spells. -/
def ofText? (cs : List Char) : Option Binary64 :=
  let (negative, unsigned) := readSign cs
  match ofName? unsigned with
  | some x => some (withSign negative x)
  | none => (readNumeral? negative unsigned).map ofNumeral

/-- The finite number that a literal spells, blank ends dropped. -/
def ofLiteral? (text : String) : Option Binary64 :=
  (ofText? (Text.trim text.toList)).filter isFinite

/-- A number read from a literal is finite. -/
theorem isFinite_of_ofLiteral? {text : String} {x : Binary64} (h : ofLiteral? text = some x) :
    x.isFinite = true := by
  simp only [ofLiteral?, Option.filter_eq_some_iff] at h
  exact h.2

end Binary64
end Eligibility
