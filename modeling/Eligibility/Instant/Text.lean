import Eligibility.Instant.Basic
import Eligibility.Numeral
import Eligibility.Text.Blank

/-!
# Text — instants as text

* `Instant.text` — the written form `year-month-dayThour:minute:secondZ`, with as few groups of
  three digits of a fraction as are exact;
* `Instant.ofText?` — the instant of a text.  Blanks may stand before every number and every mark,
  parts may have one digit, a blank may stand for the `T`, and the text ends with `Z`, `UTC` or an
  offset.
-/

namespace Eligibility
namespace Instant

/-! ## Writing -/

/-- The last `width` digits of a number. -/
def padded : Nat → Nat → List Char
  | 0, _ => []
  | width + 1, n => padded width (n / 10) ++ [Nat.digitChar (n % 10)]

/-- A year has four digits; one that needs more or lies before year 0 has a sign. -/
def yearText (year : Int) : List Char :=
  if 0 ≤ year ∧ year ≤ 9999 then padded 4 year.toNat
  else
    let digits := Nat.toDigits 10 year.natAbs
    (if year < 0 then '-' else '+') :: (List.replicate (4 - digits.length) '0' ++ digits)

/-- A fraction of a second in nanoseconds. -/
def fractionText (nano : Nat) : List Char :=
  if nano = 0 then []
  else if nano % 1000000 = 0 then '.' :: padded 3 (nano / 1000000)
  else if nano % 1000 = 0 then '.' :: padded 6 (nano / 1000)
  else '.' :: padded 9 nano

/-- The written form of an instant. -/
def chars (i : Instant) : List Char :=
  yearText i.year ++ '-' :: padded 2 i.month ++ '-' :: padded 2 i.day ++
    'T' :: padded 2 i.hour ++ ':' :: padded 2 i.minute ++ ':' :: padded 2 i.second ++
    fractionText i.nano ++ ['Z']

/-- The written form of an instant. -/
def text (i : Instant) : String :=
  String.ofList i.chars

/-! ## Reading -/

def skipBlanks (cs : List Char) : List Char :=
  cs.dropWhile Text.isBlank

/-- The number that a list of digits shows. -/
def value (digits : List Char) : Nat :=
  Numeral.ofDigits (digits.map Numeral.digit)

/-- A number of one up to `width` digits. -/
def readNumber (width : Nat) (cs : List Char) : Option (Nat × List Char) :=
  let digits := (cs.take width).takeWhile Char.isDigit
  if digits.isEmpty then none else some (value digits, cs.drop digits.length)

/-- A number after blanks. -/
def readPart (width : Nat) (cs : List Char) : Option (Nat × List Char) :=
  readNumber width (skipBlanks cs)

/-- A mark after blanks, and the number after it. -/
def readMarkedPart (mark : Char) (width : Nat) (cs : List Char) : Option (Nat × List Char) :=
  match skipBlanks cs with
  | [] => none
  | c :: rest => if c = mark then readPart width rest else none

/-- A year after blanks: up to four digits, or a sign and any number of digits. -/
def readYear (cs : List Char) : Option (Int × List Char) :=
  match skipBlanks cs with
  | '-' :: rest => (readNumber rest.length rest).map fun r => (-(r.1 : Int), r.2)
  | '+' :: rest => (readNumber rest.length rest).map fun r => ((r.1 : Int), r.2)
  | cs => (readNumber 4 cs).map fun r => ((r.1 : Int), r.2)

/-- What stands between the date and the time. -/
def readSeparator : List Char → Option (List Char)
  | [] => none
  | c :: rest => if c = 'T' ∨ c = 't' ∨ c = ' ' then some rest else none

/-- An optional fraction of a second in nanoseconds; digits after the ninth do not count. -/
def readFraction : List Char → Option (Nat × List Char)
  | '.' :: rest =>
    let digits := rest.takeWhile Char.isDigit
    if digits.isEmpty then none
    else
      let counted := digits.take 9
      some (value counted * Nat.pow 10 (9 - counted.length), rest.dropWhile Char.isDigit)
  | cs => some (0, cs)

/-- Two digits that show a number below `bound`. -/
def readTwoDigits (bound : Nat) : List Char → Option (Nat × List Char)
  | a :: b :: rest =>
    if a.isDigit && b.isDigit && decide (value [a, b] < bound) then some (value [a, b], rest)
    else none
  | _ => none

/-- The hours and minutes of an offset, together in minutes; colons and blanks may stand between
them.  An offset is shorter than a day. -/
def readOffset (cs : List Char) : Option (Nat × List Char) :=
  match readTwoDigits 24 cs with
  | none => none
  | some (hours, rest) =>
    match readTwoDigits 60 (rest.dropWhile fun c => c == ':' || Text.isBlank c) with
    | none => none
    | some (minutes, rest) => some (hours * 60 + minutes, rest)

/-- The offset from UTC in minutes: a name of UTC, or a sign with hours and minutes. -/
def readZone : List Char → Option (Int × List Char)
  | 'Z' :: rest => some (0, rest)
  | 'z' :: rest => some (0, rest)
  | '+' :: rest => (readOffset rest).map fun r => ((r.1 : Int), r.2)
  | '-' :: rest => (readOffset rest).map fun r => (-(r.1 : Int), r.2)
  | '\u2212' :: rest => (readOffset rest).map fun r => (-(r.1 : Int), r.2)
  | a :: b :: c :: rest =>
    if [a, b, c].map Char.toUpper = ['U', 'T', 'C'] then some (0, rest) else none
  | _ => none

/-- The parts of a date and a time as written, with the offset from UTC in minutes. -/
def readFields (cs : List Char) : Option ((Fields × Int) × List Char) := do
  let (year, cs) ← readYear cs
  let (month, cs) ← readMarkedPart '-' 2 cs
  let (day, cs) ← readMarkedPart '-' 2 cs
  let cs ← readSeparator cs
  let (hour, cs) ← readPart 2 cs
  let (minute, cs) ← readMarkedPart ':' 2 cs
  let (second, cs) ← readMarkedPart ':' 2 cs
  let (nano, cs) ← readFraction cs
  let (offset, cs) ← readZone (skipBlanks cs)
  some ((⟨year, month, day, hour, minute, second, nano⟩, offset), cs)

/-- The instant of a text. -/
def ofText? (text : String) : Option Instant := do
  let ((fields, offset), rest) ← readFields text.toList
  -- the parts as written have to be in range, and again once the offset is taken away
  let here ← ofFields? fields
  if (skipBlanks rest).isEmpty then ofFields? (here.toFields.shift offset) else none

end Instant
end Eligibility
