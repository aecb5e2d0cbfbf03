/-!
# Basic — points in time

An instant is a date of the Gregorian calendar and a time of day in UTC, down to nanoseconds.  A
minute may have a leap second, whose number is 60.

* `Instant.Fields` — the parts, and `Instant.Fields.IsValid`, their ranges;
* `Instant` — valid parts;
* `Instant.Fields.shift` — the parts some minutes earlier;
* `Instant.rank` — the order of instants as an order of integers.
-/

namespace Eligibility
namespace Instant

/-- The parts of a date and a time of day. -/
structure Fields where
  year : Int
  month : Nat
  day : Nat
  hour : Nat
  minute : Nat
  second : Nat
  nano : Nat
deriving DecidableEq, Repr

def isLeapYear (year : Int) : Bool :=
  year % 4 == 0 && (year % 100 != 0 || year % 400 == 0)

/-- The number of days of a month. -/
def daysIn (year : Int) (month : Nat) : Nat :=
  if month = 2 then if isLeapYear year then 29 else 28
  else if month = 4 ∨ month = 6 ∨ month = 9 ∨ month = 11 then 30
  else 31

theorem daysIn_le (year : Int) (month : Nat) : daysIn year month ≤ 31 := by
  unfold daysIn
  repeat' split
  all_goals omega

def firstYear : Int :=
  -262143

def lastYear : Int :=
  262142

namespace Fields

/-- Every part lies in its range. -/
def IsValid (f : Fields) : Prop :=
  (firstYear ≤ f.year ∧ f.year ≤ lastYear) ∧ (1 ≤ f.month ∧ f.month ≤ 12) ∧
    (1 ≤ f.day ∧ f.day ≤ daysIn f.year f.month) ∧ f.hour ≤ 23 ∧ f.minute ≤ 59 ∧
    f.second ≤ 60 ∧ f.nano < 1000000000

instance (f : Fields) : Decidable f.IsValid := by
  unfold IsValid
  infer_instance

/-- The same time on the day before. -/
def dayBefore (f : Fields) : Fields :=
  if 1 < f.day then { f with day := f.day - 1 }
  else if 1 < f.month then
    { f with month := f.month - 1, day := daysIn f.year (f.month - 1) }
  else { f with year := f.year - 1, month := 12, day := 31 }

/-- The same time on the day after. -/
def dayAfter (f : Fields) : Fields :=
  if f.day < daysIn f.year f.month then { f with day := f.day + 1 }
  else if f.month < 12 then { f with month := f.month + 1, day := 1 }
  else { f with year := f.year + 1, month := 1, day := 1 }

/-- The parts of the instant `minutes` minutes earlier, for less than a day either way. -/
def shift (f : Fields) (minutes : Int) : Fields :=
  let total : Int := (f.hour : Int) * 60 + f.minute - minutes
  let day := if total < 0 then f.dayBefore else if 1440 ≤ total then f.dayAfter else f
  let ofDay := (total % 1440).toNat
  { day with hour := ofDay / 60, minute := ofDay % 60 }

end Fields
end Instant

/-- A point in time. -/
structure Instant extends Instant.Fields where
  valid : toFields.IsValid
deriving DecidableEq

namespace Instant

/-- The instant of the given parts, if they are in range. -/
def ofFields? (f : Fields) : Option Instant :=
  if h : f.IsValid then some ⟨f, h⟩ else none

/-- The position of an instant in the order of time: its parts as digits of one number. -/
def rank (i : Instant) : Int :=
  (((((i.year * 16 + i.month) * 32 + i.day) * 24 + i.hour) * 60 + i.minute) * 61 + i.second) *
    1000000000 + i.nano

/-- Different instants have different positions. -/
theorem rank_inj {i j : Instant} : i.rank = j.rank ↔ i = j := by
  constructor
  · intro h
    obtain ⟨⟨y, mo, d, h', mi, s, n⟩, hv⟩ := i
    obtain ⟨⟨y', mo', d', h'', mi', s', n'⟩, hv'⟩ := j
    have hd := daysIn_le y mo
    have hd' := daysIn_le y' mo'
    simp only [Fields.IsValid, firstYear, lastYear] at hv hv'
    simp only [rank] at h
    have hall : y = y' ∧ mo = mo' ∧ d = d' ∧ h' = h'' ∧ mi = mi' ∧ s = s' ∧ n = n' := by
      omega
    obtain ⟨rfl, rfl, rfl, rfl, rfl, rfl, rfl⟩ := hall
    rfl
  · rintro rfl
    rfl

end Instant
end Eligibility
