import Eligibility.Instant.Basic

/-!
# Order — earlier and later instants

Of two instants the earlier one has the lesser part where they first differ: the year counts before
the month, the month before the day, and so on down to the nanosecond.  The number that instants
are sorted by has the same order, since each part is less than the base of its digit.

* `Instant.parts`, `Instant.IsBefore` — the parts in order, and which instant is earlier;
* `Instant.rank_lt_rank_iff` — the earlier instant has the lesser rank.
-/

namespace Eligibility
namespace Instant

/-- The parts of an instant, the longest first. -/
def parts (i : Instant) : List Int :=
  [i.year, i.month, i.day, i.hour, i.minute, i.second, i.nano]

/-- The first instant is earlier than the second, as their parts tell from the longest on. -/
def IsBefore (i j : Instant) : Prop :=
  i.parts < j.parts

instance (i j : Instant) : Decidable (i.IsBefore j) :=
  inferInstanceAs (Decidable (i.parts < j.parts))

variable {i j : Instant}

theorem IsBefore.asymm (h : i.IsBefore j) : ¬ j.IsBefore i :=
  List.lt_asymm h

theorem IsBefore.irrefl (i : Instant) : ¬ i.IsBefore i :=
  List.lt_irrefl i.parts

theorem rank_lt_rank_iff : i.rank < j.rank ↔ i.IsBefore j := by
  have hi := i.valid
  have hj := j.valid
  simp only [Fields.IsValid] at hi hj
  have hday := daysIn_le i.year i.month
  have hday' := daysIn_le j.year j.month
  simp only [rank, IsBefore, parts, List.cons_lt_cons_iff, List.lt_irrefl, and_false, or_false]
  -- the bounds of the digits do not depend on the years from here on
  generalize i.year = year at *
  generalize j.year = year' at *
  omega

end Instant
end Eligibility
