import Mathlib.Algebra.Order.Ring.Nat
import Mathlib.Order.Monotone.Basic
import Eligibility.Binary64.Text

/-!
# Order — numbers are ordered by what they are worth

Numbers are compared by their positions on a line that holds every double once, but for the two
zeros that share a place.  A number is worth a whole multiple of the least positive double, and a
greater position is worth more, infinity more than all the finite ones, so that the comparison is
the one of the exact values.

* `Binary64.units_mul_add` — the absolute value from an exponent and a fraction;
* `Binary64.units_strictMono` — the next double has a greater absolute value;
* `Binary64.worth`, `Binary64.worth_le_worth_iff` — the exact value, and its order;
* `Binary64.compare?_eq_map` — the order as a comparison of exact values, NaN without one.
-/

namespace Eligibility
namespace Binary64

theorem binade_pos : 0 < binade := by
  decide

/-! ## Absolute values -/

/-- A normal number: the fraction with its leading bit in front, scaled by the exponent. -/
theorem units_mul_add {exponent fraction : Nat} (hexponent : 1 ≤ exponent)
    (hfraction : fraction < binade) :
    units (exponent * binade + fraction) = (fraction + binade) * 2 ^ (exponent - 1) := by
  have hdiv : (exponent * binade + fraction) / binade = exponent := by
    rw [Nat.add_comm, Nat.add_mul_div_right _ _ binade_pos, Nat.div_eq_of_lt hfraction,
      Nat.zero_add]
  have hmod : (exponent * binade + fraction) % binade = fraction := by
    rw [Nat.add_comm, Nat.add_mul_mod_self_right, Nat.mod_eq_of_lt hfraction]
  unfold units
  rw [hdiv, hmod]
  split
  · next hlow =>
    -- the least exponent shares its spacing with the numbers below it
    obtain rfl : exponent = 1 := by
      have hlt : exponent * binade < 2 * binade := Nat.lt_of_le_of_lt (Nat.le_add_right _ _) hlow
      have hone := Nat.lt_of_mul_lt_mul_right hlt
      omega
    rw [Nat.sub_self, Nat.pow_zero, Nat.one_mul, Nat.mul_one, Nat.add_comm]
  · rfl

theorem units_lt_units_succ (magnitude : Nat) : units magnitude < units (magnitude + 1) := by
  have hmagnitude : magnitude / binade * binade + magnitude % binade = magnitude :=
    Nat.div_add_mod' magnitude binade
  have hfraction : magnitude % binade < binade := Nat.mod_lt _ binade_pos
  generalize magnitude / binade = exponent at hmagnitude
  generalize magnitude % binade = fraction at hmagnitude hfraction
  obtain rfl := hmagnitude
  rcases Nat.eq_zero_or_pos exponent with rfl | hexponent
  · have hlow : 0 * binade + fraction + 1 < 2 * binade := by omega
    have hlow' : 0 * binade + fraction < 2 * binade := by omega
    rw [units, units, if_pos hlow, if_pos hlow']
    exact Nat.lt_succ_self _
  · have hscale : 0 < 2 ^ (exponent - 1) := Nat.two_pow_pos _
    rw [units_mul_add hexponent hfraction]
    by_cases hlast : fraction + 1 < binade
    · rw [Nat.add_assoc, units_mul_add hexponent hlast]
      exact Nat.mul_lt_mul_of_pos_right (by omega) hscale
    · -- the fraction is used up, and the next exponent doubles the scale
      have hnext : exponent * binade + fraction + 1 = (exponent + 1) * binade + 0 := by
        rw [Nat.add_one_mul]
        omega
      have hdouble : 2 ^ exponent = 2 * 2 ^ (exponent - 1) := by
        rw [Nat.mul_comm, Nat.two_pow_pred_mul_two hexponent]
      rw [hnext, units_mul_add (Nat.le_add_left 1 exponent) binade_pos, Nat.add_sub_cancel,
        hdouble, ← Nat.mul_assoc]
      exact Nat.mul_lt_mul_of_pos_right (by omega) hscale

theorem units_strictMono : StrictMono units :=
  strictMono_nat_of_lt_succ units_lt_units_succ

/-! ## Values -/

/-- The exact value of a number in multiples of the least positive double.  Infinity goes on where
the finite numbers end. -/
def worth (x : Binary64) : Int :=
  if x.negative then -(units x.magnitude : Int) else units x.magnitude

theorem worth_le_worth_iff (x y : Binary64) : x.worth ≤ y.worth ↔ x.position ≤ y.position := by
  have hle := units_strictMono.le_iff_le (a := x.magnitude) (b := y.magnitude)
  have hge := units_strictMono.le_iff_le (a := y.magnitude) (b := x.magnitude)
  have hzero : units 0 = 0 := by decide
  have hx := units_strictMono.le_iff_le (a := x.magnitude) (b := 0)
  have hy := units_strictMono.le_iff_le (a := y.magnitude) (b := 0)
  rw [hzero] at hx hy
  unfold worth position
  -- one case for each pair of signs; zero has the same place with both
  cases x.negative <;> cases y.negative <;>
    simp only [Bool.false_eq_true, if_false, if_true] <;> omega

/-! ## Comparison -/

theorem isNaN_eq_false_of_isFinite {x : Binary64} (h : x.isFinite = true) : x.isNaN = false := by
  simp only [isFinite, decide_eq_true_eq] at h
  simp only [isNaN, decide_eq_false_iff_not]
  omega

theorem compare_position (x y : Binary64) :
    compare x.position y.position = compare x.worth y.worth := by
  have hle := worth_le_worth_iff x y
  have hge := worth_le_worth_iff y x
  rcases lt_trichotomy x.position y.position with hlt | heq | hgt
  · rw [compare_lt_iff_lt.2 hlt, compare_lt_iff_lt.2 (by omega)]
  · rw [compare_eq_iff_eq.2 heq, compare_eq_iff_eq.2 (by omega)]
  · rw [compare_gt_iff_gt.2 hgt, compare_gt_iff_gt.2 (by omega)]

/-- The exact value of a number, unless it is NaN. -/
def worth? (x : Binary64) : Option Int :=
  if x.isNaN then none else some x.worth

theorem compare?_eq_map (x : Binary64) {y : Binary64} (hy : y.isNaN = false) :
    x.compare? y = x.worth?.map fun value => compare value y.worth := by
  unfold compare? worth?
  cases hx : x.isNaN with
  | true => simp
  | false => simp [hy, compare_position]

end Binary64
end Eligibility
