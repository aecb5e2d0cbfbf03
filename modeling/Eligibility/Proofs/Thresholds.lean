import Eligibility.Proofs.Binary64.Order
import Eligibility.Proofs.Text.ByteOrder
import Eligibility.Value

/-!
# Thresholds — comparison with the literals of one type

A value is compared with a literal in the order of the literal's type: with a number by what
it is worth, if it is a number, and with a text by the text that it shows as.  Either way all
literals of one type are thresholds on one line, whatever the kind of the value, so that the
operators fit together and a comparison carries over from one threshold to another.

* `Comparator.holds_of_isLE` — two thresholds on a line and a value that may stand nowhere on it;
* `Value.worth?`, `Value.shown` — a value as a number and as a text;
* `Value.order?_number`, `Value.order?_string` — the loose order as a comparison on such a line;
* `Value.IsNoNumber` — the values that have no place among the numbers;
* `Value.AtMost` — the order of two literals of one type, by exact values or by bytes;
* `Value.compare_of_literals` — the laws of comparison.
-/

namespace Eligibility
namespace Comparator

/-! ## Operators under one order -/

theorem holds_eq_false_iff {order : Option Ordering} :
    (lt.holds order = false ∧ eq.holds order = false ∧ gt.holds order = false) ↔ order = none := by
  rcases order with _ | _ | _ | _
  all_goals decide

/-- An order admits at most one of the three strict verdicts. -/
theorem holds_exclusive (order : Option Ordering) :
    ¬ (lt.holds order = true ∧ eq.holds order = true) ∧
      ¬ (lt.holds order = true ∧ gt.holds order = true) ∧
      ¬ (eq.holds order = true ∧ gt.holds order = true) := by
  rcases order with _ | _ | _ | _
  all_goals decide

theorem holds_gt_some (order : Ordering) : gt.holds (some order) = order.isGT := by
  cases order <;> rfl

theorem holds_ge_some (order : Ordering) : ge.holds (some order) = order.isGE := by
  cases order <;> rfl

theorem holds_lt_some (order : Ordering) : lt.holds (some order) = order.isLT := by
  cases order <;> rfl

theorem holds_le_some (order : Ordering) : le.holds (some order) = order.isLE := by
  cases order <;> rfl

/-! ## Two thresholds -/

/-- What is beyond the higher threshold is beyond the lower one, and what falls short of the lower
one falls short of the higher one.  What stands nowhere does neither. -/
theorem holds_of_isLE {α : Type} [Ord α] [Std.TransOrd α] {low high : α}
    (h : (compare low high).isLE = true) (place? : Option α) :
    (gt.holds (place?.map (compare · high)) = true →
      gt.holds (place?.map (compare · low)) = true) ∧
    (ge.holds (place?.map (compare · high)) = true →
      ge.holds (place?.map (compare · low)) = true) ∧
    (lt.holds (place?.map (compare · low)) = true →
      lt.holds (place?.map (compare · high)) = true) ∧
    (le.holds (place?.map (compare · low)) = true →
      le.holds (place?.map (compare · high)) = true) := by
  have hge : (compare high low).isGE = true := Std.OrientedCmp.isGE_of_isLE h
  cases place? with
  | none => exact ⟨id, id, id, id⟩
  | some place =>
    simp only [Option.map_some, holds_gt_some, holds_ge_some, holds_lt_some, holds_le_some,
      Ordering.isGT_iff_eq_gt, Ordering.isLT_iff_eq_lt]
    exact ⟨fun hgt => Std.TransCmp.gt_of_gt_of_isGE hgt hge,
      fun hle => Std.TransCmp.isGE_trans hle hge,
      fun hlt => Std.TransCmp.lt_of_lt_of_isLE hlt h,
      fun hle => Std.TransCmp.isLE_trans hle h⟩

end Comparator

namespace Value

open Binary64 (isFinite_of_ofLiteral? isNaN_eq_false_of_isFinite)
open Snapshot.Payload (utf8)

/-! ## Values on the lines of both types -/

/-- What a value is worth as a number, if it is one. -/
def worth? : Value → Option Int
  | number x => x.worth?
  | string text => (Binary64.ofLiteral? text).bind Binary64.worth?

/-- The text that a value is compared as with texts. -/
def shown : Value → String
  | number x => x.toText
  | string text => text

theorem order?_number (v : Value) {y : Binary64} (hy : y.isNaN = false) :
    v.order? (number y) = v.worth?.map fun value => Ord.compare value y.worth := by
  cases v with
  | number x => exact x.compare?_eq_map hy
  | string text =>
    rw [order?, worth?, Option.map_bind]
    exact Option.bind_congr fun x _ => x.compare?_eq_map hy

theorem order?_string (v : Value) (t : String) :
    v.order? (string t) = (some v.shown).map fun text => Ord.compare text t := by
  cases v with
  | number x => rfl
  | string text => rfl

/-- The values that are no number: NaN, and a text that does not spell a finite number. -/
def IsNoNumber : Value → Prop
  | number x => x.isNaN = true
  | string text => ∀ x, Binary64.ofText? (Text.trim text.toList) = some x → x.isFinite = false

theorem worth?_eq_none_iff {v : Value} : v.worth? = none ↔ v.IsNoNumber := by
  cases v with
  | number x => simp [worth?, Binary64.worth?, IsNoNumber]
  | string text =>
    rw [worth?, IsNoNumber]
    cases hliteral : Binary64.ofLiteral? text with
    | none =>
      rw [Binary64.ofLiteral?, Option.filter_eq_none_iff] at hliteral
      simpa using hliteral
    | some x =>
      -- a finite number is worth something
      have hfinite := isFinite_of_ofLiteral? hliteral
      rw [Binary64.ofLiteral?, Option.filter_eq_some_iff] at hliteral
      simp only [Option.bind_some, Binary64.worth?, isNaN_eq_false_of_isFinite hfinite,
        Bool.false_eq_true, if_false, reduceCtorEq, false_iff]
      intro hnone
      rw [hnone x hliteral.1] at hfinite
      cases hfinite

/-! ## Literals -/

/-- The order of two literals of one type: numbers by their exact values, texts by their bytes. -/
def AtMost : Value → Value → Prop
  | number x, number y => x.worth ≤ y.worth
  | string s, string t => utf8 s ≤ utf8 t
  | _, _ => False

theorem isLE_compare_iff_atMost {s t : String} :
    (Ord.compare s t).isLE = true ↔ (string s).AtMost (string t) := by
  rw [AtMost, List.not_lt.symm.trans (not_congr Text.utf8_lt_utf8_iff), String.not_lt]
  exact isLE_compareOfLessAndEq String.le_antisymm String.not_le String.le_total

theorem exists_of_ofLiteral? {type : ValueType} {text : String} {literal : Value}
    (h : ofLiteral? type text = some literal) :
    (type = .string ∧ literal = string text) ∨
      ∃ x : Binary64, type = .number ∧ x.isNaN = false ∧ literal = number x := by
  cases type with
  | string =>
    cases h
    exact .inl ⟨rfl, rfl⟩
  | number =>
    rcases Option.map_eq_some_iff.1 h with ⟨x, hx, rfl⟩
    exact .inr ⟨x, rfl, isNaN_eq_false_of_isFinite (isFinite_of_ofLiteral? hx), rfl⟩

/-- Where a value and a literal have no order, the literal is a number and the value is none. -/
theorem order?_eq_none_iff {type : ValueType} {text : String} {literal : Value}
    (h : ofLiteral? type text = some literal) (v : Value) :
    v.order? literal = none ↔ literal.type = .number ∧ v.IsNoNumber := by
  rcases exists_of_ofLiteral? h with ⟨_, rfl⟩ | ⟨x, _, hx, rfl⟩
  · simp [order?_string, Value.type]
  · simp [order?_number v hx, Value.type, worth?_eq_none_iff]

/-- Compared with each other, literals of one type stand in their order. -/
theorem compare_le_iff_atMost {type : ValueType} {text₁ text₂ : String} {l₁ l₂ : Value}
    (h₁ : ofLiteral? type text₁ = some l₁) (h₂ : ofLiteral? type text₂ = some l₂) :
    l₁.compare .le l₂ = true ↔ l₁.AtMost l₂ := by
  unfold compare
  rcases exists_of_ofLiteral? h₁ with ⟨rfl, rfl⟩ | ⟨x, rfl, hx, rfl⟩
  · cases h₂
    rw [order?_string, Option.map_some, Comparator.holds_le_some]
    exact isLE_compare_iff_atMost
  · rcases exists_of_ofLiteral? h₂ with ⟨hstring, _⟩ | ⟨y, _, hy, rfl⟩
    · cases hstring
    · have hworth : (number x).worth? = some x.worth := by simp [worth?, Binary64.worth?, hx]
      rw [order?_number _ hy, hworth, Option.map_some, Comparator.holds_le_some]
      exact Std.isLE_compare

/-- The laws of comparison with the literals of one type.  At most one of `<`, `=` and `>` holds,
and none does exactly when the literal is a number and the value is no number; the other operators
are put together from these.  Of two literals, the lower one is passed by what passes the higher
one, and the higher one bounds what the lower one bounds. -/
theorem compare_of_literals {type : ValueType} {text₁ text₂ : String} {l₁ l₂ : Value}
    (h₁ : ofLiteral? type text₁ = some l₁) (h₂ : ofLiteral? type text₂ = some l₂) (v : Value) :
    (¬ (v.compare .lt l₁ = true ∧ v.compare .eq l₁ = true) ∧
      ¬ (v.compare .lt l₁ = true ∧ v.compare .gt l₁ = true) ∧
      ¬ (v.compare .eq l₁ = true ∧ v.compare .gt l₁ = true)) ∧
    ((v.compare .lt l₁ = false ∧ v.compare .eq l₁ = false ∧ v.compare .gt l₁ = false) ↔
      l₁.type = .number ∧ v.IsNoNumber) ∧
    (v.compare .ne l₁ = !v.compare .eq l₁ ∧
      v.compare .ge l₁ = (v.compare .gt l₁ || v.compare .eq l₁) ∧
      v.compare .le l₁ = (v.compare .lt l₁ || v.compare .eq l₁)) ∧
    (l₁.compare .le l₂ = true ↔ l₁.AtMost l₂) ∧
    (l₁.AtMost l₂ →
      (v.compare .gt l₂ = true → v.compare .gt l₁ = true) ∧
      (v.compare .ge l₂ = true → v.compare .ge l₁ = true) ∧
      (v.compare .lt l₁ = true → v.compare .lt l₂ = true) ∧
      (v.compare .le l₁ = true → v.compare .le l₂ = true)) := by
  refine ⟨?exclusive, ?unordered, ?composed, compare_le_iff_atMost h₁ h₂, ?thresholds⟩
  case exclusive => exact Comparator.holds_exclusive (v.order? l₁)
  case unordered => exact Comparator.holds_eq_false_iff.trans (order?_eq_none_iff h₁ v)
  case composed => exact ⟨rfl, rfl, rfl⟩
  case thresholds =>
    intro hle
    unfold compare
    rcases exists_of_ofLiteral? h₁ with ⟨rfl, rfl⟩ | ⟨x, rfl, hx, rfl⟩
    · cases h₂
      rw [order?_string, order?_string]
      exact Comparator.holds_of_isLE (isLE_compare_iff_atMost.2 hle) _
    · rcases exists_of_ofLiteral? h₂ with ⟨hstring, _⟩ | ⟨y, _, hy, rfl⟩
      · cases hstring
      · rw [order?_number v hx, order?_number v hy]
        exact Comparator.holds_of_isLE (Std.isLE_compare.2 hle) _

/-- Both zeros as thresholds for a text that is a very small number, and for one that names
infinity; texts as thresholds for a number, in the order of their bytes; and a number that is equal
to the text of its shortest digits, and so to no longer one that reads as the same number. -/
theorem compare_of_literals_coerced :
    let minusZero : Value := .number ⟨true, 0⟩
    let zero : Value := .number ⟨false, 0⟩
    let tiny : Value := .string " 1e-320"
    let infinity : Value := .string "inf"
    let tenth : Value := .number ⟨false, 0x3FB999999999999A⟩
    (ofLiteral? .number "0.0" = some zero ∧ ofLiteral? .number " -0 " = some minusZero ∧
      zero.AtMost minusZero ∧ tiny.compare .gt minusZero = true ∧ tiny.compare .gt zero = true) ∧
    (infinity.compare .lt zero = false ∧ infinity.compare .eq zero = false ∧
      infinity.compare .gt zero = false ∧ infinity.IsNoNumber) ∧
    ((string "10").AtMost (string "9") ∧
      (number (.ofNat 1)).compare .lt (string "10") = true ∧
      (number (.ofNat 1)).compare .lt (string "9") = true) ∧
    (tenth.compare .eq (string "0.1") = true ∧ tenth.compare .lt (string "0.1") = false ∧
      (string "0.1").AtMost (string "0.10000000000000001") ∧
      tenth.compare .le (string "0.10000000000000001") = true ∧
      tenth.compare .eq (string "0.10000000000000001") = false ∧
      ofLiteral? .number "0.10000000000000001" = some tenth) := by
  intro minusZero zero tiny infinity tenth
  have hzero : ofLiteral? .number "0.0" = some zero := by decide +kernel
  have hminusZero : ofLiteral? .number " -0 " = some minusZero := by decide +kernel
  rcases compare_of_literals hzero hminusZero tiny with ⟨_, _, _, hzeros, htiny⟩
  have hle : zero.AtMost minusZero := hzeros.1 (by decide +kernel)
  have hgt : tiny.compare .gt minusZero = true := by decide +kernel
  have hnone : infinity.compare .lt zero = false ∧ infinity.compare .eq zero = false ∧
      infinity.compare .gt zero = false := by decide +kernel
  have hinfinity := (compare_of_literals hzero hzero infinity).2.1.1 hnone
  have hten : ofLiteral? .string "10" = some (string "10") := rfl
  have hnine : ofLiteral? .string "9" = some (string "9") := rfl
  rcases compare_of_literals hten hnine (number (.ofNat 1)) with ⟨_, _, _, htexts, hone⟩
  have hbytes : (string "10").AtMost (string "9") := htexts.1 (by decide +kernel)
  have hlt : (number (.ofNat 1)).compare .lt (string "10") = true := by decide +kernel
  have hshort : ofLiteral? .string "0.1" = some (string "0.1") := rfl
  have hlong : ofLiteral? .string "0.10000000000000001" = some (string "0.10000000000000001") := rfl
  rcases compare_of_literals hshort hlong tenth with
    ⟨⟨hexclusive, _⟩, _, ⟨_, _, hatMost⟩, hdigits, htenth⟩
  have hshorter : (string "0.1").AtMost (string "0.10000000000000001") :=
    hdigits.1 (by decide +kernel)
  have heq : tenth.compare .eq (string "0.1") = true := by decide +kernel
  have hnotBelow : tenth.compare .lt (string "0.1") = false :=
    Bool.eq_false_iff.2 fun hbelow => hexclusive ⟨hbelow, heq⟩
  have hbelowOrEq : tenth.compare .le (string "0.1") = true := by rw [hatMost, heq, Bool.or_true]
  exact ⟨⟨hzero, hminusZero, hle, hgt, (htiny hle).1 hgt⟩,
    ⟨hnone.1, hnone.2.1, hnone.2.2, hinfinity.2⟩, ⟨hbytes, hlt, (hone hbytes).2.2.1 hlt⟩,
    heq, hnotBelow, hshorter, (htenth hshorter).2.2.2 hbelowOrEq, by decide +kernel,
    by decide +kernel⟩

end Value
end Eligibility
