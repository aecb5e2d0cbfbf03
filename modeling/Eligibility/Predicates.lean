import Eligibility.Record
import Eligibility.Text.Quoted

/-!
# Predicates — what rule text may call

Named tests of a whole record.

* `Predicates.description` — the names in order, as a listing;
* `RecordTest.always`, `RecordTest.has`, … — tests for common needs.
-/

namespace Eligibility

/-- A test of a whole record. -/
abbrev RecordTest :=
  Record → Bool

namespace RecordTest

/-- The test with the same verdict on every record. -/
def always (verdict : Bool) : RecordTest :=
  fun _ => verdict

/-- Does the record have the attribute? -/
def has (attr : String) : RecordTest :=
  fun record => record.contains attr

/-- Does the record have any attribute, and at least as many as given? -/
def hasAtLeast (count : Nat) : RecordTest :=
  fun record => !record.isEmpty && decide (count ≤ record.size)

/-- Does the record have the attribute, with a value that compares as given? -/
def compares (attr : String) (op : Comparator) (literal : Value) : RecordTest :=
  fun record =>
    match record.get? attr with
    | none => false
    | some actual => actual.compare op literal

/-- Does the record have a number for the attribute that is not below the given one? -/
def isNumberAtLeast (attr : String) (least : Binary64) : RecordTest :=
  fun record =>
    match record.get? attr with
    | some (.number x) => (Value.number x).compare .ge (.number least)
    | _ => false

end RecordTest

/-- Named tests of a record. -/
abbrev Predicates :=
  Table RecordTest

namespace Predicates

/-- The names in order. -/
def names (predicates : Predicates) : List String :=
  predicates.keys.mergeSort fun a b => decide (a ≤ b)

/-- The names as a listing. -/
def description (predicates : Predicates) : String :=
  "FunctionRegistry \x7b functions: [" ++
    ", ".intercalate (predicates.names.map Text.quoted) ++ "] \x7d"

end Predicates
end Eligibility
