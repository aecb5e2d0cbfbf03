import Eligibility.Loading.Basic
import Eligibility.Record

/-!
# Record — records in JSON

A record is an object whose members are strings or numbers; of a repeated key the last member
counts.

* `Loading.value` — a value, taken in as a whole before its kind is looked at;
* `Loading.record` — a record.
-/

namespace Eligibility
namespace Loading

/-- The value of a document inside `level` arrays and objects. -/
def valueAt (level : Nat) (json : Json) : Except Error Value :=
  if json.isStrict level then
    match json with
    | .string (some text) => .ok (.string text)
    | .number numeral =>
      match Json.numeralValue? numeral with
      | some x => .ok (.number x)
      | none => .error .malformed
    | _ => .error .wrongShape
  else .error .malformed

/-- The value of a document. -/
def value (json : Json) : Except Error Value :=
  valueAt 0 json

/-- The record with the members of an object added. -/
def recordMembers (record : Record) : Json.Members → Except Error Record
  | .done => .ok record
  | .member (some key) json tail =>
    match valueAt 1 json with
    | .error e => .error e
    | .ok value => recordMembers (record.insert key value) tail
  | _ => .error .malformed

/-- The record of a document. -/
def record : Json → Except Error Record
  | .object members => recordMembers .empty members
  | json => .error (unexpected json)

end Loading

namespace Value

/-- The value that a JSON text stands for. -/
def ofJsonText (text : String) : Except Loading.Error Value :=
  Loading.load Loading.value text

end Value

namespace Record

/-- The record that a JSON text stands for. -/
def ofJsonText (text : String) : Except Loading.Error Record :=
  Loading.load Loading.record text

end Record
end Eligibility
