import Eligibility.Json.Reader
import Eligibility.Tree.Defect

/-!
# Basic — values of the library out of documents

A loader takes a document apart in the order of its text and reports what it meets first: damage of
the text, or a value of the wrong shape.

* `Loading.Error` — what a loader meets;
* `Loading.unexpected` — the error where a document is of the wrong kind;
* `Loading.text?` — the text of a string;
* `Loading.load` — the value of a whole text.
-/

namespace Eligibility
namespace Loading

/-- Why a text has no value. -/
inductive Error where
  /-- The text is no acceptable JSON. -/
  | malformed
  /-- The document is of the wrong kind. -/
  | wrongShape
  | missingField (name : String)
  | duplicateField (name : String)
  /-- A stored structure is no tree. -/
  | defect (defect : Tree.Defect)
deriving DecidableEq, Repr

namespace Error

/-- Is it the text itself that cannot be accepted? -/
def isMalformed : Error → Bool
  | malformed => true
  | _ => false

/-- The wording of an error, where it has one. -/
def message? : Error → Option String
  | malformed => none
  | wrongShape => none
  | missingField name => some ("missing field `" ++ name ++ "`")
  | duplicateField name => some ("duplicate field `" ++ name ++ "`")
  | defect d => some d.message

end Error

/-- The error where a document of another kind is due.  A string or a number is read to its end
first; arrays and objects are refused at their bracket. -/
def unexpected : Json → Error
  | .broken => .malformed
  | .string none => .malformed
  | .number numeral => if (Json.numeralValue? numeral).isSome then .wrongShape else .malformed
  | _ => .wrongShape

/-- The text of a string. -/
def text? : Json → Except Error String
  | .string (some text) => .ok text
  | json => .error (unexpected json)

/-- The value that a loader finds in a text with nothing but blanks after it. -/
def load {α : Type} (loader : Json → Except Error α) (text : String) : Except Error α :=
  let (json, rest) := Json.read text.toList
  match loader json with
  | .error e => .error e
  | .ok value => if (Json.skipBlanks rest).isEmpty then .ok value else .error .malformed

end Loading
end Eligibility
