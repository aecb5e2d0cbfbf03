import Eligibility.Json.Number

/-!
# Json — documents, also damaged ones

Reading a text never fails: where the text stops being JSON, the document has a mark, and nothing
follows it.  What a caller makes of the document up to that place is up to the caller, who may have
found a fault of his own before.

* `Json`, `Json.Items`, `Json.Members` — documents, and the rests of arrays and objects;
* `Json.isComplete` — the document has no mark;
* `Json.isStrict` — moreover no number is out of range, no string holds half a surrogate pair, and
  arrays and objects nest no deeper than `Json.maxNesting`.
-/

namespace Eligibility

mutual

/-- A document. -/
inductive Json where
  /-- The text is no JSON here. -/
  | broken
  | null
  | bool (b : Bool)
  | number (numeral : Numeral)
  /-- A string; it has no text when it names half a surrogate pair. -/
  | string (text : Option String)
  | array (items : Json.Items)
  | object (members : Json.Members)

/-- The rest of an array. -/
inductive Json.Items where
  /-- The array is closed. -/
  | done
  /-- The text is no JSON here. -/
  | broken
  | item (head : Json) (tail : Json.Items)

/-- The rest of an object. -/
inductive Json.Members where
  /-- The object is closed. -/
  | done
  /-- The text is no JSON here. -/
  | broken
  /-- There is a key, but no colon after it. -/
  | stray (key : Option String)
  | member (key : Option String) (value : Json) (tail : Json.Members)

end

namespace Json

/-- The most arrays and objects that may stand inside each other. -/
def maxNesting : Nat :=
  127

/-! ## Sound documents -/

mutual

/-- The document has no mark of damage. -/
def isComplete : Json → Bool
  | broken => false
  | array items => items.isComplete
  | object members => members.isComplete
  | _ => true

/-- The rest of the array has no mark of damage. -/
def Items.isComplete : Items → Bool
  | .done => true
  | .broken => false
  | .item head tail => head.isComplete && tail.isComplete

/-- The rest of the object has no mark of damage. -/
def Members.isComplete : Members → Bool
  | .done => true
  | .broken => false
  | .stray _ => false
  | .member _ value tail => value.isComplete && tail.isComplete

end

mutual

/-- The document can be taken in as a whole, `level` arrays and objects deep. -/
def isStrict (level : Nat) : Json → Bool
  | broken => false
  | null => true
  | bool _ => true
  | number numeral => (numeralValue? numeral).isSome
  | string text => text.isSome
  | array items => level < maxNesting && items.isStrict (level + 1)
  | object members => level < maxNesting && members.isStrict (level + 1)

/-- The rest of the array can be taken in as a whole. -/
def Items.isStrict (level : Nat) : Items → Bool
  | .done => true
  | .broken => false
  | .item head tail => head.isStrict level && tail.isStrict level

/-- The rest of the object can be taken in as a whole. -/
def Members.isStrict (level : Nat) : Members → Bool
  | .done => true
  | .broken => false
  | .stray _ => false
  | .member key value tail => key.isSome && value.isStrict level && tail.isStrict level

end

end Json
end Eligibility
