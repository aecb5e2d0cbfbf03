import Eligibility.Json.Writer
import Eligibility.Loading.Basic
import Eligibility.Tree.Stored

/-!
# Tree — trees in JSON

A stored node is an object with the fields `kind`, `value`, `left` and `right`, or an array of
them in this order; a child may be missing or null, and other fields are passed over.

* `Loading.stored` — the stored structure of a document;
* `Loading.tree` — the tree of a document;
* `Tree.toJson` — the document of a tree.
-/

namespace Eligibility
namespace Loading

/-- The fields of a stored node that were read so far. -/
structure StoredFields where
  kind : Option String
  value : Option String
  left : Option (Option Stored)
  right : Option (Option Stored)

namespace StoredFields

/-- The names of the fields in their order. -/
def names : List String :=
  ["kind", "value", "left", "right"]

def initial : StoredFields :=
  ⟨none, none, none, none⟩

/-- Was a field of this name read already? -/
def has (fields : StoredFields) (name : String) : Bool :=
  if name = "kind" then fields.kind.isSome
  else if name = "value" then fields.value.isSome
  else if name = "left" then fields.left.isSome
  else if name = "right" then fields.right.isSome
  else false

/-- The child that a document stands for, given what it is as a node. -/
def child (json : Json) (node : Except Error Stored) : Except Error (Option Stored) :=
  match json with
  | .null => .ok none
  | _ => node.map some

/-- The fields with one more, read from a document; `node` is what the document is as a node. -/
def assign (fields : StoredFields) (name : String) (json : Json) (node : Except Error Stored) :
    Except Error StoredFields :=
  if name = "kind" then (text? json).map fun text => { fields with kind := some text }
  else if name = "value" then (text? json).map fun text => { fields with value := some text }
  else if name = "left" then (child json node).map fun tree => { fields with left := some tree }
  else (child json node).map fun tree => { fields with right := some tree }

/-- The node of the fields; only children may be missing. -/
def finish (fields : StoredFields) : Except Error Stored :=
  match fields.kind with
  | none => .error (.missingField "kind")
  | some kind =>
    match fields.value with
    | none => .error (.missingField "value")
    | some value => .ok (.node kind value fields.left.join fields.right.join)

/-- The node of the fields of an array. -/
def finishItems (fields : StoredFields) : Except Error Stored :=
  match fields.finish with
  | .error _ => .error .wrongShape
  | .ok node => .ok node

end StoredFields

/-- The error at a key without a colon: a field that was read already is refused before its colon
is looked for. -/
def strayKey (has : String → Bool) : Option String → Error
  | some key => if has key then .duplicateField key else .malformed
  | none => .malformed

mutual

/-- The stored structure of a document inside `level` arrays and objects. -/
def stored (level : Nat) : Json → Except Error Stored
  | .object members =>
    if level < Json.maxNesting then storedMembers (level + 1) .initial members
    else .error .malformed
  | .array items =>
    if level < Json.maxNesting then
      storedItems (level + 1) .initial StoredFields.names items
    else .error .malformed
  | json => .error (unexpected json)

/-- The node whose last fields are the items of an array. -/
def storedItems (level : Nat) (fields : StoredFields) (due : List String) :
    Json.Items → Except Error Stored
  | .done => fields.finishItems
  | .broken => .error .malformed
  | .item head tail =>
    match due with
    | [] => .error .malformed
    | name :: due =>
      match fields.assign name head (stored level head) with
      | .error e => .error e
      | .ok fields => storedItems level fields due tail

/-- The node whose last fields are the members of an object. -/
def storedMembers (level : Nat) (fields : StoredFields) : Json.Members → Except Error Stored
  | .done => fields.finish
  | .broken => .error .malformed
  | .stray key => .error (strayKey fields.has key)
  | .member none _ _ => .error .malformed
  | .member (some key) value tail =>
    -- a repeated field is refused before its value is looked at
    if fields.has key then .error (.duplicateField key)
    else if StoredFields.names.contains key then
      match fields.assign key value (stored level value) with
      | .error e => .error e
      | .ok fields => storedMembers level fields tail
    else if value.isComplete then storedMembers level fields tail
    else .error .malformed

end

/-- The tree of a document inside `level` arrays and objects. -/
def treeAt (level : Nat) (json : Json) : Except Error Tree :=
  match stored level json with
  | .error e => .error e
  | .ok node =>
    match node.toTree with
    | .error defect => .error (.defect defect)
    | .ok tree => .ok tree

/-- The tree of a document. -/
def tree (json : Json) : Except Error Tree :=
  treeAt 0 json

end Loading

namespace Stored

/-- The document of a stored node; a missing child is null. -/
def toJson : Stored → Json
  | node kind value left right =>
    Json.ofMembers
      [("kind", Json.ofString kind), ("value", Json.ofString value),
       ("left", match left with | none => Json.null | some left => left.toJson),
       ("right", match right with | none => Json.null | some right => right.toJson)]

end Stored

namespace Tree

/-- The document of a tree. -/
def toJson (tree : Tree) : Json :=
  tree.toStored.toJson

/-- The JSON text of a tree. -/
def jsonText (tree : Tree) : String :=
  tree.toJson.text

/-- The tree that a JSON text stands for. -/
def ofJsonText (text : String) : Except Loading.Error Tree :=
  Loading.load Loading.tree text

end Tree
end Eligibility
