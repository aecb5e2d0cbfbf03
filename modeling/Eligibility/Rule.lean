import Eligibility.Instant.Text
import Eligibility.Loading.Tree

/-!
# Rule — named trees

A rule is a tree under a name, with the time of its creation.

* `Rule.precedes` — older rules come first, rules of one age by name;
* `Loading.rule` and `Rule.toJson` — rules in JSON, as an object with the fields `name`, `ast` and
  `createdAt` or an array of them in this order.
-/

namespace Eligibility

/-- A named tree and the time of its creation. -/
structure Rule where
  name : String
  tree : Tree
  createdAt : Instant
deriving DecidableEq

namespace Rule

/-- Does a rule come before another, or is it the same in age and name? -/
def precedes (a b : Rule) : Bool :=
  decide (a.createdAt.rank < b.createdAt.rank) ||
    (decide (a.createdAt.rank = b.createdAt.rank) && decide (a.name ≤ b.name))

end Rule

namespace Loading

/-- The instant of a string. -/
def instant (json : Json) : Except Error Instant :=
  match text? json with
  | .error e => .error e
  | .ok text =>
    match Instant.ofText? text with
    | some i => .ok i
    | none => .error .wrongShape

/-- The fields of a rule that were read so far. -/
structure RuleFields where
  name : Option String
  tree : Option Tree
  createdAt : Option Instant

namespace RuleFields

/-- The names of the fields in their order. -/
def names : List String :=
  ["name", "ast", "createdAt"]

def initial : RuleFields :=
  ⟨none, none, none⟩

/-- Was a field of this name read already? -/
def has (fields : RuleFields) (name : String) : Bool :=
  if name = "name" then fields.name.isSome
  else if name = "ast" then fields.tree.isSome
  else if name = "createdAt" then fields.createdAt.isSome
  else false

/-- The fields with one more, read from a document. -/
def assign (fields : RuleFields) (name : String) (json : Json) : Except Error RuleFields :=
  if name = "name" then (text? json).map fun text => { fields with name := some text }
  else if name = "ast" then (treeAt 1 json).map fun tree => { fields with tree := some tree }
  else (instant json).map fun i => { fields with createdAt := some i }

/-- The rule of the fields. -/
def finish (fields : RuleFields) : Except Error Rule :=
  match fields.name with
  | none => .error (.missingField "name")
  | some name =>
    match fields.tree with
    | none => .error (.missingField "ast")
    | some tree =>
      match fields.createdAt with
      | none => .error (.missingField "createdAt")
      | some createdAt => .ok ⟨name, tree, createdAt⟩

/-- The rule of the fields of an array. -/
def finishItems (fields : RuleFields) : Except Error Rule :=
  match fields.finish with
  | .error _ => .error .wrongShape
  | .ok rule => .ok rule

end RuleFields

/-- The rule whose last fields are the items of an array. -/
def ruleItems (fields : RuleFields) (due : List String) : Json.Items → Except Error Rule
  | .done => fields.finishItems
  | .broken => .error .malformed
  | .item head tail =>
    match due with
    | [] => .error .malformed
    | name :: due =>
      match fields.assign name head with
      | .error e => .error e
      | .ok fields => ruleItems fields due tail

/-- The rule whose last fields are the members of an object. -/
def ruleMembers (fields : RuleFields) : Json.Members → Except Error Rule
  | .done => fields.finish
  | .broken => .error .malformed
  | .stray key => .error (strayKey fields.has key)
  | .member none _ _ => .error .malformed
  | .member (some key) value tail =>
    -- a repeated field is refused before its value is looked at
    if fields.has key then .error (.duplicateField key)
    else if RuleFields.names.contains key then
      match fields.assign key value with
      | .error e => .error e
      | .ok fields => ruleMembers fields tail
    else if value.isComplete then ruleMembers fields tail
    else .error .malformed

/-- The rule of a document. -/
def rule : Json → Except Error Rule
  | .object members => ruleMembers .initial members
  | .array items => ruleItems .initial RuleFields.names items
  | json => .error (unexpected json)

end Loading

namespace Rule

/-- The document of a rule. -/
def toJson (rule : Rule) : Json :=
  Json.ofMembers
    [("name", Json.ofString rule.name), ("ast", rule.tree.toJson),
     ("createdAt", Json.ofString rule.createdAt.text)]

/-- The JSON text of a rule. -/
def jsonText (rule : Rule) : String :=
  rule.toJson.text

/-- The rule that a JSON text stands for. -/
def ofJsonText (text : String) : Except Loading.Error Rule :=
  Loading.load Loading.rule text

end Rule
end Eligibility
