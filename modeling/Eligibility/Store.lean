import Eligibility.Rule
import Eligibility.Snapshot.Basic
import Eligibility.Table

/-!
# Store — rules under their names

A store keeps rules by name.  Its answers do not depend on the order in which they came in: rules
are listed by age and then by name, names in their own order.

* `Table.get?`, `Store.findMany`, `Store.all`, `Store.names` — the views;
* `Store.insert`, `Store.update`, `Store.delete` — the changes, or why there is none;
* `Store.toBytes`, `Store.ofBytes` — snapshots.
-/

namespace Eligibility

/-- Rules under their names. -/
abbrev Store :=
  Table Rule

namespace Store

/-- A reason why a store is not changed, or does not have what is asked for. -/
inductive Error where
  | duplicateName (name : String)
  | notFound (name : String)
  | missingRules (names : List String)
deriving DecidableEq, Repr

def Error.message : Error → String
  | duplicateName name => "a rule named '" ++ name ++ "' already exists"
  | notFound name => "rule '" ++ name ++ "' not found"
  | missingRules names => "rules not found: " ++ ", ".intercalate names

/-! ## Views -/

/-- The names of a list at their first occurrence, without those in `seen`. -/
def distinct (seen : List String) : List String → List String
  | [] => []
  | name :: rest =>
    if seen.contains name then distinct seen rest else name :: distinct (name :: seen) rest

/-- The stored rules of some names, each once, in the order of the names. -/
def findMany (store : Store) (names : List String) : List Rule :=
  (distinct [] names).filterMap store.get?

/-- All rules, the oldest first. -/
def all (store : Store) : List Rule :=
  store.values.mergeSort Rule.precedes

/-- All names in order. -/
def names (store : Store) : List String :=
  store.keys.mergeSort fun a b => decide (a ≤ b)

/-! ## Changes -/

/-- The store with one more rule, whose name has to be new. -/
def insert (store : Store) (rule : Rule) : Except Error Store :=
  if store.contains rule.name then .error (.duplicateName rule.name)
  else .ok (Table.insert store rule.name rule)

/-- The store with another tree for a rule, and that rule. -/
def update (store : Store) (name : String) (tree : Tree) : Except Error (Rule × Store) :=
  match store.get? name with
  | none => .error (.notFound name)
  | some rule =>
    let updated := { rule with tree := tree }
    .ok (updated, Table.insert store name updated)

/-- The store without a rule. -/
def delete (store : Store) (name : String) : Except Error Store :=
  if store.contains name then .ok (store.erase name) else .error (.notFound name)

/-! ## Snapshots -/

/-- The store of a list of rules; of several under one name the last is kept. -/
def ofRules (rules : List Rule) : Store :=
  .ofList (rules.map fun rule => (rule.name, rule))

/-- The snapshot of a store. -/
def toBytes (store : Store) : List UInt8 :=
  Snapshot.encode store.all

/-- The store of a snapshot. -/
def ofBytes (bytes : List UInt8) : Except Snapshot.Error Store :=
  (Snapshot.decode bytes).map ofRules

end Store
end Eligibility
