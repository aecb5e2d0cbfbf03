import Eligibility.Error
import Eligibility.Formula.Reduction
import Eligibility.Report
import Eligibility.Validation

/-!
# Catalog — the life of stored rules

The operations on the rules of a store, for a context.  Rule text is compiled and validated before
it reaches the store.

* `Catalog.Action` — what an operation does to a store: an answer or an error, and a store;
* `Catalog.create`, `Catalog.modify`, `Catalog.combine`, `Catalog.delete` — the changes;
* `Catalog.find`, `Catalog.evaluate`, `Catalog.reportAll` — the questions;
* `Catalog.reload` — the way through a snapshot and back.
-/

namespace Eligibility
namespace Context

/-- The tree of a rule text that fits the context. -/
def compile (ctx : Context) (text : String) : Except Error Tree :=
  match Formula.compile text with
  | .error e => .error (.formula e)
  | .ok tree =>
    match ctx.validate tree with
    | .error defect => .error (.validation defect)
    | .ok () => .ok tree

/-- The combination of stored rules, in the order given. -/
def combineRules (rules : List Rule) : Except Combination.Error Combination :=
  Combination.ofParts (rules.map fun rule => (rule.name, rule.tree))

/-- The report of stored rules, in the order given. -/
def reportRules (ctx : Context) (record : Record) (rules : List Rule) : Report :=
  ctx.report record (rules.map fun rule => (rule.name, rule.tree))

end Context

namespace Catalog

/-- An operation: an answer or an error, and the store afterwards. -/
abbrev Action (α : Type) :=
  ExceptT Error (StateM Store) α

/-- An operation that answers without looking at the store. -/
def answer {α : Type} : Except Error α → Action α
  | .ok a => pure a
  | .error e => throw e

/-! ## Changes of the store -/

/-- Puts in a rule whose name is new. -/
def insert (rule : Rule) : Action Rule := do
  match (← get).insert rule with
  | .error e => throw (.store e)
  | .ok store =>
    set store
    return rule

/-- Replaces the tree of a rule. -/
def update (name : String) (tree : Tree) : Action Rule := do
  match (← get).update name tree with
  | .error e => throw (.store e)
  | .ok (rule, store) =>
    set store
    return rule

/-- Takes a rule out. -/
def delete (name : String) : Action Unit := do
  match (← get).delete name with
  | .error e => throw (.store e)
  | .ok store => set store

/-- Compiles, validates and stores a new rule. -/
def create (ctx : Context) (now : Instant) (name text : String) : Action Rule := do
  let tree ← answer (ctx.compile text)
  insert ⟨name, tree, now⟩

/-- Compiles and validates a text and stores its tree under a known name. -/
def modify (ctx : Context) (name text : String) : Action Rule := do
  let tree ← answer (ctx.compile text)
  update name tree

/-- The rules of a store under the names that a request has for them. -/
def found (store : Store) (names : List String) : Table Rule :=
  .ofList ((Store.distinct [] names).filterMap fun name => (store.get? name).map (Prod.mk name))

/-- The names in `absent`, and those of a request that are neither found nor there yet. -/
def absentNames (rules : Table Rule) (absent : List String) : List String → List String
  | [] => absent
  | name :: rest =>
    if !rules.contains name && !absent.contains name then
      absentNames rules (absent ++ [name]) rest
    else absentNames rules absent rest

/-- The rules of some names, in the order given, a repeated name each time. -/
def resolve (names : List String) : Action (List Rule) := do
  let rules := found (← get) names
  -- a repeated name is found each time but reported missing once
  let absent := absentNames rules [] names
  if absent.isEmpty then return names.filterMap rules.get?
  else throw (.store (.missingRules absent))

/-- Combines stored rules into a new one. -/
def combine (now : Instant) (names : List String) : Action Rule := do
  let rules ← resolve names
  match Context.combineRules rules with
  | .error e => throw (.combination e)
  | .ok combination => insert ⟨combination.name, combination.tree, now⟩

/-! ## Questions to the store -/

/-- The rule of a name. -/
def find (name : String) : Action Rule := do
  match (← get).get? name with
  | none => throw (.store (.notFound name))
  | some rule => return rule

/-- The verdict of a stored rule. -/
def evaluate (ctx : Context) (name : String) (record : Record) : Action Bool := do
  let rule ← find name
  match ctx.evaluate record rule.tree with
  | .error failure => throw (.evaluation failure)
  | .ok passed => return passed

/-- The report of all stored rules. -/
def reportAll (ctx : Context) (record : Record) : Action Report := do
  return ctx.reportRules record (← get).all

/-! ## Snapshots -/

/-- Writes the store as a snapshot and goes on with the store that is read back. -/
def reload : Action Nat := do
  match Store.ofBytes (← get).toBytes with
  | .error e => throw (.snapshot e)
  | .ok store =>
    set store
    return store.size

end Catalog
end Eligibility
