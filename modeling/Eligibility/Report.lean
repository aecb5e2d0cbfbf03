import Eligibility.Evaluation
import Eligibility.Json.Writer

/-!
# Report — one record against many rules

* `Outcome` — the verdict on one named rule, or the wording of its failure;
* `Report` — the outcomes in the order of the rules; the record is eligible when every rule passes;
* `Context.report` — the report of named trees.  Many trees are split among workers, whose parts
  are put together in order.
-/

namespace Eligibility

/-- What came of one rule.  A rule that failed has not passed. -/
structure Outcome where
  rule : String
  passed : Bool
  error : Option String
deriving DecidableEq, Repr

namespace Outcome

/-- The outcome of a verdict. -/
def ofVerdict (rule : String) (passed : Bool) : Outcome :=
  ⟨rule, passed, none⟩

/-- The outcome of a failure. -/
def ofError (rule error : String) : Outcome :=
  ⟨rule, false, some error⟩

def ofResult (rule : String) : Except Evaluation.Failure Bool → Outcome
  | .ok passed => ofVerdict rule passed
  | .error failure => ofError rule failure.message

def display (o : Outcome) : String :=
  match o.error with
  | some error => o.rule ++ " = error: " ++ error
  | none => o.rule ++ " = " ++ toString o.passed

def toJson (o : Outcome) : Json :=
  let members := [("ruleName", Json.ofString o.rule), ("passed", Json.bool o.passed)]
  match o.error with
  | some error => Json.ofMembers (members ++ [("error", Json.ofString error)])
  | none => Json.ofMembers members

end Outcome

/-- The outcomes of rules on one record. -/
structure Report where
  outcomes : List Outcome
deriving DecidableEq, Repr

namespace Report

/-- Did every rule pass? -/
def isEligible (r : Report) : Bool :=
  r.outcomes.all Outcome.passed

/-- The first outcome of a rule of the given name. -/
def find? (r : Report) (rule : String) : Option Outcome :=
  r.outcomes.find? fun o => o.rule == rule

/-- The outcomes of the rules that failed. -/
def errors (r : Report) : List Outcome :=
  r.outcomes.filter fun o => o.error.isSome

def display (r : Report) : String :=
  "eligible: " ++ toString r.isEligible ++ ", results: [" ++
    ", ".intercalate (r.outcomes.map Outcome.display) ++ "]"

def toJson (r : Report) : Json :=
  Json.ofMembers
    [("isEligible", Json.bool r.isEligible),
     ("results", Json.ofList (r.outcomes.map Outcome.toJson))]

end Report

/-! ## Batches -/

namespace Batch

/-- From this number of trees on, a batch is split. -/
def threshold : Nat :=
  64

/-- A list cut into parts of `size` elements, the last part possibly shorter.  No part is empty. -/
def chunks {α : Type} (size : Nat) (xs : List α) : List (List α) :=
  match xs with
  | [] => []
  | x :: rest => (x :: rest.take (size - 1)) :: chunks size (rest.drop (size - 1))
termination_by xs.length
decreasing_by simp only [List.length_drop, List.length_cons]; omega

/-- A function on every element, with the elements split evenly among tasks. -/
def mapSplit {α β : Type} (workers : Nat) (f : α → β) (xs : List α) : List β :=
  let size := (xs.length + workers - 1) / workers
  let tasks := (chunks size xs).map fun part => Task.spawn fun _ => part.map f
  tasks.flatMap Task.get

/-- A function on every element; a long list is split among tasks. -/
def map {α β : Type} (workers : Nat) (f : α → β) (xs : List α) : List β :=
  if xs.length < threshold then xs.map f else mapSplit workers f xs

end Batch

namespace Context

/-- The outcome of one named tree. -/
def outcome (ctx : Context) (record : Record) (rule : String × Tree) : Outcome :=
  .ofResult rule.1 (ctx.evaluate record rule.2)

/-- The report of named trees, computed by the given number of tasks. -/
def reportWith (ctx : Context) (workers : Nat) (record : Record) (rules : List (String × Tree)) :
    Report :=
  ⟨Batch.map workers (ctx.outcome record) rules⟩

/-- The number of tasks of a large batch. -/
def defaultWorkers : Nat :=
  4

/-- The report of named trees. -/
def report (ctx : Context) (record : Record) (rules : List (String × Tree)) : Report :=
  ctx.reportWith defaultWorkers record rules

end Context
end Eligibility
