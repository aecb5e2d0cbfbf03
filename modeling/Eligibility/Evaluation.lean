import Eligibility.Condition
import Eligibility.Context
import Eligibility.Tree.Defect

/-!
# Evaluation — is a tree true of a record?

Both sides of every branch are evaluated, so that a failure anywhere in a tree surfaces even when
the other side decides the verdict.

* `Evaluation.Failure` — why a tree has no verdict, with the wording;
* `Context.evaluateCondition` — the verdict of one operand;
* `Context.evaluate` — the verdict of a tree; of several failures the leftmost counts.
-/

namespace Eligibility
namespace Evaluation

/-- A reason why a tree has no verdict on a record. -/
inductive Failure where
  | missingData (attr : String)
  | unknownAttribute (attr : String)
  | unknownOperator (operator : String)
  | undefinedFunction (name : String)
  | invalidNumber (attr literal : String)
  | malformedCondition (condition : String)
  | tooDeep
deriving DecidableEq, Repr

namespace Failure

def message : Failure → String
  | missingData attr => "missing data for attribute '" ++ attr ++ "'"
  | unknownAttribute attr => "unknown attribute '" ++ attr ++ "'"
  | unknownOperator operator => "unknown operator '" ++ operator ++ "'"
  | undefinedFunction name => "undefined function '" ++ name ++ "'"
  | invalidNumber attr literal =>
    "literal '" ++ literal ++ "' is not a valid number for attribute '" ++ attr ++ "'"
  | malformedCondition condition => "malformed condition '" ++ condition ++ "'"
  | tooDeep => Tree.tooDeepMessage

end Failure
end Evaluation

namespace Context

open Evaluation (Failure)

/-- The verdict of an operand. -/
def evaluateCondition (ctx : Context) (record : Record) (condition : String) :
    Except Failure Bool :=
  match Condition.parse? condition with
  | none => .error (.malformedCondition condition)
  | some (.call name _) =>
    match ctx.predicates.get? name with
    | none => .error (.undefinedFunction name)
    | some test => .ok (test record)
  | some (.compare attr operator literal) =>
    match ctx.schema.get? attr with
    | none => .error (.unknownAttribute attr)
    | some type =>
      match record.get? attr with
      | none => .error (.missingData attr)
      | some actual =>
        match Comparator.ofSymbol? operator with
        | none => .error (.unknownOperator operator)
        | some op =>
          match Value.ofLiteral? type literal with
          | none => .error (.invalidNumber attr literal)
          | some expected => .ok (actual.compare op expected)

/-- The verdict of a tree below `level` branches. -/
def evaluateAt (ctx : Context) (record : Record) (level : Nat) : Tree → Except Failure Bool
  | .operand condition => ctx.evaluateCondition record condition
  | .branch op left right =>
    if Tree.maxDepth ≤ level then .error .tooDeep
    else
      -- the right side is evaluated whatever the left verdict, as it may fail
      match ctx.evaluateAt record (level + 1) left with
      | .error failure => .error failure
      | .ok left =>
        match ctx.evaluateAt record (level + 1) right with
        | .error failure => .error failure
        | .ok right => .ok (op.apply left right)

/-- The verdict of a tree on a record. -/
def evaluate (ctx : Context) (record : Record) (tree : Tree) : Except Failure Bool :=
  ctx.evaluateAt record 0 tree

end Context
end Eligibility
