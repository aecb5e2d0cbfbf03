import Eligibility.Condition
import Eligibility.Context
import Eligibility.Tree.Defect

/-!
# Validation — does a tree fit a context?

* `Context.checkCondition` — the check of one operand: a call names a known predicate; a comparison
  names a declared attribute, a known operator and a literal of the attribute's type;
* `Context.checkAt` — the check of a tree below a number of branches;
* `Context.validate` — the check of a whole tree.  The first defect is reported, the left side
  first.
-/

namespace Eligibility
namespace Context

/-- Does a literal fit the type of an attribute?  A string has to hold something. -/
def checkLiteral (attr literal : String) : ValueType → Except Tree.Defect Unit
  | .number =>
    if (Binary64.ofLiteral? literal).isSome then .ok () else .error (.expectedNumber attr literal)
  | .string => if literal.isEmpty then .error (.emptyString attr) else .ok ()

/-- Does the text of an operand fit the context? -/
def checkCondition (ctx : Context) (condition : String) : Except Tree.Defect Unit :=
  match Condition.parse? condition with
  | none => .error (.malformedCondition condition)
  | some (.call name _) =>
    if ctx.predicates.contains name then .ok () else .error (.undefinedFunction name)
  | some (.compare attr operator literal) =>
    match ctx.schema.get? attr with
    | none => .error (.unknownAttribute attr)
    | some type =>
      match Comparator.ofSymbol? operator with
      | none => .error (.unknownOperator operator condition)
      | some _ => checkLiteral attr literal type

/-- Does a tree below `level` branches fit the context? -/
def checkAt (ctx : Context) (level : Nat) : Tree → Except Tree.Defect Unit
  | .operand condition => ctx.checkCondition condition
  | .branch _ left right =>
    if Tree.maxDepth ≤ level then .error .tooDeep
    else
      match ctx.checkAt (level + 1) left with
      | .error defect => .error defect
      | .ok () => ctx.checkAt (level + 1) right

/-- Does a tree fit the context? -/
def validate (ctx : Context) (tree : Tree) : Except Tree.Defect Unit :=
  ctx.checkAt 0 tree

end Context
end Eligibility
