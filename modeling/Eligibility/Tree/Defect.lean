import Eligibility.Tree.Basic

/-!
# Defect — why a tree is refused

The reasons that validation and the reading of stored trees give, and the wording of each.
-/

namespace Eligibility
namespace Tree

/-- A reason why a tree is refused. -/
inductive Defect where
  | unknownAttribute (attr : String)
  | unknownOperator (operator condition : String)
  | unknownConnective (operator : String)
  | expectedNumber (attr literal : String)
  | emptyString (attr : String)
  | malformedCondition (condition : String)
  | undefinedFunction (name : String)
  | unknownKind (kind : String)
  | missingChild (operator : String)
  | operandWithChildren (condition : String)
  | tooDeep
deriving DecidableEq, Repr

/-- The wording that every report of an over-deep tree shares. -/
def tooDeepMessage : String :=
  "tree is deeper than " ++ toString maxDepth ++ " operator levels"

namespace Defect

def message : Defect → String
  | unknownAttribute attr => "unknown attribute '" ++ attr ++ "'"
  | unknownOperator operator condition =>
    "invalid comparison operator '" ++ operator ++ "' in condition '" ++ condition ++ "'"
  | unknownConnective operator => "invalid boolean operator '" ++ operator ++ "'"
  | expectedNumber attr literal =>
    "attribute '" ++ attr ++ "' expects a number, got '" ++ literal ++ "'"
  | emptyString attr => "attribute '" ++ attr ++ "' expects a non-empty string"
  | malformedCondition condition => "malformed condition '" ++ condition ++ "'"
  | undefinedFunction name => "undefined function '" ++ name ++ "'"
  | unknownKind kind => "unknown node kind '" ++ kind ++ "'"
  | missingChild operator => "operator node '" ++ operator ++ "' is missing a child"
  | operandWithChildren condition =>
    "operand node '" ++ condition ++ "' must not have children"
  | tooDeep => tooDeepMessage

end Defect
end Tree
end Eligibility
