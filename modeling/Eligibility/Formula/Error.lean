import Eligibility.Tree.Basic

/-!
# Error — why rule text is refused

The reasons that reading a rule text gives, and the wording of each.  Offsets count UTF-8 bytes
from the start of the text.
-/

namespace Eligibility
namespace Formula

/-- A reason why rule text is refused. -/
inductive Error where
  /-- There is no token. -/
  | empty
  /-- A quote is still open at the end of the text. -/
  | unclosedQuote (offset : Nat) (quote : Char)
  /-- The arguments of a call meet another `(` or the end of the text. -/
  | unclosedCall (offset : Nat)
  /-- A word that starts a comparison is not followed by two more words. -/
  | incompleteCondition (attr : String)
  /-- A parenthesis has no partner. -/
  | unbalancedParentheses
  /-- A connective lacks a side. -/
  | missingOperand (op : Connective)
  /-- The text falls into several trees. -/
  | disconnected (trees : Nat)
  /-- The tree has more levels than `Tree.maxDepth`. -/
  | tooDeep
deriving DecidableEq, Repr

namespace Error

/-- The wording of what goes wrong at an offset: a heading, and on the next line what was due. -/
def lexicalMessage (offset : Nat) (heading due : String) : String :=
  "parse error at offset " ++ toString offset ++ ": invalid " ++ heading ++ "\nexpected " ++ due

def message : Error → String
  | empty => "parse error: rule is empty"
  | unclosedQuote offset quote =>
    lexicalMessage offset "quoted literal" ("`" ++ String.singleton quote ++ "`")
  | unclosedCall offset =>
    lexicalMessage offset "function call" "`)` (calls cannot be nested)"
  | incompleteCondition attr =>
    "parse error: condition on '" ++ attr ++ "' needs an operator and a value"
  | unbalancedParentheses => "parse error: unbalanced parentheses"
  | missingOperand op => "parse error: '" ++ op.keyword ++ "' is missing an operand"
  | disconnected trees =>
    "parse error: invalid AST structure (" ++ toString trees ++ " disconnected sub-trees)"
  | tooDeep =>
    "parse error: rule nests deeper than " ++ toString Tree.maxDepth ++ " operator levels"

end Error
end Formula
end Eligibility
