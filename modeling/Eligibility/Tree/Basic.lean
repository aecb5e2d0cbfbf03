import Eligibility.Text.Name

/-!
# Tree — rules as trees of conditions

A rule is a binary tree: its leaves, the operands, hold the text of a condition, and its branches
join two subtrees by a connective.

* `Connective`, with its keyword and the case-insensitive recogniser `Connective.ofWord?`;
* `Tree`, with its text `Tree.text`, every branch between parentheses;
* `Tree.height` and `Tree.leaves`, the structural views;
* `Tree.depth` and `Tree.leafCount`, the same two measures computed with an explicit list of
  pending subtrees, so that the height of a tree is no limit to them;
* `Tree.maxDepth`, the limit that every reader and combiner of trees keeps.
-/

namespace Eligibility

/-- What joins the two sides of a branch. -/
inductive Connective where
  | and
  | or
deriving DecidableEq, Repr

namespace Connective

def keyword : Connective → String
  | and => "AND"
  | or => "OR"

/-- The connective whose keyword is exactly the given text. -/
def ofKeyword? (text : String) : Option Connective :=
  if text = "AND" then some and
  else if text = "OR" then some or
  else none

/-- The connective that a word of rule text stands for, in any letter case. -/
def ofWord? (cs : List Char) : Option Connective :=
  if Text.lower cs = ['a', 'n', 'd'] then some and
  else if Text.lower cs = ['o', 'r'] then some or
  else none

/-- The truth function of a connective. -/
def apply : Connective → Bool → Bool → Bool
  | and, left, right => left && right
  | or, left, right => left || right

@[simp] theorem ofKeyword?_keyword (op : Connective) : ofKeyword? op.keyword = some op := by
  cases op <;> decide

@[simp] theorem ofWord?_keyword (op : Connective) : ofWord? op.keyword.toList = some op := by
  cases op <;> decide

end Connective

/-- A rule. -/
inductive Tree where
  | operand (condition : String)
  | branch (op : Connective) (left right : Tree)
deriving DecidableEq, Repr

namespace Tree

/-- The most levels of branches that a compiled, combined or loaded tree may have. -/
def maxDepth : Nat :=
  64

/-- The text of a tree: every branch stands between parentheses. -/
def text : Tree → String
  | operand condition => condition
  | branch op left right =>
    "(" ++ left.text ++ " " ++ op.keyword ++ " " ++ right.text ++ ")"

/-! ## Structural views -/

/-- The levels of branches on the longest path to a leaf. -/
def height : Tree → Nat
  | operand _ => 0
  | branch _ left right => max left.height right.height + 1

/-- The conditions at the leaves, from left to right. -/
def leaves : Tree → List String
  | operand condition => [condition]
  | branch _ left right => left.leaves ++ right.leaves

/-- The number of operands and branches. -/
def nodeCount : Tree → Nat
  | operand _ => 1
  | branch _ left right => left.nodeCount + right.nodeCount + 1

/-! ## Measures with a list of pending subtrees -/

/-- The greatest level of an operand among pending subtrees, each given with its own level, and
`deepest`. -/
def deepestLevel (pending : List (Tree × Nat)) (deepest : Nat) : Nat :=
  match pending with
  | [] => deepest
  | (operand _, level) :: rest => deepestLevel rest (max deepest level)
  | (branch _ left right, level) :: rest =>
    deepestLevel ((right, level + 1) :: (left, level + 1) :: rest) deepest
termination_by pending.foldr (fun entry count => entry.1.nodeCount + count) 0
decreasing_by
  all_goals simp only [List.foldr_cons, nodeCount]; omega

/-- The levels of branches on the longest path to a leaf. -/
def depth (tree : Tree) : Nat :=
  deepestLevel [(tree, 0)] 0

/-- The number of operands in pending subtrees, on top of `count`. -/
def countLeaves (pending : List Tree) (count : Nat) : Nat :=
  match pending with
  | [] => count
  | operand _ :: rest => countLeaves rest (count + 1)
  | branch _ left right :: rest => countLeaves (right :: left :: rest) count
termination_by pending.foldr (fun tree count => tree.nodeCount + count) 0
decreasing_by
  all_goals simp only [List.foldr_cons, nodeCount]; omega

/-- The number of leaves. -/
def leafCount (tree : Tree) : Nat :=
  countLeaves [tree] 0

end Tree
end Eligibility
