import Eligibility.Tree.Defect

/-!
# Stored — the uniform record in which trees are kept

A stored node has a kind, a value and up to two children, whatever it stands for, so that a stored
structure need not be a tree.

* `Tree.toStored` — the stored form of a tree;
* `Stored.toTree` — the tree that a stored structure stands for, or its first defect: a branch is
  checked for its keyword, then for its children, then for its level, then its children are read,
  the left one first.
-/

namespace Eligibility

/-- A stored node. -/
inductive Stored where
  | node (kind value : String) (left right : Option Stored)

namespace Stored

def operandKind : String :=
  "operand"

def branchKind : String :=
  "operator"

/-- The tree below `level` branches that a stored structure stands for. -/
def toTreeAt (level : Nat) : Stored → Except Tree.Defect Tree
  | node kind value left right =>
    if kind = operandKind then
      match left, right with
      | none, none => .ok (.operand value)
      | _, _ => .error (.operandWithChildren value)
    else if kind = branchKind then
      match Connective.ofKeyword? value with
      | none => .error (.unknownConnective value)
      | some op =>
        match left, right with
        | some left, some right =>
          if Tree.maxDepth ≤ level then .error .tooDeep
          else
            match toTreeAt (level + 1) left with
            | .error defect => .error defect
            | .ok left =>
              match toTreeAt (level + 1) right with
              | .error defect => .error defect
              | .ok right => .ok (.branch op left right)
        | _, _ => .error (.missingChild value)
    else .error (.unknownKind kind)

/-- The tree that a stored structure stands for. -/
def toTree (stored : Stored) : Except Tree.Defect Tree :=
  stored.toTreeAt 0

end Stored

namespace Tree

/-- The stored form of a tree. -/
def toStored : Tree → Stored
  | operand condition => .node Stored.operandKind condition none none
  | branch op left right =>
    .node Stored.branchKind op.keyword (some left.toStored) (some right.toStored)

end Tree
end Eligibility
