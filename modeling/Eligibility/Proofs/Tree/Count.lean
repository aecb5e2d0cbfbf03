import Mathlib.Algebra.Order.Ring.Nat
import Eligibility.Tree.Basic

/-!
# Count — the leaves and the branches of a tree

`Tree.leafCount` walks a tree with an explicit list of pending subtrees.  The walk adds up the
leaves of all pending subtrees, and every branch stands between two neighbouring leaves, so that a
tree has one leaf more than branches.

* `Tree.branchCount` — the branches of one connective;
* `Tree.countLeaves_eq_add_sum` — the walk from any list of pending subtrees;
* `Tree.leafCount_eq_length_leaves` — the walk from the root;
* `Tree.length_leaves` — leaves against branches.
-/

namespace Eligibility
namespace Tree

/-- The number of branches of a connective. -/
def branchCount (op : Connective) : Tree → Nat
  | operand _ => 0
  | branch op' left right =>
    left.branchCount op + right.branchCount op + if op' = op then 1 else 0

theorem countLeaves_eq_add_sum (pending : List Tree) (count : Nat) :
    countLeaves pending count = count + (pending.map fun tree => tree.leaves.length).sum := by
  fun_induction countLeaves pending count with
  | case1 count => rfl
  | case2 count condition rest ih =>
    rw [ih, List.map_cons, List.sum_cons, leaves, List.length_singleton]
    omega
  | case3 count op left right rest ih =>
    -- the two children have the leaves of the branch between them
    simp only [ih, List.map_cons, List.sum_cons, leaves, List.length_append]
    omega

theorem leafCount_eq_length_leaves (tree : Tree) : tree.leafCount = tree.leaves.length := by
  simp [leafCount, countLeaves_eq_add_sum]

theorem length_leaves (tree : Tree) :
    tree.leaves.length = tree.branchCount .and + tree.branchCount .or + 1 := by
  induction tree with
  | operand condition => rfl
  | branch op left right ihLeft ihRight =>
    rw [leaves, List.length_append, ihLeft, ihRight]
    cases op with
    | and =>
      simp only [branchCount, if_true, reduceCtorEq, if_false]
      omega
    | or =>
      simp only [branchCount, if_true, reduceCtorEq, if_false]
      omega

end Tree
end Eligibility
