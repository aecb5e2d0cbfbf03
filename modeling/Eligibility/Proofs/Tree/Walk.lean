import Eligibility.Proofs.Loop
import Eligibility.Proofs.Tree.Count
import Eligibility.Proofs.Tree.Height

/-!
# Walk — a round for every place of a tree

The walks of `Tree.depth` and `Tree.leafCount` take one pending subtree in each round.  An operand
is done with, and a branch leaves its two sides, the right one on top.  Every operand and every
branch is taken once, so that a walk is over after as many rounds as the tree has of both.

* `Tree.depthRound`, `Tree.countRound` — the rounds of the two walks;
* `Tree.ends_depthRound`, `Tree.ends_countRound` — their number and their result, from any list of
  pending subtrees;
* `Tree.ends_depth`, `Tree.ends_leafCount` — the same from the root, where the results are those of
  the recursion over the tree.
-/

namespace Eligibility
namespace Tree

open Loop (Round Ends)

/-- One round of the walk that looks for the deepest operand. -/
def depthRound : List (Tree × Nat) × Nat → Round (List (Tree × Nat) × Nat) Nat
  | ([], deepest) => .done deepest
  | ((operand _, level) :: rest, deepest) => .next (rest, max deepest level)
  | ((branch _ left right, level) :: rest, deepest) =>
    .next ((right, level + 1) :: (left, level + 1) :: rest, deepest)

/-- One round of the walk that counts the operands. -/
def countRound : List Tree × Nat → Round (List Tree × Nat) Nat
  | ([], count) => .done count
  | (operand _ :: rest, count) => .next (rest, count + 1)
  | (branch _ left right :: rest, count) => .next (right :: left :: rest, count)

theorem ends_depthRound (pending : List (Tree × Nat)) (deepest : Nat) :
    Ends depthRound (pending.map fun entry => entry.1.nodeCount).sum (pending, deepest)
      (deepestLevel pending deepest) := by
  -- every case of the walk is a round, and takes one place of the pending subtrees
  fun_induction deepestLevel pending deepest with
  | case1 deepest => exact .done rfl
  | case2 deepest condition level rest ih =>
    have hround : depthRound ((operand condition, level) :: rest, deepest) =
        .next (rest, max deepest level) := rfl
    have hnext := Ends.next hround ih
    simpa [nodeCount, Nat.add_comm] using hnext
  | case3 deepest op left right level rest ih =>
    have hround : depthRound ((branch op left right, level) :: rest, deepest) =
        .next ((right, level + 1) :: (left, level + 1) :: rest, deepest) := rfl
    have hnext := Ends.next hround ih
    simpa [nodeCount, Nat.add_comm, Nat.add_left_comm, Nat.add_assoc] using hnext

theorem ends_countRound (pending : List Tree) (count : Nat) :
    Ends countRound (pending.map nodeCount).sum (pending, count) (countLeaves pending count) := by
  fun_induction countLeaves pending count with
  | case1 count => exact .done rfl
  | case2 count condition rest ih =>
    have hround : countRound (operand condition :: rest, count) = .next (rest, count + 1) := rfl
    have hnext := Ends.next hround ih
    simpa [nodeCount, Nat.add_comm] using hnext
  | case3 count op left right rest ih =>
    have hround : countRound (branch op left right :: rest, count) =
        .next (right :: left :: rest, count) := rfl
    have hnext := Ends.next hround ih
    simpa [nodeCount, Nat.add_comm, Nat.add_left_comm, Nat.add_assoc] using hnext

theorem ends_depth (tree : Tree) :
    Ends depthRound tree.nodeCount ([(tree, 0)], 0) tree.depth := by
  have hends := ends_depthRound [(tree, 0)] 0
  simpa [depth] using hends

theorem ends_leafCount (tree : Tree) :
    Ends countRound tree.nodeCount ([tree], 0) tree.leafCount := by
  have hends := ends_countRound [tree] 0
  simpa [leafCount] using hends

end Tree
end Eligibility
