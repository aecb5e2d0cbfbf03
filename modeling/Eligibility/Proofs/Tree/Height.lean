import Eligibility.Tree.Basic

/-!
# Height — the depth of a tree, taken with a list of pending subtrees

`Tree.depth` walks a tree with an explicit list of pending subtrees, each with its own level, while
`Tree.height` follows the structure.  The walk reaches from every pending subtree the level of that
subtree plus its height, which makes the two measures equal:

* `Tree.deepestLevel_eq_foldl` — the walk from any list of pending subtrees;
* `Tree.depth_eq_height` — the walk from the root.
-/

namespace Eligibility
namespace Tree

/-- The walk takes the maximum over the levels that the pending subtrees reach. -/
theorem deepestLevel_eq_foldl (pending : List (Tree × Nat)) (deepest : Nat) :
    deepestLevel pending deepest =
      (pending.map fun entry => entry.2 + entry.1.height).foldl max deepest := by
  fun_induction deepestLevel pending deepest with
  | case1 deepest => rfl
  | case2 deepest condition level rest ih =>
    simpa [height] using ih
  | case3 deepest op left right level rest ih =>
    -- both children stand one level lower, and the branch reaches what the higher of them reaches
    have hreach : max (max deepest (level + 1 + right.height)) (level + 1 + left.height) =
        max deepest (level + (branch op left right).height) := by
      simp only [height]
      omega
    simpa [hreach] using ih

theorem depth_eq_height (tree : Tree) : tree.depth = tree.height := by
  have h := deepestLevel_eq_foldl [(tree, 0)] 0
  simpa [depth] using h

end Tree
end Eligibility
