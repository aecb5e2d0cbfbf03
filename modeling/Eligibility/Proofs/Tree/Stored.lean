import Eligibility.Tree.Stored

/-!
# Stored — a tree is its own stored form, within the limit

The stored form of a tree has no defect but its depth, whatever its operands say, and only the
stored form of a tree is read as that tree.

* `Tree.toTreeAt_toStored` — the walk over the stored form below a number of branches;
* `Tree.toTree_toStored` — the walk from the root;
* `Stored.height`, `Stored.childwise` — structures of any shape, by way of the children there are;
* `Stored.eq_toStored_of_toTreeAt` — the structures that are read;
* `Stored.height_le_of_toTree` — the trees that are read keep the limit of depth.
-/

namespace Eligibility

theorem Connective.eq_keyword_of_ofKeyword? {text : String} {op : Connective}
    (h : ofKeyword? text = some op) : text = op.keyword := by
  unfold ofKeyword? at h
  split at h
  · cases h
    assumption
  · split at h
    · cases h
      assumption
    · cases h

namespace Tree

theorem toTreeAt_toStored (tree : Tree) {level : Nat} (h : level ≤ maxDepth) :
    tree.toStored.toTreeAt level =
      if level + tree.height ≤ maxDepth then .ok tree else .error .tooDeep := by
  induction tree generalizing level with
  | operand condition => simp [toStored, Stored.toTreeAt, height, h]
  | branch op left right ihLeft ihRight =>
    have hkind : Stored.branchKind ≠ Stored.operandKind := by decide
    by_cases hdeep : maxDepth ≤ level
    · have hheight : ¬ level + (branch op left right).height ≤ maxDepth := by
        simp only [height]
        omega
      simp [toStored, Stored.toTreeAt, hkind, hdeep, hheight]
    · have hnext : level + 1 ≤ maxDepth := by omega
      have hheight : level + (branch op left right).height ≤ maxDepth ↔
          level + 1 + left.height ≤ maxDepth ∧ level + 1 + right.height ≤ maxDepth := by
        simp only [height]
        omega
      -- the left side is read first, so its depth is found out first
      simp only [toStored, Stored.toTreeAt, hkind, if_false, if_true, Connective.ofKeyword?_keyword,
        hdeep, ihLeft hnext, ihRight hnext, hheight]
      by_cases hleft : level + 1 + left.height ≤ maxDepth
      · by_cases hright : level + 1 + right.height ≤ maxDepth
        · simp [hleft, hright]
        · simp [hleft, hright]
      · simp [hleft]

/-- A tree is read back from its stored form, unless it is too deep. -/
theorem toTree_toStored (tree : Tree) :
    tree.toStored.toTree = if tree.height ≤ maxDepth then .ok tree else .error .tooDeep := by
  have h := tree.toTreeAt_toStored (Nat.zero_le maxDepth)
  simpa [Stored.toTree] using h

end Tree

namespace Stored

/-! ## Structures -/

mutual

/-- The levels of nodes with a child on the longest way down. -/
def height : Stored → Nat
  | node _ _ left right => max (childHeight left) (childHeight right)

def childHeight : Option Stored → Nat
  | none => 0
  | some child => child.height + 1

end

/-- What goes from the children of a node, as far as there are any, to the node holds of every
structure. -/
@[elab_as_elim]
theorem childwise {motive : Stored → Prop}
    (node : ∀ kind value left right, (∀ child, left = some child → motive child) →
      (∀ child, right = some child → motive child) → motive (.node kind value left right)) :
    ∀ stored, motive stored
  | .node kind value none none => node kind value none none nofun nofun
  | .node kind value (some left) none =>
    node kind value (some left) none (fun _ h => Option.some.inj h ▸ childwise node left) nofun
  | .node kind value none (some right) =>
    node kind value none (some right) nofun (fun _ h => Option.some.inj h ▸ childwise node right)
  | .node kind value (some left) (some right) =>
    node kind value (some left) (some right) (fun _ h => Option.some.inj h ▸ childwise node left)
      (fun _ h => Option.some.inj h ▸ childwise node right)

theorem height_toStored (tree : Tree) : tree.toStored.height = tree.height := by
  induction tree with
  | operand condition => rfl
  | branch op left right ihLeft ihRight =>
    simp only [Tree.toStored, height, childHeight, Tree.height, ihLeft, ihRight]
    omega

/-! ## The structures of trees -/

/-- A structure that is read as a tree is the stored form of that tree. -/
theorem eq_toStored_of_toTreeAt {level : Nat} {stored : Stored} {tree : Tree}
    (h : stored.toTreeAt level = .ok tree) : stored = tree.toStored := by
  -- only an operand without children and a branch with both of its children are read
  fun_induction toTreeAt level stored generalizing tree with
  | case1 level value =>
    cases h
    rfl
  | case7 level value op hop left right hlevel leftTree hleft rightTree hright _ ihLeft ihRight =>
    cases h
    rw [Tree.toStored, ← ihLeft hleft, ← ihRight hright, ← Connective.eq_keyword_of_ofKeyword? hop]
  | case2 | case3 | case4 | case5 | case6 | case8 | case9 => cases h

theorem height_le_of_toTree {stored : Stored} {tree : Tree} (h : stored.toTree = .ok tree) :
    tree.height ≤ Tree.maxDepth := by
  have hstored : stored = tree.toStored := eq_toStored_of_toTreeAt h
  rw [hstored, tree.toTree_toStored] at h
  by_cases hheight : tree.height ≤ Tree.maxDepth
  · exact hheight
  · rw [if_neg hheight] at h
    cases h

end Stored
end Eligibility
