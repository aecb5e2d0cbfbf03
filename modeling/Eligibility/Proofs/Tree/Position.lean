import Eligibility.Tree.Basic

/-!
# Position — the places of a tree in the order of a visit

A visit meets every branch before its two sides, and the left side before the right one.  A branch
is at fault when too many branches stand above it, whatever stands below; an operand is at fault of
itself.  A walk that stops at its first fault therefore stops at the first place of this order that
is at fault.

* `Tree.Position`, `Tree.positionsAt`, `Tree.positions` — the places in order;
* `Tree.Position.fault?` — the fault at a place;
* `Tree.firstFaultOr` — the outcome of a walk that stops at its first fault;
* `Tree.branch_mem_positionsAt_iff`, `Tree.operand_mem_positionsAt_iff` — which places a tree has;
* `Tree.firstFaultOr_branch` — a walk over a branch, side by side;
* `Tree.forall_fault?_eq_none_iff` — the trees without a fault;
* `Tree.findSome?_fault?_of_le`, `Tree.firstFaultOr_positionsAt_of_le` — within the limit of depth,
  the operands alone decide.
-/

namespace Eligibility
namespace Tree

/-- A place of a tree. -/
inductive Position where
  | operand (condition : String)
  /-- A branch below `level` others. -/
  | branch (level : Nat)
deriving DecidableEq, Repr

/-- The places of a tree below `level` branches. -/
def positionsAt (level : Nat) : Tree → List Position
  | operand condition => [.operand condition]
  | branch _ left right =>
    .branch level :: (left.positionsAt (level + 1) ++ right.positionsAt (level + 1))

/-- The places of a tree: a branch first, then its left and its right side. -/
def positions (tree : Tree) : List Position :=
  tree.positionsAt 0

variable {ε α : Type}

/-- The fault at a place, when an operand has the faults that are given for its condition. -/
def Position.fault? (operandFault? : String → Option ε) (tooDeep : ε) : Position → Option ε
  | operand condition => operandFault? condition
  | branch level => if maxDepth ≤ level then some tooDeep else none

/-- The first fault among some places, or else a value. -/
def firstFaultOr (fault? : Position → Option ε) (positions : List Position) (value : α) :
    Except ε α :=
  match positions.findSome? fault? with
  | some fault => .error fault
  | none => .ok value

/-! ## The places of a tree -/

/-- Every level down to the height of a tree has a branch, and no level further down. -/
theorem branch_mem_positionsAt_iff {tree : Tree} {level reached : Nat} :
    .branch reached ∈ tree.positionsAt level ↔
      level ≤ reached ∧ reached < level + tree.height := by
  induction tree generalizing level with
  | operand condition =>
    simp [positionsAt, height]
  | branch op left right ihLeft ihRight =>
    simp only [positionsAt, List.mem_cons, List.mem_append, Position.branch.injEq, ihLeft, ihRight,
      height]
    omega

theorem operand_mem_positionsAt_iff {tree : Tree} {level : Nat} {condition : String} :
    .operand condition ∈ tree.positionsAt level ↔ condition ∈ tree.leaves := by
  induction tree generalizing level with
  | operand condition' => simp [positionsAt, leaves]
  | branch op left right ihLeft ihRight => simp [positionsAt, leaves, ihLeft, ihRight]

/-! ## The first fault -/

section
variable {fault? : Position → Option ε} {operandFault? : String → Option ε} {tooDeep : ε}

/-- A walk over a branch: the branch itself, then its left side, then its right side. -/
theorem firstFaultOr_branch (op : Connective) (left right : Tree) (level : Nat) (value : α) :
    firstFaultOr (Position.fault? operandFault? tooDeep) ((branch op left right).positionsAt level)
        value =
      if maxDepth ≤ level then .error tooDeep
      else
        match (left.positionsAt (level + 1)).findSome? (Position.fault? operandFault? tooDeep) with
        | some fault => .error fault
        | none =>
          firstFaultOr (Position.fault? operandFault? tooDeep) (right.positionsAt (level + 1))
            value := by
  unfold firstFaultOr
  rw [positionsAt, List.findSome?_cons, List.findSome?_append]
  by_cases hdeep : maxDepth ≤ level
  · simp [Position.fault?, hdeep]
  · cases hleft :
      (left.positionsAt (level + 1)).findSome? (Position.fault? operandFault? tooDeep) with
    | some fault => simp [Position.fault?, hdeep]
    | none => simp [Position.fault?, hdeep]

theorem firstFaultOr_of_first {before after : List Position} {position : Position} {fault : ε}
    {value : α} (hbefore : ∀ other ∈ before, fault? other = none)
    (h : fault? position = some fault) :
    firstFaultOr fault? (before ++ position :: after) value = .error fault := by
  rw [firstFaultOr, List.findSome?_append, List.findSome?_eq_none_iff.2 hbefore]
  simp [h]

theorem firstFaultOr_eq_ok_iff {positions : List Position} {value reached : α} :
    firstFaultOr fault? positions value = .ok reached ↔
      value = reached ∧ ∀ position ∈ positions, fault? position = none := by
  rw [← List.findSome?_eq_none_iff, firstFaultOr]
  cases positions.findSome? fault? with
  | some fault => simp
  | none => simp

theorem firstFaultOr_eq_error_iff {positions : List Position} {value : α} {fault : ε} :
    firstFaultOr fault? positions value = .error fault ↔
      positions.findSome? fault? = some fault := by
  unfold firstFaultOr
  cases positions.findSome? fault? with
  | some fault' => simp
  | none => simp

/-- A tree has no fault just when it keeps the limit of depth and no operand is at fault. -/
theorem forall_fault?_eq_none_iff {tree : Tree} {level : Nat} (hlevel : level ≤ maxDepth) :
    (∀ position ∈ tree.positionsAt level, position.fault? operandFault? tooDeep = none) ↔
      level + tree.height ≤ maxDepth ∧
        ∀ condition ∈ tree.leaves, operandFault? condition = none := by
  constructor
  · intro h
    refine ⟨?_, ?_⟩
    · -- a tree that went beyond the limit would have a branch right at the limit
      refine Nat.le_of_not_lt fun hdeep => ?_
      have hmem : .branch maxDepth ∈ tree.positionsAt level :=
        branch_mem_positionsAt_iff.2 ⟨hlevel, by omega⟩
      have hnone := h _ hmem
      simp [Position.fault?] at hnone
    · intro condition hcondition
      exact h _ (operand_mem_positionsAt_iff.2 hcondition)
  · rintro ⟨hheight, hleaves⟩ position hposition
    cases position with
    | operand condition => exact hleaves condition (operand_mem_positionsAt_iff.1 hposition)
    | branch reached =>
      have hreached := branch_mem_positionsAt_iff.1 hposition
      have hlimit : ¬ maxDepth ≤ reached := by omega
      simp [Position.fault?, hlimit]

/-- Within the limit of depth, the first fault of a tree is the first one among its operands. -/
theorem findSome?_fault?_of_le {tree : Tree} {level : Nat}
    (h : level + tree.height ≤ maxDepth) :
    (tree.positionsAt level).findSome? (Position.fault? operandFault? tooDeep) =
      tree.leaves.findSome? operandFault? := by
  induction tree generalizing level with
  | operand condition => simp [positionsAt, leaves, Position.fault?]
  | branch op left right ihLeft ihRight =>
    simp only [height] at h
    have hlevel : ¬ maxDepth ≤ level := by omega
    -- both sides stand one level further down
    have hleft : level + 1 + left.height ≤ maxDepth := by omega
    have hright : level + 1 + right.height ≤ maxDepth := by omega
    simp [positionsAt, leaves, Position.fault?, hlevel, ihLeft hleft, ihRight hright]

/-- Within the limit of depth, it makes no difference how far down a tree stands. -/
theorem firstFaultOr_positionsAt_of_le {tree : Tree} {level : Nat}
    (h : level + tree.height ≤ maxDepth) (value : α) :
    firstFaultOr (Position.fault? operandFault? tooDeep) (tree.positionsAt level) value =
      firstFaultOr (Position.fault? operandFault? tooDeep) tree.positions value := by
  have hroot : 0 + tree.height ≤ maxDepth := by omega
  rw [firstFaultOr, firstFaultOr, positions, findSome?_fault?_of_le h, findSome?_fault?_of_le hroot]

end

end Tree
end Eligibility
