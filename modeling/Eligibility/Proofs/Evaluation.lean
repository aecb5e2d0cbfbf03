import Eligibility.Evaluation
import Eligibility.Proofs.Validation

/-!
# Evaluation — the verdict of a tree from the verdicts of its operands

Evaluation is strict: a tree within the limit of depth has a verdict when each of its operands has
one, and otherwise fails as its leftmost failing operand does.  An operand that fits the context
can fail in one way only, by the absence of the attribute that it compares.

* `Tree.verdict` — the truth value of a tree under an assignment of truth values to conditions, and
  `Tree.verdict_branch`, its agreement with the evaluator's truth function of a connective;
* `Context.failure?`, `Context.holds` — the two outcomes of an operand;
* `Context.evaluateAt_eq_firstFaultOr` — evaluation in these terms, for trees of any depth;
* `Context.evaluate_eq_ok_iff` — the trees that have a verdict;
* `Context.evaluateAt_eq` — the same within the limit of depth, where only operands fail;
* `Tree.attributes` — the attributes that the operands of a tree compare, from left to right;
* `Context.failure?_of_checkCondition` — the only failure of an operand that fits;
* `Context.evaluateAt_of_fits` — a tree of such operands fails exactly for its leftmost absent
  attribute;
* `Context.absent_of_evaluate` — the only failure of a valid tree.
-/

namespace Eligibility

/-- The truth value of a tree whose conditions have the given truth values. -/
def Tree.verdict (holds : String → Bool) : Tree → Bool
  | operand condition => holds condition
  | branch .and left right => left.verdict holds && right.verdict holds
  | branch .or left right => left.verdict holds || right.verdict holds

/-- The evaluation of a branch has the truth function of its connective. -/
theorem Tree.verdict_branch (holds : String → Bool) (op : Connective) (left right : Tree) :
    (branch op left right).verdict holds =
      op.apply (left.verdict holds) (right.verdict holds) := by
  cases op with
  | and => rfl
  | or => rfl

/-- The attribute that a condition compares, if it is a comparison. -/
def Condition.attribute? (condition : String) : Option String :=
  match parse? condition with
  | some (.compare attr _ _) => some attr
  | _ => none

/-- The attributes that the comparisons of a tree name, from left to right. -/
def Tree.attributes (tree : Tree) : List String :=
  tree.leaves.filterMap Condition.attribute?

namespace Context

open Evaluation (Failure)

variable {ctx : Context}

/-- The failure of an operand on a record, if it fails. -/
def failure? (ctx : Context) (record : Record) (condition : String) : Option Failure :=
  match ctx.evaluateCondition record condition with
  | .error failure => some failure
  | .ok _ => none

/-- Is an operand true of a record?  One that fails is not. -/
def holds (ctx : Context) (record : Record) (condition : String) : Bool :=
  match ctx.evaluateCondition record condition with
  | .error _ => false
  | .ok passed => passed

/-- No operand is at fault for the depth of its tree. -/
theorem failure?_ne_tooDeep (record : Record) (condition : String) :
    ctx.failure? record condition ≠ some .tooDeep := by
  unfold failure?
  fun_cases evaluateCondition ctx record condition with
  | case1 | case2 | case3 | case4 | case5 | case6 | case7 | case8 => simp

/-! ## Strictness -/

/-- The first failure in a list of conditions, or else the given truth value. -/
def firstFailureOr (ctx : Context) (record : Record) (conditions : List String) (passed : Bool) :
    Except Failure Bool :=
  match conditions.findSome? (ctx.failure? record) with
  | some failure => .error failure
  | none => .ok passed

/-- The evaluation of a tree stops at its first fault, and else gives the truth value of the
tree. -/
theorem evaluateAt_eq_firstFaultOr (record : Record) (tree : Tree) (level : Nat) :
    ctx.evaluateAt record level tree =
      Tree.firstFaultOr (Tree.Position.fault? (ctx.failure? record) .tooDeep)
        (tree.positionsAt level) (tree.verdict (ctx.holds record)) := by
  induction tree generalizing level with
  | operand condition =>
    cases hc : ctx.evaluateCondition record condition with
    | error failure =>
      simp [evaluateAt, Tree.firstFaultOr, Tree.positionsAt, Tree.Position.fault?, failure?, hc]
    | ok passed =>
      simp [evaluateAt, Tree.firstFaultOr, Tree.positionsAt, Tree.Position.fault?, Tree.verdict,
        failure?, holds, hc]
  | branch op left right ihLeft ihRight =>
    rw [Tree.firstFaultOr_branch, evaluateAt, ihLeft, ihRight, Tree.verdict_branch]
    -- the right side is met as soon as the left side has no fault, whatever its truth value
    unfold Tree.firstFaultOr
    cases (left.positionsAt (level + 1)).findSome?
        (Tree.Position.fault? (ctx.failure? record) .tooDeep) with
    | some failure => rfl
    | none =>
      cases (right.positionsAt (level + 1)).findSome?
          (Tree.Position.fault? (ctx.failure? record) .tooDeep) with
      | some failure => rfl
      | none => rfl

/-- A tree has a verdict just when it keeps the limit of depth and each of its operands has one. -/
theorem evaluate_eq_ok_iff {record : Record} {tree : Tree} {passed : Bool} :
    ctx.evaluate record tree = .ok passed ↔
      tree.verdict (ctx.holds record) = passed ∧ tree.height ≤ Tree.maxDepth ∧
        ∀ condition ∈ tree.leaves, ctx.failure? record condition = none := by
  rw [evaluate, evaluateAt_eq_firstFaultOr, Tree.firstFaultOr_eq_ok_iff,
    Tree.forall_fault?_eq_none_iff (Nat.zero_le Tree.maxDepth), Nat.zero_add]

theorem evaluateAt_eq (record : Record) {tree : Tree} {level : Nat}
    (h : level + tree.height ≤ Tree.maxDepth) :
    ctx.evaluateAt record level tree =
      ctx.firstFailureOr record tree.leaves (tree.verdict (ctx.holds record)) := by
  rw [evaluateAt_eq_firstFaultOr, Tree.firstFaultOr, Tree.findSome?_fault?_of_le h, firstFailureOr]
  cases tree.leaves.findSome? (ctx.failure? record) with
  | some failure => rfl
  | none => rfl

/-! ## Operands that fit -/

/-- An operand that fits the context fails only when the record lacks the attribute that it
compares. -/
theorem failure?_of_checkCondition (record : Record) {condition : String}
    (h : ctx.checkCondition condition = .ok ()) :
    ctx.failure? record condition =
      ((Condition.attribute? condition).filter fun attr => !record.contains attr).map
        Failure.missingData := by
  -- a known predicate always answers; a comparison asks for the value before it looks further
  rcases checkCondition_eq_ok_iff.1 h with
    ⟨name, arguments, hparse, hname⟩ | ⟨attr, operator, literal, type, op, hparse, htype, hop, hlit⟩
  · rcases Option.isSome_iff_exists.1 hname with ⟨test, htest⟩
    simp [failure?, Condition.attribute?, evaluateCondition, hparse, htest]
  · rcases Option.isSome_iff_exists.1 (isSome_ofLiteral?_of_checkLiteral hlit) with ⟨value, hvalue⟩
    cases hactual : record.get? attr with
    | none =>
      simp [failure?, Condition.attribute?, evaluateCondition, hparse, htype, hactual,
        Table.contains, Option.filter]
    | some actual =>
      simp [failure?, Condition.attribute?, evaluateCondition, hparse, htype, hactual, hop, hvalue,
        Table.contains, Option.filter]

/-- The first failure among operands that fit is the first absent attribute. -/
theorem findSome?_failure?_of_fits (record : Record) {conditions : List String}
    (h : ∀ condition ∈ conditions, ctx.checkCondition condition = .ok ()) :
    conditions.findSome? (ctx.failure? record) =
      ((conditions.filterMap Condition.attribute?).find? fun attr => !record.contains attr).map
        Failure.missingData := by
  induction conditions with
  | nil => rfl
  | cons condition rest ih =>
    have hhead := failure?_of_checkCondition record (h condition (by simp))
    have hrest := ih fun c hc => h c (by simp [hc])
    cases hattr : Condition.attribute? condition with
    | none =>
      -- a call names no attribute and does not fail
      simp [hhead, hattr, hrest]
    | some attr =>
      by_cases hpresent : record.contains attr = true
      · simp [hhead, hattr, hrest, hpresent]
      · simp [hhead, hattr, hpresent]

/-- The outcome of a tree whose operands fit: the leftmost absent attribute, or a verdict. -/
theorem evaluateAt_of_fits (record : Record) {tree : Tree} {level : Nat}
    (hheight : level + tree.height ≤ Tree.maxDepth)
    (hleaves : ∀ condition ∈ tree.leaves, ctx.checkCondition condition = .ok ()) :
    ctx.evaluateAt record level tree =
      match tree.attributes.find? fun attr => !record.contains attr with
      | some attr => .error (.missingData attr)
      | none => .ok (tree.verdict (ctx.holds record)) := by
  have hfailure := findSome?_failure?_of_fits record hleaves
  rw [evaluateAt_eq record hheight, firstFailureOr, hfailure]
  unfold Tree.attributes
  cases (tree.leaves.filterMap Condition.attribute?).find? fun attr => !record.contains attr with
  | none => rfl
  | some attr => rfl

/-- The only failure of a valid tree is an attribute that the record lacks. -/
theorem absent_of_evaluate {record : Record} {tree : Tree} {failure : Failure}
    (h : ctx.validate tree = .ok ())
    (heval : ctx.evaluate record tree = .error failure) :
    ∃ attr ∈ tree.attributes, record.contains attr = false ∧ failure = .missingData attr := by
  rcases validate_eq_ok_iff.1 h with ⟨hheight, hleaves⟩
  have hlevel : 0 + tree.height ≤ Tree.maxDepth := by simpa using hheight
  rw [evaluate, evaluateAt_of_fits record hlevel hleaves] at heval
  cases hfind : tree.attributes.find? fun attr => !record.contains attr with
  | none =>
    rw [hfind] at heval
    cases heval
  | some attr =>
    rw [hfind] at heval
    cases heval
    have habsent := List.find?_some hfind
    exact ⟨attr, List.mem_of_find?_eq_some hfind, by simpa using habsent, rfl⟩

end Context
end Eligibility
