import Eligibility.Proofs.Tree.Position
import Eligibility.Validation

/-!
# Validation — what a tree that fits a context is made of

The walk of `Context.checkAt` is taken apart into its two concerns: how deep the tree is, and what
its operands say.

* `Context.checkCondition_eq_ok_iff` — the operands that fit;
* `Context.checkAt_eq_firstFaultOr` — the walk stops at the first fault of the tree;
* `Context.checkAt_eq_ok_iff`, `Context.validate_eq_ok_iff` — a tree fits exactly when it keeps the
  limit of depth and each of its operands fits.
-/

namespace Eligibility
namespace Context

variable {ctx : Context}

/-- A literal that passes the check of a type has a value of that type. -/
theorem isSome_ofLiteral?_of_checkLiteral {attr literal : String} {type : ValueType}
    (h : checkLiteral attr literal type = .ok ()) : (Value.ofLiteral? type literal).isSome := by
  cases type with
  | number =>
    by_cases hnumber : (Binary64.ofLiteral? literal).isSome
    · simpa [Value.ofLiteral?] using hnumber
    · simp [checkLiteral, hnumber] at h
  | string => rfl

/-- An operand fits when it is a call of a known predicate, or compares a declared attribute by a
known operator with a literal of the attribute's type. -/
theorem checkCondition_eq_ok_iff {condition : String} :
    ctx.checkCondition condition = .ok () ↔
      (∃ name arguments, Condition.parse? condition = some (.call name arguments) ∧
        ctx.predicates.contains name = true) ∨
      (∃ attr operator literal type op,
        Condition.parse? condition = some (.compare attr operator literal) ∧
        ctx.schema.get? attr = some type ∧ Comparator.ofSymbol? operator = some op ∧
        checkLiteral attr literal type = .ok ()) := by
  unfold checkCondition
  cases hparse : Condition.parse? condition with
  | none => simp
  | some parsed =>
    cases parsed with
    | call name arguments =>
      by_cases hname : ctx.predicates.contains name = true
      · simp [hname]
      · simp [hname]
    | compare attr operator literal =>
      cases htype : ctx.schema.get? attr with
      | none => simp [htype]
      | some type =>
        cases hop : Comparator.ofSymbol? operator with
        | none => simp [htype, hop]
        | some op =>
          simp only [htype, hop]
          constructor
          · intro h
            exact .inr ⟨attr, operator, literal, type, op, rfl, htype, hop, h⟩
          · rintro (⟨_, _, hcall, _⟩ | ⟨_, _, _, type', _, hcompare, htype', _, h⟩)
            · cases hcall
            · cases hcompare
              obtain rfl : type = type' := by simpa [htype] using htype'
              exact h

/-- The defect of an operand, if it has one. -/
def defect? (ctx : Context) (condition : String) : Option Tree.Defect :=
  match ctx.checkCondition condition with
  | .error defect => some defect
  | .ok () => none

theorem defect?_eq_none_iff {condition : String} :
    ctx.defect? condition = none ↔ ctx.checkCondition condition = .ok () := by
  unfold defect?
  cases ctx.checkCondition condition with
  | error defect => simp
  | ok => simp

/-- No operand is at fault for the depth of its tree. -/
theorem defect?_ne_tooDeep (condition : String) : ctx.defect? condition ≠ some .tooDeep := by
  unfold defect?
  fun_cases checkCondition ctx condition with
  | case6 attr operator literal hparse type htype op hop =>
    cases type with
    | number =>
      by_cases hnumber : (Binary64.ofLiteral? literal).isSome <;> simp [checkLiteral, hnumber]
    | string =>
      by_cases hempty : literal.isEmpty <;> simp [checkLiteral, hempty]
  | case1 | case2 | case3 | case4 | case5 => simp

/-- The check of a tree stops at its first fault. -/
theorem checkAt_eq_firstFaultOr (tree : Tree) (level : Nat) :
    ctx.checkAt level tree =
      Tree.firstFaultOr (Tree.Position.fault? ctx.defect? .tooDeep)
        (tree.positionsAt level) () := by
  induction tree generalizing level with
  | operand condition =>
    cases hc : ctx.checkCondition condition with
    | error defect =>
      simp [checkAt, Tree.firstFaultOr, Tree.positionsAt, Tree.Position.fault?, defect?, hc]
    | ok => simp [checkAt, Tree.firstFaultOr, Tree.positionsAt, Tree.Position.fault?, defect?, hc]
  | branch op left right ihLeft ihRight =>
    rw [Tree.firstFaultOr_branch, checkAt, ihLeft, ihRight]
    -- what the left side comes to decides whether the right side is met
    unfold Tree.firstFaultOr
    cases (left.positionsAt (level + 1)).findSome? (Tree.Position.fault? ctx.defect? .tooDeep) with
    | some defect => rfl
    | none => rfl

theorem checkAt_eq_ok_iff {tree : Tree} {level : Nat} (hlevel : level ≤ Tree.maxDepth) :
    ctx.checkAt level tree = .ok () ↔
      level + tree.height ≤ Tree.maxDepth ∧
        ∀ condition ∈ tree.leaves, ctx.checkCondition condition = .ok () := by
  rw [checkAt_eq_firstFaultOr, Tree.firstFaultOr_eq_ok_iff, Tree.forall_fault?_eq_none_iff hlevel]
  simp only [defect?_eq_none_iff, true_and]

theorem validate_eq_ok_iff {tree : Tree} :
    ctx.validate tree = .ok () ↔
      tree.height ≤ Tree.maxDepth ∧
        ∀ condition ∈ tree.leaves, ctx.checkCondition condition = .ok () := by
  have h : ctx.checkAt 0 tree = .ok () ↔ _ := checkAt_eq_ok_iff (Nat.zero_le Tree.maxDepth)
  simpa [validate] using h

end Context
end Eligibility
