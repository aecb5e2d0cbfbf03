import Mathlib.Control.Monad.Basic
import Eligibility.Proofs.Evaluation

/-!
# Soundness — validation and evaluation agree

Validation and evaluation are separate walks with their own orders of checks.  A tree that passes
the first can fail the second only because the record lacks an attribute, whatever the kinds of the
values in the record; of several absent attributes the leftmost is reported.  A tree that has a
verdict on some record passes validation, unless it compares a string with an empty literal.

* `Context.evaluate_of_validate` — the outcomes of a tree that was validated;
* `Context.defect?_of_failure?_eq_none` — the only defect of an operand that has a verdict;
* `Context.validate_of_evaluate` — the only defect of a tree that has a verdict.
-/

namespace Eligibility
namespace Context

open Evaluation (Failure)

/-- The outcome of a validated tree on any record: a verdict when the record has every attribute
that the tree compares, and otherwise the leftmost absent attribute, never another failure. -/
theorem evaluate_of_validate {ctx : Context} {tree : Tree} (h : ctx.validate tree = .ok ())
    (record : Record) :
    ((∀ attr ∈ tree.attributes, record.contains attr = true) →
      ctx.evaluate record tree = .ok (tree.verdict (ctx.holds record))) ∧
    (∀ before attr after, tree.attributes = before ++ attr :: after →
      (∀ other ∈ before, record.contains other = true) → record.contains attr = false →
      ctx.evaluate record tree = .error (.missingData attr)) ∧
    (∀ failure, ctx.evaluate record tree = .error failure →
      ∃ attr ∈ tree.attributes, record.contains attr = false ∧ failure = .missingData attr) := by
  rcases validate_eq_ok_iff.1 h with ⟨hheight, hleaves⟩
  have hlevel : 0 + tree.height ≤ Tree.maxDepth := by simpa using hheight
  have heval := evaluateAt_of_fits record hlevel hleaves
  change ctx.evaluate record tree = _ at heval
  -- which attribute is the first absent one decides all three parts
  refine ⟨?_, ?_, ?_⟩
  · intro hpresent
    have hnone : (tree.attributes.find? fun attr => !record.contains attr) = none := by
      rw [List.find?_eq_none]
      intro attr hattr
      simp [hpresent attr hattr]
    rw [heval, hnone]
  · intro before attr after hsplit hbefore habsent
    have hsome : (tree.attributes.find? fun attr => !record.contains attr) = some attr := by
      rw [List.find?_eq_some_iff_append]
      refine ⟨by simp [habsent], before, after, hsplit, ?_⟩
      intro other hother
      simp [hbefore other hother]
    rw [heval, hsome]
  · intro failure hfailure
    exact absent_of_evaluate h hfailure

/-- A rule that calls a predicate and compares a quoted text, on a record that has a text for the
one attribute and lacks the other. -/
theorem evaluate_of_validate_membership :
    let ctx : Context :=
      ⟨.ofList [("age", .number), ("team", .string)], .ofList [("is_vip", RecordTest.always true)]⟩
    let tree : Tree :=
      .branch .or (.branch .and (.operand "is_vip(gold, 2)") (.operand "team = 'R (D) x'"))
        (.operand "age >= 1.5e1")
    let record : Record := .ofList [("team", .string "R (D) x")]
    ctx.validate tree = .ok () ∧ tree.attributes = ["team", "age"] ∧
      ctx.evaluate record tree = .error (.missingData "age") := by
  intro ctx tree record
  have hvalid : ctx.validate tree = .ok () := by decide +kernel
  have hattributes : tree.attributes = ["team", "age"] := by decide +kernel
  refine ⟨hvalid, hattributes, ?_⟩
  refine (evaluate_of_validate hvalid record).2.1 ["team"] "age" [] hattributes ?_ ?_
  · decide +kernel
  · decide +kernel

/-! ## The other direction -/

/-- An operand with a verdict fits the context, unless its literal is an empty string. -/
theorem defect?_of_failure?_eq_none {ctx : Context} {record : Record} {condition : String}
    (h : ctx.failure? record condition = none) :
    ctx.defect? condition = none ∨
      ∃ attr operator, Condition.parse? condition = some (.compare attr operator "") ∧
        ctx.schema.get? attr = some .string ∧
        ctx.defect? condition = some (.emptyString attr) := by
  unfold failure? at h
  unfold defect? checkCondition
  revert h
  -- every check of the other walk was made on the way to the verdict, but the one of the literal
  fun_cases evaluateCondition ctx record condition with
  | case3 name arguments hparse test htest =>
    intro _
    have hname : ctx.predicates.contains name = true := by simp [Table.contains, htest]
    exact .inl (by simp [hparse, hname])
  | case8 attr operator literal hparse type htype actual hactual op hop expected hexpected =>
    intro _
    cases type with
    | number =>
      have hnumber : (Binary64.ofLiteral? literal).isSome := by
        cases hliteral : Binary64.ofLiteral? literal with
        | none => simp [Value.ofLiteral?, hliteral] at hexpected
        | some x => rfl
      exact .inl (by simp [hparse, htype, hop, checkLiteral, hnumber])
    | string =>
      by_cases hempty : literal = ""
      · subst hempty
        exact .inr ⟨attr, operator, hparse, htype, by simp [hparse, htype, hop, checkLiteral]⟩
      · exact .inl (by simp [hparse, htype, hop, checkLiteral, hempty])
  | case1 | case2 | case4 | case5 | case6 | case7 =>
    intro h
    cases h

/-- A tree with a verdict on some record is valid, or else its first defect is a string attribute
that is compared with an empty literal. -/
theorem validate_of_evaluate {ctx : Context} {record : Record} {tree : Tree} {passed : Bool}
    (h : ctx.evaluate record tree = .ok passed) :
    ctx.validate tree = .ok () ∨
      ∃ condition ∈ tree.leaves, ∃ attr operator,
        Condition.parse? condition = some (.compare attr operator "") ∧
        ctx.schema.get? attr = some .string ∧ ctx.validate tree = .error (.emptyString attr) := by
  rcases evaluate_eq_ok_iff.1 h with ⟨_, hheight, hleaves⟩
  cases hvalid : ctx.validate tree with
  | ok => exact .inl rfl
  | error defect =>
    refine .inr ?_
    -- the tree keeps the limit of depth, so that its first defect is one of an operand
    have hlevel : 0 + tree.height ≤ Tree.maxDepth := by simpa using hheight
    rw [validate, checkAt_eq_firstFaultOr, Tree.firstFaultOr_eq_error_iff,
      Tree.findSome?_fault?_of_le hlevel] at hvalid
    rcases List.exists_of_findSome?_eq_some hvalid with ⟨condition, hcondition, hdefect⟩
    rcases defect?_of_failure?_eq_none (hleaves condition hcondition) with
      hnone | ⟨attr, operator, hparse, htype, hempty⟩
    · rw [hnone] at hdefect
      cases hdefect
    · rw [hempty, Option.some.injEq] at hdefect
      exact ⟨condition, hcondition, attr, operator, hparse, htype, by rw [hdefect]⟩

/-- A rule that is true of a record and still invalid, for a text that is compared with nothing. -/
theorem validate_of_evaluate_empty :
    let ctx : Context := ⟨.ofList [("age", .number), ("team", .string)], .empty⟩
    let record : Record := .ofList [("age", .string "20"), ("team", .string "red")]
    let tree : Tree := .branch .and (.operand "age > 18") (.operand "team != ''")
    ctx.evaluate record tree = .ok true ∧ ctx.validate tree ≠ .ok () ∧
      ∃ condition ∈ tree.leaves, ∃ attr operator,
        Condition.parse? condition = some (.compare attr operator "") ∧
        ctx.schema.get? attr = some .string ∧ ctx.validate tree = .error (.emptyString attr) := by
  intro ctx record tree
  have heval : ctx.evaluate record tree = .ok true := by decide +kernel
  have hinvalid : ctx.validate tree ≠ .ok () := by decide +kernel
  exact ⟨heval, hinvalid, (validate_of_evaluate heval).resolve_left hinvalid⟩

end Context
end Eligibility
