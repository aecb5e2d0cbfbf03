import Eligibility.Proofs.Combination
import Eligibility.Proofs.Evaluation

/-!
# Faults — the leftmost fault of a tree is the one that is reported

Evaluation and validation are strict on trees of any depth: each meets the places of a tree in
order, a branch before its left side and the left side before the right one, and answers with the
first fault that it meets.  No verdict of one side hides a fault of the other, and a branch too deep
comes before everything below it and after everything to its left.

* `Context.failureAt?`, `Context.defectAt?` — the faults of a place for the two walks;
* `Context.evaluate_eq_firstFaultOr`, `Context.validate_eq_firstFaultOr` — both walks from the root;
* `Context.exists_faults_of_lt_depth`, `Context.ne_tooDeep_of_depth_le` — what the limit of depth
  adds to them;
* `Context.outcome_of_faults` — all of it together.
-/

namespace Eligibility
namespace Context

open Evaluation (Failure)

variable {ctx : Context} {record : Record} {tree : Tree}

/-- The failure of a place on a record, if it fails. -/
def failureAt? (ctx : Context) (record : Record) : Tree.Position → Option Failure :=
  Tree.Position.fault? (ctx.failure? record) .tooDeep

/-- The defect of a place, if it has one. -/
def defectAt? (ctx : Context) : Tree.Position → Option Tree.Defect :=
  Tree.Position.fault? ctx.defect? .tooDeep

theorem evaluate_eq_firstFaultOr (record : Record) (tree : Tree) :
    ctx.evaluate record tree =
      Tree.firstFaultOr (ctx.failureAt? record) tree.positions (tree.verdict (ctx.holds record)) :=
  evaluateAt_eq_firstFaultOr record tree 0

theorem validate_eq_firstFaultOr (tree : Tree) :
    ctx.validate tree = Tree.firstFaultOr ctx.defectAt? tree.positions () :=
  checkAt_eq_firstFaultOr tree 0

/-! ## The limit of depth -/

/-- Beyond the limit of depth, both walks meet a fault. -/
theorem exists_faults_of_lt_depth (record : Record) (h : Tree.maxDepth < tree.depth) :
    (∃ failure, ctx.evaluate record tree = .error failure) ∧
      ∃ defect, ctx.validate tree = .error defect := by
  have hdeep : ¬ tree.height ≤ Tree.maxDepth := by
    rw [← Tree.depth_eq_height]
    exact Nat.not_le.2 h
  refine ⟨?evaluate, ?validate⟩
  case evaluate =>
    cases heval : ctx.evaluate record tree with
    | error failure => exact ⟨failure, rfl⟩
    | ok passed => exact absurd (evaluate_eq_ok_iff.1 heval).2.1 hdeep
  case validate =>
    cases hvalid : ctx.validate tree with
    | error defect => exact ⟨defect, rfl⟩
    | ok => exact absurd (validate_eq_ok_iff.1 hvalid).1 hdeep

/-- Within the limit of depth, the fault of either walk is one of an operand, and no operand is at
fault for the depth of its tree. -/
theorem ne_tooDeep_of_depth_le (record : Record) (h : tree.depth ≤ Tree.maxDepth) :
    ctx.evaluate record tree ≠ .error .tooDeep ∧ ctx.validate tree ≠ .error .tooDeep := by
  have hheight : 0 + tree.height ≤ Tree.maxDepth := by
    rw [Nat.zero_add, ← Tree.depth_eq_height]
    exact h
  refine ⟨?evaluate, ?validate⟩
  case evaluate =>
    intro heval
    rw [evaluate, evaluateAt_eq_firstFaultOr, Tree.firstFaultOr_eq_error_iff,
      Tree.findSome?_fault?_of_le hheight] at heval
    rcases List.exists_of_findSome?_eq_some heval with ⟨condition, _, hfault⟩
    exact failure?_ne_tooDeep record condition hfault
  case validate =>
    intro hvalid
    rw [validate, checkAt_eq_firstFaultOr, Tree.firstFaultOr_eq_error_iff,
      Tree.findSome?_fault?_of_le hheight] at hvalid
    rcases List.exists_of_findSome?_eq_some hvalid with ⟨condition, _, hfault⟩
    exact defect?_ne_tooDeep condition hfault

/-! ## The outcome of both walks -/

/-- A tree of any depth evaluates to its truth value, and is valid, when none of its places is at
fault; otherwise the outcome is the fault of the first place that is.  A tree beyond the limit of
depth has such a place for both walks, and a tree within the limit is never refused for its
depth. -/
theorem outcome_of_faults (ctx : Context) (record : Record) (tree : Tree) :
    ((∀ position ∈ tree.positions, ctx.failureAt? record position = none) →
      ctx.evaluate record tree = .ok (tree.verdict (ctx.holds record))) ∧
    (∀ before position after failure, tree.positions = before ++ position :: after →
      (∀ other ∈ before, ctx.failureAt? record other = none) →
      ctx.failureAt? record position = some failure →
      ctx.evaluate record tree = .error failure) ∧
    ((∀ position ∈ tree.positions, ctx.defectAt? position = none) →
      ctx.validate tree = .ok ()) ∧
    (∀ before position after defect, tree.positions = before ++ position :: after →
      (∀ other ∈ before, ctx.defectAt? other = none) →
      ctx.defectAt? position = some defect →
      ctx.validate tree = .error defect) ∧
    (Tree.maxDepth < tree.depth →
      (∃ failure, ctx.evaluate record tree = .error failure) ∧
        ∃ defect, ctx.validate tree = .error defect) ∧
    (tree.depth ≤ Tree.maxDepth →
      ctx.evaluate record tree ≠ .error .tooDeep ∧ ctx.validate tree ≠ .error .tooDeep) := by
  refine ⟨?verdict, ?failure, ?valid, ?defect, exists_faults_of_lt_depth record,
    ne_tooDeep_of_depth_le record⟩
  case verdict =>
    intro hnone
    rw [evaluate_eq_firstFaultOr]
    exact Tree.firstFaultOr_eq_ok_iff.2 ⟨rfl, hnone⟩
  case failure =>
    intro before position after failure hsplit hbefore hfault
    rw [evaluate_eq_firstFaultOr, hsplit]
    exact Tree.firstFaultOr_of_first hbefore hfault
  case valid =>
    intro hnone
    rw [validate_eq_firstFaultOr]
    exact Tree.firstFaultOr_eq_ok_iff.2 ⟨rfl, hnone⟩
  case defect =>
    intro before position after defect hsplit hbefore hfault
    rw [validate_eq_firstFaultOr, hsplit]
    exact Tree.firstFaultOr_of_first hbefore hfault

/-- A tree of one level too many with a malformed operand at its far left, where the branch at the
limit is met first; the same tree to the right of a literal that is no number; and trees without a
fault, either connective with just one side true, the left one and the right one. -/
theorem outcome_of_faults_mixed :
    let ctx : Context := ⟨.ofList [("age", .number)], .empty⟩
    let record : Record := .ofList [("age", .string "20")]
    let deep : Tree := (Tree.operand "age").orAll (List.replicate 65 (.operand "age > 1"))
    let typo : Tree := .branch .or (.operand "age > old") deep
    let grown : Tree := .operand "age > 18"
    let old : Tree := .operand "age > 30"
    let sound : List (Tree × Bool) :=
      [(.branch .and grown old, false), (.branch .and old grown, false),
        (.branch .or grown old, true), (.branch .or old grown, true)]
    (∀ entry ∈ sound, ctx.evaluate record entry.1 = .ok entry.2 ∧
        ctx.validate entry.1 = .ok () ∧ ctx.evaluate record entry.1 ≠ .error .tooDeep) ∧
      (ctx.evaluate record deep = .error .tooDeep ∧ ctx.validate deep = .error .tooDeep) ∧
      (ctx.evaluate record typo = .error (.invalidNumber "age" "old") ∧
        ctx.validate typo = .error (.expectedNumber "age" "old") ∧
        ∃ defect, ctx.validate typo = .error defect) := by
  intro ctx record deep typo grown old sound
  rcases outcome_of_faults ctx record deep with ⟨_, hfailure, _, hdefect, _, _⟩
  rcases outcome_of_faults ctx record typo with ⟨_, hfailure', _, hdefect', hbeyond, _⟩
  -- the branch at the limit has the 64 branches above it before it, the typo one branch
  have hdeep : deep.positions =
      deep.positions.take 64 ++ .branch 64 :: deep.positions.drop 65 := by decide +kernel
  have htypo : typo.positions =
      [.branch 0] ++ .operand "age > old" :: typo.positions.drop 2 := by decide +kernel
  refine ⟨?_, ⟨?_, ?_⟩, ?_, ?_, ?_⟩
  · intro entry hentry
    have hverdicts : ∀ entry ∈ sound, entry.1.verdict (ctx.holds record) = entry.2 := by
      decide +kernel
    have hfailures : ∀ entry ∈ sound, ∀ position ∈ entry.1.positions,
        ctx.failureAt? record position = none := by decide +kernel
    have hdefects : ∀ entry ∈ sound, ∀ position ∈ entry.1.positions,
        ctx.defectAt? position = none := by decide +kernel
    have hheights : ∀ entry ∈ sound, entry.1.height ≤ Tree.maxDepth := by decide
    rcases outcome_of_faults ctx record entry.1 with ⟨hverdict, _, hvalid, _, _, hlimit⟩
    refine ⟨?_, hvalid (hdefects entry hentry), ?_⟩
    · rw [hverdict (hfailures entry hentry), hverdicts entry hentry]
    · have hdepth : entry.1.depth ≤ Tree.maxDepth := by
        rw [Tree.depth_eq_height]
        exact hheights entry hentry
      exact (hlimit hdepth).1
  · exact hfailure _ _ _ _ hdeep (by decide +kernel) rfl
  · exact hdefect _ _ _ _ hdeep (by decide +kernel) rfl
  · exact hfailure' _ _ _ _ htypo (by decide +kernel) (by decide +kernel)
  · exact hdefect' _ _ _ _ htypo (by decide +kernel) (by decide +kernel)
  · have hdepth : Tree.maxDepth < typo.depth := by
      rw [Tree.depth_eq_height]
      decide +kernel
    exact (hbeyond hdepth).2

end Context
end Eligibility
