import Mathlib.Control.Monad.Basic
import Eligibility.Catalog

/-!
# Report — a split batch is a plain one

A long list is cut into parts, one task works on each, and the results are put together in order.
No element is lost, repeated or moved, however many workers there are, so that the outcome of a rule
depends on that rule alone.

* `Batch.IsSplit`, `Batch.isSplit_chunks` — the parts make up the list, at most one for each worker;
* `Batch.map_eq_map` — the batch is the function on every element;
* `Context.passed_outcome_iff`, `Context.error_outcome_iff` — what an outcome tells of a verdict;
* `Context.outcomes_report`, `Context.outcomes_reportRules` — a report has one outcome for each
  tree, in order;
* `Context.outcomes_of_workers` — what a report tells, for every number of workers.
-/

namespace Eligibility

namespace Batch

variable {α β : Type}

/-! ## Parts -/

theorem flatten_chunks (size : Nat) (xs : List α) : (chunks size xs).flatten = xs := by
  fun_induction chunks size xs with
  | case1 => rfl
  | case2 x rest ih => simp [ih]

theorem ne_nil_of_mem_chunks {size : Nat} {xs part : List α} (h : part ∈ chunks size xs) :
    part ≠ [] := by
  fun_induction chunks size xs with
  | case1 => cases h
  | case2 x rest ih =>
    rcases List.mem_cons.1 h with rfl | hrest
    · exact List.cons_ne_nil _ _
    · exact ih hrest

theorem length_le_of_mem_chunks {size : Nat} {xs part : List α} (hsize : 1 ≤ size)
    (h : part ∈ chunks size xs) : part.length ≤ size := by
  fun_induction chunks size xs with
  | case1 => cases h
  | case2 x rest ih =>
    rcases List.mem_cons.1 h with rfl | hrest
    · simp only [List.length_cons, List.length_take]
      omega
    · exact ih hrest

/-- Each part takes its size off the list, so that there are no more parts than sizes in it. -/
theorem length_chunks_le {size count : Nat} {xs : List α} (hsize : 1 ≤ size)
    (h : xs.length ≤ count * size) : (chunks size xs).length ≤ count := by
  fun_induction chunks size xs generalizing count with
  | case1 => exact Nat.zero_le count
  | case2 x rest ih =>
    cases count with
    | zero => simp at h
    | succ count =>
      have hrest : (rest.drop (size - 1)).length ≤ count * size := by
        rw [Nat.succ_mul, List.length_cons] at h
        rw [List.length_drop]
        omega
      exact Nat.succ_le_succ (ih hrest)

/-- The parts make up the list in its order, and there is at most one for each worker.  None is
empty, and none longer than the share of a worker, rounded up. -/
structure IsSplit (workers : Nat) (xs : List α) (parts : List (List α)) : Prop where
  flatten_eq : parts.flatten = xs
  length_le : parts.length ≤ workers
  ne_nil : ∀ part ∈ parts, part ≠ []
  length_part_le : ∀ part ∈ parts, part.length ≤ (xs.length + workers - 1) / workers

theorem isSplit_chunks {workers : Nat} (hworkers : 1 ≤ workers) (xs : List α) :
    IsSplit workers xs (chunks ((xs.length + workers - 1) / workers) xs) := by
  cases xs with
  | nil =>
    rw [chunks]
    exact ⟨rfl, Nat.zero_le workers, by simp, by simp⟩
  | cons x rest =>
    have hsize : 1 ≤ ((x :: rest).length + workers - 1) / workers := by
      rw [Nat.le_div_iff_mul_le hworkers, List.length_cons]
      omega
    have hshare : (x :: rest).length ≤
        workers * (((x :: rest).length + workers - 1) / workers) := by
      have hlt := Nat.lt_mul_div_succ ((x :: rest).length + workers - 1) hworkers
      rw [Nat.mul_succ] at hlt
      omega
    exact ⟨flatten_chunks _ _, length_chunks_le hsize hshare, fun _ => ne_nil_of_mem_chunks,
      fun _ => length_le_of_mem_chunks hsize⟩

/-! ## Results -/

theorem mapSplit_eq_map (workers : Nat) (f : α → β) (xs : List α) :
    mapSplit workers f xs = xs.map f := by
  -- nothing depends on the size of the parts
  let size := (xs.length + workers - 1) / workers
  have htasks : mapSplit workers f xs = (chunks size xs).flatMap (List.map f) := by
    rw [mapSplit, List.flatMap_map]
    rfl
  calc
    mapSplit workers f xs
        = ((chunks size xs).map (List.map f)).flatten := by rw [htasks, List.flatMap_def]
    _ = (chunks size xs).flatten.map f := List.map_flatten.symm
    _ = xs.map f := by rw [flatten_chunks]

theorem map_eq_map (workers : Nat) (f : α → β) (xs : List α) : map workers f xs = xs.map f := by
  by_cases h : xs.length < threshold
  · simp [map, h]
  · simp [map, h, mapSplit_eq_map]

end Batch

namespace Context

variable {ctx : Context} {record : Record}

/-! ## One outcome -/

@[simp] theorem rule_outcome (rule : String × Tree) : (ctx.outcome record rule).rule = rule.1 := by
  unfold outcome
  cases ctx.evaluate record rule.2 with
  | ok passed => rfl
  | error failure => rfl

theorem passed_outcome_iff {rule : String × Tree} :
    (ctx.outcome record rule).passed = true ↔ ctx.evaluate record rule.2 = .ok true := by
  unfold outcome
  cases ctx.evaluate record rule.2 with
  | ok passed => simp [Outcome.ofResult, Outcome.ofVerdict]
  | error failure => simp [Outcome.ofResult, Outcome.ofError]

theorem error_outcome_iff {rule : String × Tree} {text : String} :
    (ctx.outcome record rule).error = some text ↔
      ∃ failure, ctx.evaluate record rule.2 = .error failure ∧ failure.message = text := by
  unfold outcome
  cases ctx.evaluate record rule.2 with
  | ok passed => simp [Outcome.ofResult, Outcome.ofVerdict]
  | error failure => simp [Outcome.ofResult, Outcome.ofError]

/-! ## Reports -/

theorem outcomes_reportWith (ctx : Context) (workers : Nat) (record : Record)
    (rules : List (String × Tree)) :
    (ctx.reportWith workers record rules).outcomes = rules.map (ctx.outcome record) :=
  Batch.map_eq_map workers (ctx.outcome record) rules

/-- A report has one outcome for each tree, in the order of the trees. -/
theorem outcomes_report (ctx : Context) (record : Record) (rules : List (String × Tree)) :
    (ctx.report record rules).outcomes = rules.map (ctx.outcome record) :=
  outcomes_reportWith ctx defaultWorkers record rules

theorem outcomes_reportRules (ctx : Context) (record : Record) (rules : List Rule) :
    (ctx.reportRules record rules).outcomes =
      rules.map fun rule => ctx.outcome record (rule.name, rule.tree) := by
  rw [reportRules, outcomes_report, List.map_map]
  rfl

theorem reportWith_eq_report (workers : Nat) (rules : List (String × Tree)) :
    ctx.reportWith workers record rules = ctx.report record rules := by
  rw [report, reportWith, reportWith, Batch.map_eq_map, Batch.map_eq_map]

/-- A record is eligible when every tree passes; a failure counts against it. -/
theorem isEligible_reportWith_iff {workers : Nat} {rules : List (String × Tree)} :
    (ctx.reportWith workers record rules).isEligible = true ↔
      ∀ rule ∈ rules, ctx.evaluate record rule.2 = .ok true := by
  simp [Report.isEligible, outcomes_reportWith, passed_outcome_iff]

/-- The report of named trees is the same for every number of workers.  It has one outcome for each
tree, in the order of the trees: the name with the verdict, or with the wording of the failure.
The outcome at a place is settled by the tree at that place, whatever the other trees and however
many workers there are.  A list that is split gives the outcomes of the list as a whole. -/
theorem outcomes_of_workers {workers : Nat} (hworkers : 1 ≤ workers) (ctx : Context)
    (record : Record) (rules : List (String × Tree)) :
    let report := ctx.reportWith workers record rules
    let parts := Batch.chunks ((rules.length + workers - 1) / workers) rules
    report.outcomes.length = rules.length ∧
    (∀ (i : Nat) name tree, rules[i]? = some (name, tree) →
      (∀ passed, ctx.evaluate record tree = .ok passed →
        report.outcomes[i]? = some ⟨name, passed, none⟩) ∧
      (∀ failure, ctx.evaluate record tree = .error failure →
        report.outcomes[i]? = some ⟨name, false, some failure.message⟩)) ∧
    (∀ (i : Nat) workers' rules', 1 ≤ workers' → rules'[i]? = rules[i]? →
      (ctx.reportWith workers' record rules').outcomes[i]? = report.outcomes[i]?) ∧
    (report.isEligible = true ↔ ∀ rule ∈ rules, ctx.evaluate record rule.2 = .ok true) ∧
    Batch.IsSplit workers rules parts ∧
    Batch.mapSplit workers (ctx.outcome record) rules = rules.map (ctx.outcome record) ∧
    report.outcomes = rules.map (ctx.outcome record) := by
  intro report parts
  have houtcomes : report.outcomes = rules.map (ctx.outcome record) :=
    outcomes_reportWith ctx workers record rules
  refine ⟨by simp [houtcomes], ?_, ?_, isEligible_reportWith_iff,
    Batch.isSplit_chunks hworkers rules, Batch.mapSplit_eq_map workers _ rules, houtcomes⟩
  · intro i name tree hrule
    constructor
    · intro passed heval
      simp [houtcomes, hrule, outcome, heval, Outcome.ofResult, Outcome.ofVerdict]
    · intro failure heval
      simp [houtcomes, hrule, outcome, heval, Outcome.ofResult, Outcome.ofError]
  · intro i workers' rules' _ hrule
    simp [houtcomes, outcomes_reportWith, hrule]

/-- Sixty-six trees for four workers: the first parts are full and the last is not, and one tree in
the middle has an attribute that is not declared. -/
theorem outcomes_of_workers_remainder :
    let ctx : Context := ⟨.ofList [("team", .string)], .empty⟩
    let record : Record := .ofList [("team", .string "red")]
    let rules : List (String × Tree) :=
      List.replicate 40 ("red", .operand "team = 'red'") ++
        [("typo", .branch .or (.operand "team = 'red'") (.operand "teem = 'red'")),
          ("blue", .operand "team = 'blue'")] ++
        List.replicate 24 ("red", .operand "team = 'red'")
    let report := ctx.reportWith 4 record rules
    report.outcomes.length = 66 ∧
      report.outcomes[40]? = some ⟨"typo", false, some "unknown attribute 'teem'"⟩ ∧
      report.outcomes[41]? = some ⟨"blue", false, none⟩ ∧
      report.outcomes[65]? = some ⟨"red", true, none⟩ ∧
      report.isEligible = false ∧
      Batch.IsSplit 4 rules (Batch.chunks 17 rules) ∧
      report.outcomes = Batch.mapSplit 4 (ctx.outcome record) rules := by
  intro ctx record rules report
  have hworkers : 1 ≤ 4 := by decide
  rcases outcomes_of_workers hworkers ctx record rules with
    ⟨hlength, hplace, _, heligible, hsplit, hparts, hwhole⟩
  have hfails : ¬ ∀ rule ∈ rules, ctx.evaluate record rule.2 = .ok true := by decide +kernel
  have hshare : (rules.length + 4 - 1) / 4 = 17 := by decide +kernel
  refine ⟨hlength.trans rfl, ?_, ?_, ?_, ?_, hshare ▸ hsplit, hwhole.trans hparts.symm⟩
  · exact (hplace 40 _ _ rfl).2 (.unknownAttribute "teem") (by decide +kernel)
  · exact (hplace 41 _ _ rfl).1 false (by decide +kernel)
  · exact (hplace 65 _ _ rfl).1 true (by decide +kernel)
  · exact Bool.eq_false_iff.2 fun hpassed => hfails (heligible.1 hpassed)

end Context
end Eligibility
