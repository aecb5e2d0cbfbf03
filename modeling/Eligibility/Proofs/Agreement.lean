import Eligibility.Proofs.Report
import Eligibility.Proofs.Restoration

/-!
# Agreement — a report says of each rule what a question for it answers

A question for one verdict looks its rule up by the name.  A report of all rules goes through the
listing, perhaps split among workers, and keeps the wording of a failure in place of the failure.
Each rule of a store is listed once and under its own name, so that the two ways tell the same,
whatever trees the store holds.

* `Report.find?_eq_some_iff` — looking up an outcome among distinct names;
* `Store.verdict`, `Store.find?_reportRules` — the verdict of a name, and its outcome in a report;
* `Session.Agrees`, `Session.agrees_reportRules` — what the two ways have in common;
* `Session.Occurs`, `Session.isNamed_of_occurs` — the stores there can be;
* `Session.agrees_of_occurs` — the agreement in every store of a run.
-/

namespace Eligibility

/-- Among distinct names an outcome is found just by its own. -/
theorem Report.find?_eq_some_iff {r : Report} (h : (r.outcomes.map Outcome.rule).Nodup)
    {name : String} {o : Outcome} : r.find? name = some o ↔ o ∈ r.outcomes ∧ o.rule = name := by
  constructor
  · intro hfind
    exact ⟨List.mem_of_find?_eq_some hfind, by simpa using List.find?_some hfind⟩
  · rintro ⟨hmem, rfl⟩
    cases hfind : r.find? o.rule with
    | none =>
      have hnone := List.find?_eq_none.1 hfind o hmem
      simp at hnone
    | some other =>
      have hother : other ∈ r.outcomes := List.mem_of_find?_eq_some hfind
      have hrule : other.rule = o.rule := by simpa using List.find?_some hfind
      exact congrArg some (List.inj_on_of_nodup_map h hother hmem hrule)

namespace Store

variable {ctx : Context} {record : Record} {store : Store}

/-- What a question for the verdict of a name answers. -/
def verdict (ctx : Context) (record : Record) (store : Store) (name : String) :
    Except Eligibility.Error Bool :=
  ((Catalog.evaluate ctx name record).run.run store).1

theorem verdict_eq (name : String) :
    store.verdict ctx record name =
      match store.get? name with
      | none => .error (.store (.notFound name))
      | some rule => (ctx.evaluate record rule.tree).mapError Error.evaluation := by
  rw [verdict, Catalog.run_evaluate]
  cases store.get? name with
  | none => rfl
  | some rule => rfl

theorem verdict_eq_ok_iff {name : String} {passed : Bool} :
    store.verdict ctx record name = .ok passed ↔
      ∃ rule, store.get? name = some rule ∧ ctx.evaluate record rule.tree = .ok passed := by
  rw [verdict_eq]
  cases store.get? name with
  | none => simp
  | some rule =>
    simp only [Option.some.injEq, exists_eq_left']
    cases ctx.evaluate record rule.tree with
    | ok passed' => simp [Except.mapError]
    | error failure' => simp [Except.mapError]

theorem verdict_eq_evaluation_iff {name : String} {failure : Evaluation.Failure} :
    store.verdict ctx record name = .error (.evaluation failure) ↔
      ∃ rule, store.get? name = some rule ∧ ctx.evaluate record rule.tree = .error failure := by
  rw [verdict_eq]
  cases store.get? name with
  | none => simp
  | some rule =>
    simp only [Option.some.injEq, exists_eq_left']
    cases ctx.evaluate record rule.tree with
    | ok passed' => simp [Except.mapError]
    | error failure' => simp [Except.mapError]

/-! ## Outcomes -/

theorem map_rule_outcomes_reportRules (ctx : Context) (record : Record) (rules : List Rule) :
    (ctx.reportRules record rules).outcomes.map Outcome.rule = rules.map Rule.name := by
  simp [Context.outcomes_reportRules, Function.comp_def]

/-- The outcome of a name is that of the rule which the name answers. -/
theorem find?_reportRules (h : store.IsNamed) (name : String) :
    (ctx.reportRules record store.all).find? name =
      (store.get? name).map fun rule => ctx.outcome record (name, rule.tree) := by
  have hdistinct : ((ctx.reportRules record store.all).outcomes.map Outcome.rule).Nodup := by
    rw [map_rule_outcomes_reportRules]
    exact nodup_names_all h
  cases hget : store.get? name with
  | some rule =>
    have hname := h name rule hget
    subst hname
    refine (Report.find?_eq_some_iff hdistinct).2 ⟨?_, Context.rule_outcome _⟩
    rw [Context.outcomes_reportRules]
    exact List.mem_map.2 ⟨rule, (mem_all_iff h).2 hget, rfl⟩
  | none =>
    refine Option.eq_none_iff_forall_ne_some.2 ?_
    intro o hfind
    rcases (Report.find?_eq_some_iff hdistinct).1 hfind with ⟨hmem, hname⟩
    rw [Context.outcomes_reportRules] at hmem
    rcases List.mem_map.1 hmem with ⟨rule, hrule, rfl⟩
    -- the rule of the outcome would be stored under the name
    have hrule' := (mem_all_iff h).1 hrule
    rw [Context.rule_outcome] at hname
    subst hname
    rw [hget] at hrule'
    cases hrule'

theorem isEligible_reportRules_iff :
    (ctx.reportRules record store.all).isEligible = true ↔
      ∀ name rule, store.get? name = some rule → ctx.evaluate record rule.tree = .ok true := by
  rw [Context.reportRules, Context.report, Context.isEligible_reportWith_iff, List.forall_mem_map]
  constructor
  · intro hpass name rule hget
    exact hpass rule (mem_all.2 ⟨name, hget⟩)
  · intro hpass rule hrule
    rcases mem_all.1 hrule with ⟨name, hget⟩
    exact hpass name rule hget

end Store

namespace Session

/-! ## Agreement -/

/-- The report tells of the rules of the store what questions for their verdicts answer. -/
structure Agrees (ctx : Context) (record : Record) (store : Store) (report : Report) : Prop where
  /-- The outcomes follow the listing, -/
  rules_eq : report.outcomes.map Outcome.rule = store.all.map Rule.name
  /-- which goes by time and then by name. -/
  all_before : store.all.Pairwise Rule.Before
  /-- There is one outcome for each rule of the store, -/
  length_eq : report.outcomes.length = store.size
  /-- no name has two, -/
  rules_nodup : (report.outcomes.map Outcome.rule).Nodup
  /-- and just the stored names have one. -/
  find?_isSome : ∀ name, (report.find? name).isSome = store.contains name
  passed_iff : ∀ name outcome, report.find? name = some outcome →
    (outcome.passed = true ↔ store.verdict ctx record name = .ok true)
  /-- The wording of an error is that of the failure that the question answers. -/
  error_iff : ∀ name outcome, report.find? name = some outcome → ∀ text,
    (outcome.error = some text ↔ ∃ failure,
      store.verdict ctx record name = .error (.evaluation failure) ∧
        (Error.evaluation failure).message? = some text)
  isEligible_iff : report.isEligible = true ↔
    ∀ name ∈ store.names, store.verdict ctx record name = .ok true

variable {ctx : Context} {record : Record} {store : Store}

theorem agrees_reportRules (h : store.IsNamed) :
    Agrees ctx record store (ctx.reportRules record store.all) := by
  have hrules := Store.map_rule_outcomes_reportRules ctx record store.all
  -- an outcome that is found is that of a stored rule
  have hfound : ∀ name outcome, (ctx.reportRules record store.all).find? name = some outcome →
      ∃ rule, store.get? name = some rule ∧ ctx.outcome record (name, rule.tree) = outcome := by
    intro name outcome hfind
    rw [Store.find?_reportRules h] at hfind
    exact Option.map_eq_some_iff.1 hfind
  refine ⟨hrules, Store.pairwise_all h, ?_, ?_, ?_, ?_, ?_, ?_⟩
  · rw [Context.outcomes_reportRules, List.length_map, Store.length_all]
  · rw [hrules]
    exact Store.nodup_names_all h
  · intro name
    rw [Store.find?_reportRules h, Option.isSome_map]
    rfl
  · intro name outcome hfind
    rcases hfound name outcome hfind with ⟨rule, hget, rfl⟩
    simp [Context.passed_outcome_iff, Store.verdict_eq_ok_iff, hget]
  · intro name outcome hfind text
    rcases hfound name outcome hfind with ⟨rule, hget, rfl⟩
    simp [Context.error_outcome_iff, Store.verdict_eq_evaluation_iff, hget, Error.message?]
  · rw [Store.isEligible_reportRules_iff]
    constructor
    · intro hpass name hname
      rcases Option.isSome_iff_exists.1 (Store.mem_names.1 hname) with ⟨rule, hget⟩
      exact Store.verdict_eq_ok_iff.2 ⟨rule, hget, hpass name rule hget⟩
    · intro hpass name rule hget
      have hname : name ∈ store.names := by simp [Store.mem_names, Table.contains, hget]
      rcases Store.verdict_eq_ok_iff.1 (hpass name hname) with ⟨other, hother, heval⟩
      rw [hget, Option.some.injEq] at hother
      rw [hother]
      exact heval

theorem Agrees.exists_outcome {report : Report} (h : Agrees ctx record store report) {name : String}
    {rule : Rule} (hget : store.get? name = some rule) :
    ∃ outcome, report.find? name = some outcome ∧ outcome.rule = name := by
  have hstored : store.contains name = true := by simp [Table.contains, hget]
  rcases Option.isSome_iff_exists.1 ((h.find?_isSome name).trans hstored) with ⟨outcome, hfind⟩
  exact ⟨outcome, hfind, by simpa using List.find?_some hfind⟩

/-- What a question answers for a name settles its outcome. -/
theorem Agrees.find?_of_ok {report : Report} (h : Agrees ctx record store report) {name : String}
    {passed : Bool} (hverdict : store.verdict ctx record name = .ok passed) :
    report.find? name = some ⟨name, passed, none⟩ := by
  rcases Store.verdict_eq_ok_iff.1 hverdict with ⟨rule, hget, _⟩
  rcases h.exists_outcome hget with ⟨outcome, hfind, hrule⟩
  have hpassed : outcome.passed = passed := by
    rw [Bool.eq_iff_iff, h.passed_iff name outcome hfind, hverdict, Except.ok.injEq]
  have herror : outcome.error = none := by
    refine Option.eq_none_iff_forall_ne_some.2 ?_
    intro text htext
    rcases (h.error_iff name outcome hfind text).1 htext with ⟨failure, hfailure, _⟩
    rw [hverdict] at hfailure
    cases hfailure
  rw [hfind, ← hrule, ← hpassed, ← herror]

theorem Agrees.find?_of_failure {report : Report} (h : Agrees ctx record store report)
    {name : String} {failure : Evaluation.Failure}
    (hverdict : store.verdict ctx record name = .error (.evaluation failure)) :
    report.find? name = some ⟨name, false, some failure.message⟩ := by
  rcases Store.verdict_eq_evaluation_iff.1 hverdict with ⟨rule, hget, _⟩
  rcases h.exists_outcome hget with ⟨outcome, hfind, hrule⟩
  have hpassed : outcome.passed = false := by
    simpa [hverdict] using h.passed_iff name outcome hfind
  have herror : outcome.error = some failure.message :=
    (h.error_iff name outcome hfind _).2 ⟨failure, hverdict, rfl⟩
  rw [hfind, ← hrule, ← hpassed, ← herror]

/-! ## Every store -/

/-- The stores there can be: the empty one, those that a snapshot gives, whatever its bytes, and
those that steps leave, guarded or not. -/
inductive Occurs : Store → Prop where
  | empty : Occurs .empty
  | load {bytes : List UInt8} {store : Store} (h : Store.ofBytes bytes = .ok store) : Occurs store
  | perform {store : Store} (h : Occurs store) (ctx : Context) (now : Instant) (step : Step) :
      Occurs ((Session.perform ctx now step).run.run store).2

theorem isNamed_of_occurs (h : Occurs store) : store.IsNamed := by
  induction h with
  | empty => exact Store.isNamed_empty
  | @load bytes store h =>
    unfold Store.ofBytes at h
    cases hrules : Snapshot.decode bytes with
    | error e =>
      rw [hrules] at h
      cases h
    | ok rules =>
      rw [hrules] at h
      cases h
      exact Store.isNamed_ofRules rules
  | perform _ ctx now step ih => exact (respects_perform ctx now step (.of_isNamed ih)).2.isNamed

theorem occurs_of_mem_stores {start : Store} {steps : List (Instant × Step)} (h : Occurs start) :
    ∀ store ∈ stores ctx start steps, Occurs store :=
  forall_mem_stores (fun entry _ _ hstore => hstore.perform ctx entry.1 entry.2) h

/-- Steps lead from a store only to stores where the report of all rules is answered, is the same
for every number of workers, and agrees with the question for the verdict of each name. -/
theorem agrees_of_occurs {start : Store} (h : Occurs start) (ctx : Context) (record : Record)
    (steps : List (Instant × Step)) :
    ∀ store ∈ stores ctx start steps, ∃ report,
      (Catalog.reportAll ctx record).run.run store = (.ok report, store) ∧
      (∀ workers, 1 ≤ workers →
        ctx.reportWith workers record (store.all.map fun rule => (rule.name, rule.tree)) =
          report) ∧
      Agrees ctx record store report := by
  intro store hstore
  have hnamed := isNamed_of_occurs (occurs_of_mem_stores h store hstore)
  refine ⟨_, Catalog.run_reportAll ctx record store, ?_, agrees_reportRules hnamed⟩
  intro workers _
  exact Context.reportWith_eq_report workers _

/-- Two rules that pass, their combination, an older rule whose condition is none, and a younger one
that is too deep to be evaluated; the rule of the combination is then changed for another.  The
outcomes come by age, those of one age by name. -/
theorem agrees_of_occurs_overdeep :
    let evening : Instant := ⟨⟨2024, 2, 28, 23, 59, 60, 999999999⟩, by decide⟩
    let noon : Instant := ⟨⟨2024, 2, 29, 12, 0, 0, 500⟩, by decide⟩
    let midnight : Instant := ⟨⟨2024, 3, 1, 0, 0, 0, 0⟩, by decide⟩
    let ctx : Context := ⟨.ofList [("team", .string)], .empty⟩
    let record : Record := .ofList [("team", .string "red")]
    let deep : Tree := (List.range 65).foldl (fun tree _ => .branch .or tree (.operand "a b"))
      (.operand "a b")
    let steps : List (Instant × Step) :=
      [(noon, .create "red" "team = 'red'"), (noon, .create "warm" "team != 'blue'"),
        (noon, .combine ["red", "warm"]), (noon, .insert ⟨"deep", deep, midnight⟩),
        (noon, .insert ⟨"empty", .operand "", evening⟩), (midnight, .modify "red" "team = 'blue'"),
        (midnight, .delete "warm")]
    let store : Store := (stores ctx .empty steps).getLast (List.cons_ne_nil _ _)
    ∃ report, (Catalog.reportAll ctx record).run.run store = (.ok report, store) ∧
      report.outcomes.map Outcome.rule = ["empty", "Combined: red + warm", "red", "deep"] ∧
      report.find? "red" = some ⟨"red", false, none⟩ ∧
      report.find? "Combined: red + warm" = some ⟨"Combined: red + warm", true, none⟩ ∧
      report.find? "empty" = some ⟨"empty", false, some "malformed condition ''"⟩ ∧
      report.find? "deep" = some ⟨"deep", false, some Tree.tooDeepMessage⟩ ∧
      report.find? "warm" = none ∧ report.isEligible = false := by
  intro evening noon midnight ctx record deep steps store
  rcases agrees_of_occurs .empty ctx record steps store (List.getLast_mem _) with
    ⟨report, hreport, _, hagrees⟩
  have hgone : (report.find? "warm").isSome = false :=
    (hagrees.find?_isSome "warm").trans (by decide +kernel)
  have hred : store.verdict ctx record "red" = .ok false := by decide +kernel
  have hempty : store.verdict ctx record "empty" =
      .error (.evaluation (.malformedCondition "")) := by decide +kernel
  have hdeep : store.verdict ctx record "deep" = .error (.evaluation .tooDeep) := by
    decide +kernel
  have hlisted : "red" ∈ store.names := Store.mem_names.2 (by decide +kernel)
  let listing : List Rule :=
    [⟨"empty", .operand "", evening⟩,
      ⟨"Combined: red + warm", .branch .or (.operand "team = 'red'") (.operand "team != 'blue'"),
        noon⟩,
      ⟨"red", .operand "team = 'blue'", noon⟩, ⟨"deep", deep, midnight⟩]
  have hvalues : store.values.Perm listing := by decide +kernel
  have hall : store.all = listing :=
    Rule.eq_of_perm_of_before ((Store.perm_values_all store).trans hvalues) hagrees.all_before
      (by decide +kernel)
  refine ⟨report, hreport, ?_, hagrees.find?_of_ok hred, hagrees.find?_of_ok (by decide +kernel),
    hagrees.find?_of_failure hempty, hagrees.find?_of_failure hdeep, by simpa using hgone, ?_⟩
  · rw [hagrees.rules_eq, hall]
    rfl
  · refine Bool.eq_false_iff.2 ?_
    intro heligible
    rw [hagrees.isEligible_iff.1 heligible "red" hlisted] at hred
    cases hred

end Session
end Eligibility
