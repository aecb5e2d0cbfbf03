import Mathlib.Control.Monad.Basic
import Eligibility.Proofs.Catalog
import Eligibility.Proofs.Combination
import Eligibility.Proofs.Evaluation
import Eligibility.Proofs.Report
import Eligibility.Proofs.Store
import Eligibility.Session

/-!
# Session — the rules of a store stay valid

Rule text is validated before its tree is stored, a combination is not validated again, and a
snapshot is read by a walk of its own.  Still every rule of a store stays within the limit of depth
and fits the context, as long as no step writes to the store past the catalog.  A rule of such a
store can fail on a record only by an absent attribute.

* `Store.IsSound` — the invariant;
* `Context.validate_of_compile`, `Context.validate_of_combineRules` — the trees that are stored;
* `Session.Step.isGuarded`, `Session.isSound_perform` — the steps that keep the invariant;
* `Session.forall_mem_stores` — the stores of a run have what every step keeps;
* `Session.Reachable`, `Session.reachable_of_mem_stores` — the stores that guarded steps lead to,
  the stores of a run of such steps among them;
* `Session.outcomes_of_reachable` — what a question to such a store can be answered.
-/

namespace Eligibility

/-- A store whose trees keep the limit of depth and fit a context. -/
def Store.IsSound (ctx : Context) (store : Store) : Prop :=
  ∀ name rule, store.get? name = some rule →
    rule.tree.depth ≤ Tree.maxDepth ∧ ctx.validate rule.tree = .ok ()

namespace Context

variable {ctx : Context}

theorem validate_of_compile {text : String} {tree : Tree} (h : ctx.compile text = .ok tree) :
    ctx.validate tree = .ok () :=
  (compile_eq_ok_iff.1 h).2

/-- A combination of valid trees needs no validation. -/
theorem validate_of_combineRules {rules : List Rule} {combination : Combination}
    (h : combineRules rules = .ok combination)
    (hrules : ∀ rule ∈ rules, ctx.validate rule.tree = .ok ()) :
    ctx.validate combination.tree = .ok () := by
  have hparts : ∀ part ∈ rules.map (fun rule => (rule.name, rule.tree)),
      ctx.validate part.2 = .ok () := by
    intro part hpart
    rcases List.mem_map.1 hpart with ⟨rule, hrule, rfl⟩
    exact hrules rule hrule
  have hheights := fun part hpart => (validate_eq_ok_iff.1 (hparts part hpart)).1
  rcases Combination.ofParts_eq_ok h hheights with ⟨_, hheight, hleaves⟩
  refine validate_eq_ok_iff.2 ⟨hheight, ?_⟩
  intro condition hcondition
  rw [hleaves, List.mem_flatMap] at hcondition
  rcases hcondition with ⟨part, hpart, hmem⟩
  exact (validate_eq_ok_iff.1 (hparts part hpart)).2 condition hmem

/-- The depth of a valid tree needs no check of its own. -/
theorem depth_le_of_validate {tree : Tree} (h : ctx.validate tree = .ok ()) :
    tree.depth ≤ Tree.maxDepth := by
  rw [tree.depth_eq_height]
  exact (validate_eq_ok_iff.1 h).1

end Context

namespace Store

variable {ctx : Context} {store : Store}

theorem isSound_empty (ctx : Context) : IsSound ctx .empty := by
  intro name rule hget
  rw [Table.get?_empty] at hget
  cases hget

theorem IsSound.put (h : store.IsSound ctx) {rule : Rule}
    (hrule : ctx.validate rule.tree = .ok ()) (name : String) :
    IsSound ctx (Table.insert store name rule) := by
  intro other rule' hget
  by_cases hname : other = name
  · subst hname
    rw [Table.get?_insert_self, Option.some.injEq] at hget
    subst hget
    exact ⟨Context.depth_le_of_validate hrule, hrule⟩
  · rw [Table.get?_insert_of_ne store rule hname] at hget
    exact h other rule' hget

theorem IsSound.insert (h : store.IsSound ctx) {rule : Rule}
    (hrule : ctx.validate rule.tree = .ok ()) :
    IsSound ctx ((Catalog.insert rule).run.run store).2 := by
  rw [Catalog.run_insert]
  unfold Store.insert
  cases store.contains rule.name with
  | true => exact h
  | false => exact h.put hrule rule.name

theorem IsSound.update (h : store.IsSound ctx) (name : String) {tree : Tree}
    (htree : ctx.validate tree = .ok ()) :
    IsSound ctx ((Catalog.update name tree).run.run store).2 := by
  rw [Catalog.run_update]
  -- the name and the time of the rule play no part in the invariant
  unfold Store.update
  cases store.get? name with
  | none => exact h
  | some rule =>
    have hrule : ctx.validate ({ rule with tree := tree } : Rule).tree = .ok () := htree
    exact h.put hrule name

theorem IsSound.delete (h : store.IsSound ctx) (name : String) :
    IsSound ctx ((Catalog.delete name).run.run store).2 := by
  rw [Catalog.run_delete]
  unfold Store.delete
  cases store.contains name with
  | false => exact h
  | true =>
    intro other rule hget
    simp only [if_true, Table.get?_erase] at hget
    split at hget
    · cases hget
    · exact h other rule hget

theorem IsSound.create (h : store.IsSound ctx) (now : Instant) (name text : String) :
    IsSound ctx ((Catalog.create ctx now name text).run.run store).2 := by
  rw [Catalog.run_create]
  cases hcompile : ctx.compile text with
  | error e => exact h
  | ok tree => exact h.insert (Context.validate_of_compile hcompile)

theorem IsSound.modify (h : store.IsSound ctx) (name text : String) :
    IsSound ctx ((Catalog.modify ctx name text).run.run store).2 := by
  rw [Catalog.run_modify]
  cases hcompile : ctx.compile text with
  | error e => exact h
  | ok tree => exact h.update name (Context.validate_of_compile hcompile)

theorem IsSound.combine (h : store.IsSound ctx) (now : Instant) (names : List String) :
    IsSound ctx ((Catalog.combine now names).run.run store).2 := by
  rw [Catalog.run_combine]
  cases (Catalog.missing store names).isEmpty with
  | false => exact h
  | true =>
    -- every part is a rule of the store, which the invariant speaks of
    have hrules : ∀ rule ∈ names.filterMap store.get?, ctx.validate rule.tree = .ok () := by
      intro rule hrule
      rcases List.mem_filterMap.1 hrule with ⟨name, _, hget⟩
      exact (h name rule hget).2
    simp only [if_true]
    cases hcombine : Context.combineRules (names.filterMap store.get?) with
    | error e => exact h
    | ok combination => exact h.insert (Context.validate_of_combineRules hcombine hrules)

/-- A snapshot gives back rules of the store that it was made of. -/
theorem IsSound.load (h : store.IsSound ctx) {store' : Store}
    (hbytes : ofBytes store.toBytes = .ok store') : store'.IsSound ctx := by
  rw [ofBytes_toBytes hbytes]
  intro name rule hget
  -- the rule may have stood under another name, which makes no difference here
  rcases mem_all.1 (get?_ofRules hget).1 with ⟨other, hother⟩
  exact h other rule hother

theorem IsSound.reload (h : store.IsSound ctx) :
    IsSound ctx (Catalog.reload.run.run store).2 := by
  rw [Catalog.run_reload]
  cases hbytes : ofBytes store.toBytes with
  | error e => exact h
  | ok store' => exact h.load hbytes

end Store

namespace Session

variable {ctx : Context} {store : Store}

/-- A step that does not write to the store past the catalog. -/
def Step.isGuarded : Step → Bool
  | .insert _ => false
  | .update _ _ => false
  | _ => true

/-- Every guarded step keeps the invariant, whether it succeeds or fails. -/
theorem isSound_perform (h : store.IsSound ctx) (now : Instant) {step : Step}
    (hstep : step.isGuarded = true) :
    Store.IsSound ctx ((perform ctx now step).run.run store).2 := by
  -- the changes first, then the questions, which leave the store as it is
  cases step with
  | create name text =>
    simp only [perform, Catalog.run_map]
    exact h.create now name text
  | modify name text =>
    simp only [perform, Catalog.run_map]
    exact h.modify name text
  | combine names =>
    simp only [perform, Catalog.run_map]
    exact h.combine now names
  | delete name =>
    simp only [perform, Catalog.run_map]
    exact h.delete name
  | reload =>
    simp only [perform, Catalog.run_map]
    exact h.reload
  | evaluate name record =>
    simp only [perform, Catalog.run_map, Catalog.run_evaluate]
    cases store.get? name with
    | none => exact h
    | some rule => exact h
  | get name =>
    simp only [perform, Catalog.run_map, Catalog.run_find]
    cases store.get? name with
    | none => exact h
    | some rule => exact h
  | insert rule => cases hstep
  | update name tree => cases hstep
  | combineRules rules =>
    simp only [perform, Catalog.run_answer]
    exact h
  | validate tree =>
    simp only [perform, Catalog.run_answer]
    exact h
  | reportAll | list | find | findMany | findAll | size | reportRules | describe | loadNothing =>
    exact h

/-- The stores that guarded steps lead to from the empty one.  A snapshot need not be read at once:
it may be one of any store on the way. -/
inductive Reachable (ctx : Context) : Store → Prop where
  | empty : Reachable ctx .empty
  | perform {store : Store} (h : Reachable ctx store) (now : Instant) {step : Step}
      (hstep : step.isGuarded = true) :
      Reachable ctx ((Session.perform ctx now step).run.run store).2
  | load {store store' : Store} (h : Reachable ctx store)
      (hbytes : Store.ofBytes store.toBytes = .ok store') : Reachable ctx store'

theorem isSound_of_reachable (h : Reachable ctx store) : store.IsSound ctx := by
  induction h with
  | empty => exact Store.isSound_empty ctx
  | perform _ now hstep ih => exact isSound_perform ih now hstep
  | load _ hbytes ih => exact ih.load hbytes

/-- The stores that a run goes through, the first one included. -/
def stores (ctx : Context) (store : Store) (steps : List (Instant × Step)) : List Store :=
  store :: (run ctx store steps).map Prod.snd

/-- What every step of a run keeps holds of all stores on the way. -/
theorem forall_mem_stores {Kept : Store → Prop} {steps : List (Instant × Step)}
    (hsteps : ∀ entry ∈ steps, ∀ store, Kept store →
      Kept ((perform ctx entry.1 entry.2).run.run store).2)
    (h : Kept store) : ∀ store' ∈ stores ctx store steps, Kept store' := by
  induction steps generalizing store with
  | nil =>
    intro store' hmem
    rw [stores, run, List.map_nil, List.mem_singleton] at hmem
    rw [hmem]
    exact h
  | cons entry rest ih =>
    have hnext := hsteps entry List.mem_cons_self store h
    intro store' hmem
    rcases List.mem_cons.1 hmem with rfl | hrest
    · exact h
    · -- the other stores are those of a run from the store after the first step
      exact ih (fun entry hentry => hsteps entry (List.mem_cons_of_mem _ hentry)) hnext store' hrest

theorem reachable_of_mem_stores {steps : List (Instant × Step)} (h : Reachable ctx store)
    (hsteps : ∀ entry ∈ steps, entry.2.isGuarded = true) :
    ∀ store' ∈ stores ctx store steps, Reachable ctx store' :=
  forall_mem_stores (fun entry hentry _ hstore => hstore.perform entry.1 (hsteps entry hentry)) h

/-! ## Questions to a sound store -/

theorem evaluate_of_isSound (h : store.IsSound ctx) (name : String) (record : Record) :
    (store.get? name = none ∧
      (Catalog.evaluate ctx name record).run.run store =
        (.error (.store (.notFound name)), store)) ∨
    (∃ attr, record.contains attr = false ∧
      (Catalog.evaluate ctx name record).run.run store =
        (.error (.evaluation (.missingData attr)), store)) ∨
    ∃ passed, (Catalog.evaluate ctx name record).run.run store = (.ok passed, store) := by
  rw [Catalog.run_evaluate]
  cases hget : store.get? name with
  | none => exact .inl ⟨rfl, rfl⟩
  | some rule =>
    refine .inr ?_
    cases heval : ctx.evaluate record rule.tree with
    | ok passed => exact .inr ⟨passed, by simp [heval, Except.mapError]⟩
    | error failure =>
      rcases Context.absent_of_evaluate (h name rule hget).2 heval with ⟨attr, _, habsent, rfl⟩
      exact .inl ⟨attr, habsent, by simp [heval, Except.mapError]⟩

theorem reportAll_of_isSound (h : store.IsSound ctx) (record : Record) :
    ∃ report, (Catalog.reportAll ctx record).run.run store = (.ok report, store) ∧
      ∀ outcome ∈ report.outcomes, ∀ error, outcome.error = some error →
        ∃ attr, record.contains attr = false ∧
          error = (Evaluation.Failure.missingData attr).message := by
  refine ⟨_, Catalog.run_reportAll ctx record store, ?_⟩
  intro outcome houtcome error herror
  -- an outcome comes from one rule of the listing, and that rule from the store
  rw [Context.outcomes_reportRules, List.mem_map] at houtcome
  rcases houtcome with ⟨rule, hrule, rfl⟩
  rcases Store.mem_all.1 hrule with ⟨name, hget⟩
  simp only [Context.outcome] at herror
  cases heval : ctx.evaluate record rule.tree with
  | ok passed =>
    rw [heval] at herror
    cases herror
  | error failure =>
    rcases Context.absent_of_evaluate (h name rule hget).2 heval with ⟨attr, _, habsent, rfl⟩
    rw [heval] at herror
    cases herror
    exact ⟨attr, habsent, rfl⟩

/-- In every store that guarded steps lead to, each rule stays within the limit of depth and fits
the context.  Hence a question for a verdict fails only for an unknown name or an absent attribute,
and a report of all rules states no other failure either. -/
theorem outcomes_of_reachable (h : Reachable ctx store) :
    (∀ name rule, store.get? name = some rule →
      rule.tree.depth ≤ Tree.maxDepth ∧ ctx.validate rule.tree = .ok ()) ∧
    (∀ name record,
      (store.get? name = none ∧
        (Catalog.evaluate ctx name record).run.run store =
          (.error (.store (.notFound name)), store)) ∨
      (∃ attr, record.contains attr = false ∧
        (Catalog.evaluate ctx name record).run.run store =
          (.error (.evaluation (.missingData attr)), store)) ∨
      ∃ passed, (Catalog.evaluate ctx name record).run.run store = (.ok passed, store)) ∧
    (∀ record, ∃ report,
      (Catalog.reportAll ctx record).run.run store = (.ok report, store) ∧
        ∀ outcome ∈ report.outcomes, ∀ error, outcome.error = some error →
          ∃ attr, record.contains attr = false ∧
            error = (Evaluation.Failure.missingData attr).message) := by
  have hsound := isSound_of_reachable h
  exact ⟨hsound, evaluate_of_isSound hsound, reportAll_of_isSound hsound⟩

/-- A refused rule, a combination, and then changes to both of its parts; the record has a value
for one of them only, so that the report of the combination states a failure. -/
theorem outcomes_of_reachable_combination :
    let noon : Instant := ⟨⟨2024, 2, 29, 12, 0, 0, 500⟩, by decide⟩
    let ctx : Context := ⟨.ofList [("age", .number), ("team", .string)], .empty⟩
    let record : Record := .ofList [("team", .string "y")]
    let steps : List (Instant × Step) :=
      [(noon, .create "adult" "age >= 18"), (noon, .create "typo" "agee >= 18"),
        (noon, .create "red" "team = 'R) D'"), (noon, .combine ["adult", "red"]),
        (noon, .modify "red" "team != 'x'"), (noon, .delete "adult")]
    let store : Store := (stores ctx .empty steps).getLast (List.cons_ne_nil _ _)
    Reachable ctx store ∧ store.keys = ["red", "Combined: adult + red"] ∧
      (∀ name rule, store.get? name = some rule →
        rule.tree.depth ≤ Tree.maxDepth ∧ ctx.validate rule.tree = .ok ()) ∧
      ((Catalog.evaluate ctx "Combined: adult + red" .empty).run.run store).1 =
        .error (.evaluation (.missingData "age")) ∧
      ∃ report, (Catalog.reportAll ctx record).run.run store = (.ok report, store) ∧
        ⟨"Combined: adult + red", false, some "missing data for attribute 'age'"⟩ ∈
          report.outcomes ∧
        ∃ attr, record.contains attr = false ∧
          "missing data for attribute 'age'" = (Evaluation.Failure.missingData attr).message := by
  intro noon ctx record steps store
  have hguarded : ∀ entry ∈ steps, entry.2.isGuarded = true := by
    simp [steps, Step.isGuarded]
  have hreachable : Reachable ctx store :=
    reachable_of_mem_stores .empty hguarded store (List.getLast_mem _)
  rcases outcomes_of_reachable hreachable with ⟨hsound, _, hreports⟩
  rcases hreports record with ⟨report, hreport, htexts⟩
  have houtcome : ⟨"Combined: adult + red", false, some "missing data for attribute 'age'"⟩ ∈
      report.outcomes := by
    let rule : Rule := ⟨"Combined: adult + red",
      .branch .or (.operand "age >= 18") (.operand "team = 'R) D'"), noon⟩
    have hget : store.get? rule.name = some rule := by decide +kernel
    rw [Catalog.run_reportAll] at hreport
    cases hreport
    rw [Context.outcomes_reportRules]
    exact List.mem_map.2 ⟨rule, Store.mem_all.2 ⟨_, hget⟩, by decide +kernel⟩
  refine ⟨hreachable, ?_, hsound, ?_, report, hreport, houtcome, htexts _ houtcome _ rfl⟩
  · decide +kernel
  · decide +kernel

end Session
end Eligibility
