import Eligibility.Proofs.Combination
import Eligibility.Proofs.Equivalence

/-!
# Atomicity — an operation that fails leaves no trace

An operation asks first and writes last: its questions leave the store as it is, and nothing fails
after the write.  An error therefore comes with the store from before, and the steps of a run that
fail can be left out of it.  An operation that succeeds has put one rule under its name.

* `Catalog.IsQuestion`, `Catalog.IsAtomic` — operations that never write, and those that write only
  when they succeed;
* `Catalog.IsAtomic.after` — an atomic operation behind a question;
* `Session.isAtomic_perform` — every step;
* `Session.succeeding`, `Session.run_succeeding` — a run without the steps that fail;
* `Store.Gains`, `Catalog.gains_of_create`, … — what a success has written;
* `Session.changes_of_results` — the store behind every operation.
-/

namespace Eligibility

/-- The second store has the rule under the name, and is otherwise like the first one. -/
def Store.Gains (store : Store) (name : String) (rule : Rule) (store' : Store) : Prop :=
  ∀ other, store'.get? other = if other = name then some rule else store.get? other

theorem Store.gains_put (store : Store) (name : String) (rule : Rule) :
    store.Gains name rule (Table.insert store name rule) :=
  fun other => Table.get?_insert store name other rule

namespace Catalog

variable {α β : Type} {ctx : Context}

/-! ## Questions -/

/-- The operation leaves every store as it is. -/
def IsQuestion (action : Action α) : Prop :=
  ∀ store, (action.run.run store).2 = store

theorem isQuestion_get : IsQuestion (get : Action Store) :=
  fun _ => rfl

theorem isQuestion_pure (a : α) : IsQuestion (pure a) :=
  fun _ => rfl

theorem isQuestion_throw (e : Error) : IsQuestion (throw e : Action α) :=
  fun _ => rfl

theorem IsQuestion.bind {first : Action α} {next : α → Action β} (h : IsQuestion first)
    (hnext : ∀ a, IsQuestion (next a)) : IsQuestion (first >>= next) := by
  intro store
  have hfirst := h store
  rw [run_bind]
  rcases hresult : first.run.run store with ⟨e | a, store'⟩
  · rw [hresult] at hfirst
    exact hfirst
  · rw [hresult] at hfirst
    have hsame : store' = store := hfirst
    rw [hsame]
    exact hnext a store

/-- What succeeds after a question has met the store that the question was put to. -/
theorem IsQuestion.ok_of_bind {first : Action α} {next : α → Action β} (h : IsQuestion first)
    {store store' : Store} {b : β} (hrun : (first >>= next).run.run store = (.ok b, store')) :
    ∃ a, (first.run.run store).1 = .ok a ∧ (next a).run.run store = (.ok b, store') := by
  have hfirst := h store
  rw [run_bind] at hrun
  rcases hresult : first.run.run store with ⟨e | a, middle⟩
  · rw [hresult] at hrun
    cases hrun
  · rw [hresult] at hfirst hrun
    have hmiddle : middle = store := hfirst
    rw [hmiddle] at hrun
    exact ⟨a, rfl, hrun⟩

theorem isQuestion_answer (result : Except Error α) : IsQuestion (answer result) := by
  cases result with
  | error e => exact isQuestion_throw e
  | ok a => exact isQuestion_pure a

theorem isQuestion_resolve (names : List String) : IsQuestion (resolve names) := by
  refine isQuestion_get.bind ?_
  intro store
  dsimp only
  cases (absentNames (found store names) [] names).isEmpty with
  | true => exact isQuestion_pure _
  | false => exact isQuestion_throw _

theorem isQuestion_find (name : String) : IsQuestion (find name) := by
  refine isQuestion_get.bind ?_
  intro store
  cases store.get? name with
  | none => exact isQuestion_throw _
  | some rule => exact isQuestion_pure rule

theorem isQuestion_evaluate (name : String) (record : Record) :
    IsQuestion (evaluate ctx name record) := by
  refine (isQuestion_find name).bind ?_
  intro rule
  cases ctx.evaluate record rule.tree with
  | error failure => exact isQuestion_throw _
  | ok passed => exact isQuestion_pure passed

/-! ## Operations that write -/

/-- The operation leaves a store as it is, unless it succeeds. -/
def IsAtomic (action : Action α) : Prop :=
  ∀ ⦃store store' : Store⦄ ⦃e : Error⦄, action.run.run store = (.error e, store') → store' = store

theorem IsQuestion.isAtomic {action : Action α} (h : IsQuestion action) : IsAtomic action := by
  intro store store' e hrun
  have hstore := h store
  rw [hrun] at hstore
  exact hstore

/-- Questions can stand before an atomic operation. -/
theorem IsAtomic.after {first : Action α} {next : α → Action β} (h : IsQuestion first)
    (hnext : ∀ a, IsAtomic (next a)) : IsAtomic (first >>= next) := by
  intro store store' e hrun
  have hfirst := h store
  rw [run_bind] at hrun
  rcases hresult : first.run.run store with ⟨e' | a, middle⟩
  · rw [hresult] at hfirst hrun
    cases hrun
    exact hfirst
  · -- the next operation goes on from the same store
    rw [hresult] at hfirst hrun
    have hmiddle : middle = store := hfirst
    rw [hmiddle] at hrun
    exact hnext a hrun

theorem IsAtomic.map {action : Action α} (h : IsAtomic action) (f : α → β) :
    IsAtomic (do return f (← action)) := by
  intro store store' e hrun
  rw [run_map] at hrun
  rcases hresult : action.run.run store with ⟨e' | a, middle⟩
  · rw [hresult] at hrun
    cases hrun
    exact h hresult
  · rw [hresult] at hrun
    cases hrun

/-- Nothing fails after a write. -/
theorem isAtomic_write (store : Store) (a : α) : IsAtomic (do set store; return a) := by
  intro before after e hrun
  cases hrun

theorem isAtomic_insert (rule : Rule) : IsAtomic (insert rule) := by
  refine .after isQuestion_get ?_
  intro store
  cases store.insert rule with
  | error e => exact (isQuestion_throw _).isAtomic
  | ok store' => exact isAtomic_write store' rule

theorem isAtomic_update (name : String) (tree : Tree) : IsAtomic (update name tree) := by
  refine .after isQuestion_get ?_
  intro store
  cases store.update name tree with
  | error e => exact (isQuestion_throw _).isAtomic
  | ok result => exact isAtomic_write result.2 result.1

theorem isAtomic_delete (name : String) : IsAtomic (delete name) := by
  refine .after isQuestion_get ?_
  intro store
  cases store.delete name with
  | error e => exact (isQuestion_throw _).isAtomic
  | ok store' => exact isAtomic_write store' ()

theorem isAtomic_create (now : Instant) (name text : String) :
    IsAtomic (create ctx now name text) :=
  .after (isQuestion_answer _) fun tree => isAtomic_insert ⟨name, tree, now⟩

theorem isAtomic_modify (name text : String) : IsAtomic (modify ctx name text) :=
  .after (isQuestion_answer _) fun tree => isAtomic_update name tree

theorem isAtomic_combine (now : Instant) (names : List String) :
    IsAtomic (combine now names) := by
  refine .after (isQuestion_resolve names) ?_
  intro rules
  cases Context.combineRules rules with
  | error e => exact (isQuestion_throw _).isAtomic
  | ok combination => exact isAtomic_insert ⟨combination.name, combination.tree, now⟩

theorem isAtomic_reload : IsAtomic reload := by
  refine .after isQuestion_get ?_
  intro store
  cases Store.ofBytes store.toBytes with
  | error e => exact (isQuestion_throw _).isAtomic
  | ok store' => exact isAtomic_write store' store'.size

/-! ## What a success has written -/

variable {store store' : Store} {rule : Rule}

theorem gains_of_insert {given : Rule} (h : (insert given).run.run store = (.ok rule, store')) :
    rule = given ∧ store.Gains given.name rule store' := by
  rw [run_insert] at h
  unfold Store.insert at h
  cases hcontains : store.contains given.name with
  | true =>
    rw [hcontains] at h
    cases h
  | false =>
    rw [hcontains] at h
    cases h
    exact ⟨rfl, store.gains_put rule.name rule⟩

theorem gains_of_update {name : String} {tree : Tree}
    (h : (update name tree).run.run store = (.ok rule, store')) :
    ∃ old, store.get? name = some old ∧ rule = { old with tree := tree } ∧
      store.Gains name rule store' := by
  rw [run_update] at h
  unfold Store.update at h
  cases hget : store.get? name with
  | none =>
    rw [hget] at h
    cases h
  | some old =>
    rw [hget] at h
    cases h
    exact ⟨old, rfl, rfl, store.gains_put name { old with tree := tree }⟩

theorem gains_of_create {now : Instant} {name text : String}
    (h : (create ctx now name text).run.run store = (.ok rule, store')) :
    ∃ tree, ctx.compile text = .ok tree ∧ rule = ⟨name, tree, now⟩ ∧
      store.Gains name rule store' := by
  rcases (isQuestion_answer _).ok_of_bind h with ⟨tree, hcompile, hinsert⟩
  rw [run_answer] at hcompile
  exact ⟨tree, hcompile, gains_of_insert hinsert⟩

theorem gains_of_modify {name text : String}
    (h : (modify ctx name text).run.run store = (.ok rule, store')) :
    ∃ tree old, ctx.compile text = .ok tree ∧ store.get? name = some old ∧
      rule = { old with tree := tree } ∧ store.Gains name rule store' := by
  rcases (isQuestion_answer _).ok_of_bind h with ⟨tree, hcompile, hupdate⟩
  rw [run_answer] at hcompile
  rcases gains_of_update hupdate with ⟨old, hold⟩
  exact ⟨tree, old, hcompile, hold⟩

theorem gains_of_combine {now : Instant} {names : List String}
    (h : (combine now names).run.run store = (.ok rule, store')) :
    ∃ combination, Context.combineRules (names.filterMap store.get?) = .ok combination ∧
      rule = ⟨combination.name, combination.tree, now⟩ ∧
      store.Gains combination.name rule store' := by
  rcases (isQuestion_resolve names).ok_of_bind h with ⟨rules, hresolve, hcombine⟩
  have hrules : rules = names.filterMap store.get? := by
    rw [run_resolve] at hresolve
    split at hresolve
    · cases hresolve
      rfl
    · cases hresolve
  subst hrules
  cases hcombination : Context.combineRules (names.filterMap store.get?) with
  | error e =>
    simp only [hcombination] at hcombine
    cases hcombine
  | ok combination =>
    simp only [hcombination] at hcombine
    exact ⟨combination, rfl, gains_of_insert hcombine⟩

end Catalog

namespace Session

open Catalog

variable {ctx : Context} {store : Store}

theorem isAtomic_perform (ctx : Context) (now : Instant) (step : Step) :
    IsAtomic (perform ctx now step) := by
  cases step with
  | create name text => exact (isAtomic_create now name text).map _
  | modify name text => exact (isAtomic_modify name text).map _
  | combine names => exact (isAtomic_combine now names).map _
  | delete name => exact (isAtomic_delete name).map _
  | insert rule => exact (isAtomic_insert rule).map _
  | update name tree => exact (isAtomic_update name tree).map _
  | reload => exact isAtomic_reload.map _
  | evaluate name record => exact (isQuestion_evaluate name record).isAtomic.map _
  | get name => exact (isQuestion_find name).isAtomic.map _
  | combineRules | validate => exact (isQuestion_answer _).isAtomic
  | loadNothing => exact (isQuestion_throw _).isAtomic
  | reportAll | list | find | findMany | findAll | size | reportRules | describe =>
    -- the other questions have an answer for every store
    intro store store' e hrun
    cases hrun

/-- The steps of a run that succeed, each with its time. -/
def succeeding (ctx : Context) (store : Store) : List (Instant × Step) → List (Instant × Step)
  | [] => []
  | (now, step) :: rest =>
    let result := (perform ctx now step).run.run store
    match result.1 with
    | .error _ => succeeding ctx result.2 rest
    | .ok _ => (now, step) :: succeeding ctx result.2 rest

/-- Without the steps that fail, a run has the results of the others. -/
theorem run_succeeding (ctx : Context) (store : Store) (steps : List (Instant × Step)) :
    run ctx store (succeeding ctx store steps) =
      (run ctx store steps).filter fun result => result.1.isOk := by
  induction steps generalizing store with
  | nil => rfl
  | cons entry rest ih =>
    rcases entry with ⟨now, step⟩
    rcases hresult : (perform ctx now step).run.run store with ⟨e | a, store'⟩
    · -- the rest starts from the store that it would have started from
      have hstore : store' = store := isAtomic_perform ctx now step hresult
      subst hstore
      simpa [run, succeeding, hresult, Except.isOk, Except.toBool] using ih store'
    · simpa [run, succeeding, hresult, Except.isOk, Except.toBool] using ih store'

/-- An error leaves every store as it was, so that the steps of a run that fail can be left out of
it.  A rule that is created, combined or modified stands in the store behind the operation, and all
other names have what they had.  A modified rule keeps its time, and its name in a store of rules
under their own names, which every step keeps. -/
theorem changes_of_results (ctx : Context) (store : Store) :
    (∀ now step e store', (perform ctx now step).run.run store = (.error e, store') →
      store' = store) ∧
    (∀ steps, run ctx store (succeeding ctx store steps) =
      (run ctx store steps).filter fun result => result.1.isOk) ∧
    (∀ now name text rule store',
      (create ctx now name text).run.run store = (.ok rule, store') →
        ∃ tree, ctx.compile text = .ok tree ∧ rule = ⟨name, tree, now⟩ ∧
          store.Gains rule.name rule store') ∧
    (∀ now names rule store', (combine now names).run.run store = (.ok rule, store') →
      ∃ combination, Context.combineRules (names.filterMap store.get?) = .ok combination ∧
        rule = ⟨combination.name, combination.tree, now⟩ ∧ store.Gains rule.name rule store') ∧
    (∀ name text rule store', (modify ctx name text).run.run store = (.ok rule, store') →
      ∃ tree old, ctx.compile text = .ok tree ∧ store.get? name = some old ∧
        rule = { old with tree := tree } ∧ store.Gains name rule store' ∧
        (store.IsNamed → rule.name = name)) ∧
    (store.IsNamed → ∀ now step, Store.IsNamed ((perform ctx now step).run.run store).2) := by
  refine ⟨?failed, run_succeeding ctx store, ?created, ?combined, ?modified, ?named⟩
  case failed =>
    intro now step e store' h
    exact isAtomic_perform ctx now step h
  case created =>
    intro now name text rule store' h
    rcases gains_of_create h with ⟨tree, hcompile, rfl, hgains⟩
    exact ⟨tree, hcompile, rfl, hgains⟩
  case combined =>
    intro now names rule store' h
    rcases gains_of_combine h with ⟨combination, hcombine, rfl, hgains⟩
    exact ⟨combination, hcombine, rfl, hgains⟩
  case modified =>
    intro name text rule store' h
    rcases gains_of_modify h with ⟨tree, old, hcompile, hget, rfl, hgains⟩
    exact ⟨tree, old, hcompile, hget, rfl, hgains, fun hnamed => hnamed name old hget⟩
  case named =>
    intro hnamed now step
    exact (respects_perform ctx now step (.of_isNamed hnamed)).2.isNamed

/-- A store with an invalid tree of the greatest depth: a combination that would be too deep, which
the run goes without, and then a success of each kind. -/
theorem changes_of_results_overdeep :
    let noon : Instant := ⟨⟨2024, 2, 29, 12, 0, 0, 500⟩, by decide⟩
    let dusk : Instant := ⟨⟨2024, 2, 29, 18, 0, 0, 0⟩, by decide⟩
    let ctx : Context := ⟨.ofList [("age", .number)], .empty⟩
    let deep : Tree := (Tree.operand "a b").orAll (List.replicate 64 (.operand ""))
    let store : Store := .ofRules [⟨"deep", deep, noon⟩, ⟨"adult", .operand "age >= 18", noon⟩]
    let steps : List (Instant × Step) :=
      [(dusk, .combine ["deep", "adult"]), (dusk, .modify "deep" "age > 5")]
    (perform ctx dusk (.combine ["deep", "adult"])).run.run store =
        (.error (.combination .tooDeep), store) ∧
      run ctx store [(dusk, .modify "deep" "age > 5")] =
        (run ctx store steps).filter (fun result => result.1.isOk) ∧
      (∃ store', (create ctx dusk "minor" "age < 18").run.run store =
          (.ok ⟨"minor", .operand "age < 18", dusk⟩, store') ∧
        store.Gains "minor" ⟨"minor", .operand "age < 18", dusk⟩ store') ∧
      (∃ store', (combine dusk ["deep"]).run.run store =
          (.ok ⟨"Combined: deep", deep, dusk⟩, store') ∧
        store.Gains "Combined: deep" ⟨"Combined: deep", deep, dusk⟩ store') ∧
      (∃ store', (modify ctx "deep" "age > 5").run.run store =
          (.ok ⟨"deep", .operand "age > 5", noon⟩, store') ∧
        store.Gains "deep" ⟨"deep", .operand "age > 5", noon⟩ store' ∧ store'.IsNamed) := by
  intro noon dusk ctx deep store steps
  rcases changes_of_results ctx store with
    ⟨hfailed, hsucceeding, hcreated, hcombined, hmodified, hkept⟩
  have hnamed : store.IsNamed := Store.isNamed_ofRules _
  have hrefused : (perform ctx dusk (.combine ["deep", "adult"])).run.run store =
      (.error (.combination .tooDeep), store) := by
    have herror : ((combine dusk ["deep", "adult"]).run.run store).1 =
        .error (.combination .tooDeep) := by decide +kernel
    have hresult : (perform ctx dusk (.combine ["deep", "adult"])).run.run store =
        (.error (.combination .tooDeep), ((combine dusk ["deep", "adult"]).run.run store).2) := by
      rw [perform, run_map, herror]
      rfl
    rw [hresult, hfailed _ _ _ _ hresult]
  have hmodify : (modify ctx "deep" "age > 5").run.run store =
      (.ok ⟨"deep", .operand "age > 5", noon⟩,
        ((modify ctx "deep" "age > 5").run.run store).2) :=
    Prod.ext (by decide +kernel) rfl
  refine ⟨hrefused, ?succeeding, ?created, ?combined, ?modified⟩
  case succeeding =>
    have hsteps : succeeding ctx store steps = [(dusk, .modify "deep" "age > 5")] := by
      -- the second step meets the store that the first one has left
      simp only [steps, succeeding, hrefused]
      rw [perform, run_map, hmodify]
      rfl
    rw [← hsteps]
    exact hsucceeding steps
  case created =>
    have hrun : (create ctx dusk "minor" "age < 18").run.run store =
        (.ok ⟨"minor", .operand "age < 18", dusk⟩,
          ((create ctx dusk "minor" "age < 18").run.run store).2) :=
      Prod.ext (by decide +kernel) rfl
    rcases hcreated _ _ _ _ _ hrun with ⟨_, _, _, hgains⟩
    exact ⟨_, hrun, hgains⟩
  case combined =>
    have hrun : (combine dusk ["deep"]).run.run store =
        (.ok ⟨"Combined: deep", deep, dusk⟩, ((combine dusk ["deep"]).run.run store).2) :=
      Prod.ext (by decide +kernel) rfl
    rcases hcombined _ _ _ _ hrun with ⟨_, _, _, hgains⟩
    exact ⟨_, hrun, hgains⟩
  case modified =>
    rcases hmodified _ _ _ _ hmodify with ⟨_, _, _, _, _, hgains, _⟩
    have hnamed' := hkept hnamed dusk (.modify "deep" "age > 5")
    simp only [perform, run_map] at hnamed'
    exact ⟨_, hmodify, hgains, hnamed'⟩

end Session
end Eligibility
