import Mathlib.Data.List.Basic
import Eligibility.Catalog
import Eligibility.Proofs.Store

/-!
# Catalog — the operations as functions of the store

What each operation answers and which store it leaves.  An operation goes on from the store that
the one before has left, and stops at the first error.

* `Context.compile_eq_ok_iff` — the trees of texts in a context;
* `Catalog.run_bind` — one operation after another;
* `Catalog.get?_found`, `Catalog.absentNames_found` — what a request finds, and what it misses;
* `Catalog.run_insert`, `Catalog.run_update`, `Catalog.run_delete` — the changes;
* `Catalog.run_create`, `Catalog.run_modify`, `Catalog.run_combine` — the changes with a check
  before them;
* `Catalog.run_find`, `Catalog.run_evaluate`, `Catalog.run_reportAll` — the questions;
* `Catalog.run_reload` — the way through a snapshot.
-/

namespace Eligibility

/-- A text has a tree in a context when it compiles to a tree that fits the context. -/
theorem Context.compile_eq_ok_iff {ctx : Context} {text : String} {tree : Tree} :
    ctx.compile text = .ok tree ↔
      Formula.compile text = .ok tree ∧ ctx.validate tree = .ok () := by
  unfold compile
  cases Formula.compile text with
  | error e => simp
  | ok tree' =>
    dsimp only
    cases hvalid : ctx.validate tree' with
    | error defect =>
      simp only [reduceCtorEq, Except.ok.injEq, false_iff]
      rintro ⟨rfl, hvalid'⟩
      rw [hvalid] at hvalid'
      cases hvalid'
    | ok =>
      simp only [Except.ok.injEq]
      constructor
      · rintro rfl
        exact ⟨rfl, hvalid⟩
      · exact And.left

namespace Catalog

variable {α β : Type}

/-! ## One operation after another -/

theorem run_get (store : Store) : (get : Action Store).run.run store = (.ok store, store) :=
  rfl

theorem run_bind (action : Action α) (next : α → Action β) (store : Store) :
    (action >>= next).run.run store =
      match action.run.run store with
      | (.error e, store') => (.error e, store')
      | (.ok a, store') => (next a).run.run store' := by
  -- the two layers of the monad, opened once for all operations
  change (match action.run.run store with
    | (result, store') => (ExceptT.bindCont next result).run store') = _
  rcases action.run.run store with ⟨e | a, store'⟩
  · rfl
  · rfl

/-- An answer that is only put in other words. -/
theorem run_map (action : Action α) (f : α → β) (store : Store) :
    (do return f (← action) : Action β).run.run store =
      ((action.run.run store).1.map f, (action.run.run store).2) := by
  rw [run_bind]
  rcases action.run.run store with ⟨e | a, store'⟩
  · rfl
  · rfl

theorem run_answer (result : Except Error α) (store : Store) :
    (answer result).run.run store = (result, store) := by
  cases result with
  | error e => rfl
  | ok a => rfl

/-! ## The names of a request -/

/-- The names of a list without a rule, each once. -/
def missing (store : Store) (names : List String) : List String :=
  (names.filter fun name => !store.contains name).eraseDups

theorem get?_found_eq_some_iff {store : Store} {names : List String} {name : String} {rule : Rule} :
    (found store names).get? name = some rule ↔ name ∈ names ∧ store.get? name = some rule := by
  have hpairs (value : Rule) : (name, value) ∈ ((Store.distinct [] names).filterMap fun name =>
      (store.get? name).map (Prod.mk name)) ↔ name ∈ names ∧ store.get? name = some value := by
    simp [Store.distinct_eq, List.mem_filterMap]
  constructor
  · intro h
    exact (hpairs rule).1 (Table.mem_of_get?_ofList h)
  · intro h
    -- the table has a rule for the name, and it is the one of a pair
    have hcontains : (found store names).contains name = true :=
      Table.contains_ofList.2 (List.mem_map.2 ⟨_, (hpairs rule).2 h, rfl⟩)
    rcases Option.isSome_iff_exists.1 hcontains with ⟨rule', hget⟩
    have hstored := ((hpairs rule').1 (Table.mem_of_get?_ofList hget)).2
    rw [h.2, Option.some.injEq] at hstored
    rw [hget, hstored]

theorem get?_found {store : Store} {names : List String} {name : String} (h : name ∈ names) :
    (found store names).get? name = store.get? name := by
  ext rule
  rw [get?_found_eq_some_iff, and_iff_right h]

/-- The absent names are gathered at their first occurrence. -/
theorem absentNames_eq (rules : Table Rule) (absent names : List String) :
    absentNames rules absent names =
      absent ++ Store.distinct absent.reverse (names.filter fun name => !rules.contains name) := by
  induction names generalizing absent with
  | nil => simp [absentNames, Store.distinct]
  | cons name rest ih =>
    cases hfound : rules.contains name with
    | true => simp [absentNames, hfound, ih]
    | false =>
      by_cases hmem : name ∈ absent
      · simp [absentNames, Store.distinct, hfound, hmem, ih]
      · simp [absentNames, Store.distinct, hfound, hmem, ih]

/-- Of a request, the names are absent that the store has no rule for. -/
theorem absentNames_found (store : Store) (names : List String) :
    absentNames (found store names) [] names = missing store names := by
  have hfilter : (names.filter fun name => !(found store names).contains name) =
      names.filter fun name => !store.contains name := by
    refine List.filter_congr ?_
    intro name hmem
    rw [Table.contains, Table.contains, get?_found hmem]
  rw [absentNames_eq, hfilter]
  simp [Store.distinct_eq, missing]

/-! ## Changes of the store -/

theorem run_insert (rule : Rule) (store : Store) :
    (insert rule).run.run store =
      match store.insert rule with
      | .error e => (.error (.store e), store)
      | .ok store' => (.ok rule, store') := by
  rw [insert, run_bind, run_get]
  dsimp only
  cases store.insert rule with
  | error e => rfl
  | ok store' => rfl

theorem run_update (name : String) (tree : Tree) (store : Store) :
    (update name tree).run.run store =
      match store.update name tree with
      | .error e => (.error (.store e), store)
      | .ok (rule, store') => (.ok rule, store') := by
  rw [update, run_bind, run_get]
  dsimp only
  cases store.update name tree with
  | error e => rfl
  | ok result => rfl

theorem run_delete (name : String) (store : Store) :
    (delete name).run.run store =
      match store.delete name with
      | .error e => (.error (.store e), store)
      | .ok store' => (.ok (), store') := by
  rw [delete, run_bind, run_get]
  dsimp only
  cases store.delete name with
  | error e => rfl
  | ok store' => rfl

theorem run_create (ctx : Context) (now : Instant) (name text : String) (store : Store) :
    (create ctx now name text).run.run store =
      match ctx.compile text with
      | .error e => (.error e, store)
      | .ok tree => (insert ⟨name, tree, now⟩).run.run store := by
  rw [create, run_bind, run_answer]
  cases ctx.compile text with
  | error e => rfl
  | ok tree => rfl

theorem run_modify (ctx : Context) (name text : String) (store : Store) :
    (modify ctx name text).run.run store =
      match ctx.compile text with
      | .error e => (.error e, store)
      | .ok tree => (update name tree).run.run store := by
  rw [modify, run_bind, run_answer]
  cases ctx.compile text with
  | error e => rfl
  | ok tree => rfl

theorem run_resolve (names : List String) (store : Store) :
    (resolve names).run.run store =
      if (missing store names).isEmpty then (.ok (names.filterMap store.get?), store)
      else (.error (.store (.missingRules (missing store names))), store) := by
  have hrules : names.filterMap (found store names).get? = names.filterMap store.get? :=
    List.filterMap_congr fun _ hmem => get?_found hmem
  rw [resolve, run_bind, run_get]
  dsimp only
  rw [absentNames_found, hrules]
  cases (missing store names).isEmpty with
  | true => rfl
  | false => rfl

theorem run_combine (now : Instant) (names : List String) (store : Store) :
    (combine now names).run.run store =
      if (missing store names).isEmpty then
        match Context.combineRules (names.filterMap store.get?) with
        | .error e => (.error (.combination e), store)
        | .ok combination => (insert ⟨combination.name, combination.tree, now⟩).run.run store
      else (.error (.store (.missingRules (missing store names))), store) := by
  rw [combine, run_bind, run_resolve]
  cases (missing store names).isEmpty with
  | false => rfl
  | true =>
    simp only [if_true]
    cases Context.combineRules (names.filterMap store.get?) with
    | error e => rfl
    | ok combination => rfl

/-! ## Questions to the store -/

theorem run_find (name : String) (store : Store) :
    (find name).run.run store =
      match store.get? name with
      | none => (.error (.store (.notFound name)), store)
      | some rule => (.ok rule, store) := by
  rw [find, run_bind, run_get]
  dsimp only
  cases store.get? name with
  | none => rfl
  | some rule => rfl

theorem run_evaluate (ctx : Context) (name : String) (record : Record) (store : Store) :
    (evaluate ctx name record).run.run store =
      match store.get? name with
      | none => (.error (.store (.notFound name)), store)
      | some rule => ((ctx.evaluate record rule.tree).mapError Error.evaluation, store) := by
  rw [evaluate, run_bind, run_find]
  cases store.get? name with
  | none => rfl
  | some rule =>
    dsimp only
    cases ctx.evaluate record rule.tree with
    | error failure => rfl
    | ok passed => rfl

theorem run_reportAll (ctx : Context) (record : Record) (store : Store) :
    (reportAll ctx record).run.run store = (.ok (ctx.reportRules record store.all), store) :=
  rfl

/-! ## Snapshots -/

theorem run_reload (store : Store) :
    reload.run.run store =
      match Store.ofBytes store.toBytes with
      | .error e => (.error (.snapshot e), store)
      | .ok store' => (.ok store'.size, store') := by
  rw [reload, run_bind, run_get]
  dsimp only
  cases Store.ofBytes store.toBytes with
  | error e => rfl
  | ok store' => rfl

end Catalog
end Eligibility
