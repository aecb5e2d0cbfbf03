import Eligibility.Proofs.Atomicity
import Eligibility.Proofs.Combination

/-!
# Combining — the outcome of a combination

A request for a combination can fail in four ways.  Names without a rule come first, then a request
for nothing, then a tree that is too deep, and last a name that is taken.  Otherwise the rules of
the request are joined in its order, a repeated name each time, and the new rule is stored.

* `Catalog.missing_eq_nil_iff`, `Catalog.exists_rules_of_stored` — requests for stored rules;
* `Catalog.run_combine_of_missing`, `Catalog.run_combine_nil` — requests that find nothing to join;
* `Catalog.run_combine_of_rules` — a combination as an insertion under a derived name;
* `Catalog.result_of_combine` — the outcome in every store of rules under their own names.
-/

namespace Eligibility

open Combination (nameOf)

theorem Context.combineRules_cons (first : Rule) (rest : List Rule) :
    combineRules (first :: rest) =
      if rest = [] ∨ (first.tree.orAll (rest.map Rule.tree)).height ≤ Tree.maxDepth then
        .ok ⟨nameOf ((first :: rest).map Rule.name), first.tree.orAll (rest.map Rule.tree)⟩
      else .error .tooDeep := by
  have hparts := Combination.ofParts_cons (first.name, first.tree)
    (rest.map fun rule => (rule.name, rule.tree))
  simpa [combineRules, Function.comp_def] using hparts

namespace Catalog

variable {store : Store} {names : List String}

/-! ## Requests for stored rules -/

theorem missing_eq_nil_iff :
    missing store names = [] ↔ ∀ name ∈ names, store.contains name = true := by
  simp only [missing, List.eq_nil_iff_forall_not_mem, List.mem_eraseDups, List.mem_filter, not_and,
    Bool.not_eq_true', Bool.not_eq_false]

theorem exists_rules_of_stored (h : ∀ name ∈ names, store.contains name = true) :
    ∃ rules : List Rule, names.map store.get? = rules.map some := by
  induction names with
  | nil => exact ⟨[], rfl⟩
  | cons name rest ih =>
    rw [List.forall_mem_cons] at h
    rcases Option.isSome_iff_exists.1 h.1 with ⟨rule, hget⟩
    rcases ih h.2 with ⟨rules, hrules⟩
    exact ⟨rule :: rules, by rw [List.map_cons, List.map_cons, hget, hrules]⟩

variable {rules : List Rule}

theorem missing_eq_nil_of_rules (h : names.map store.get? = rules.map some) :
    missing store names = [] := by
  refine missing_eq_nil_iff.2 ?_
  intro name hmem
  have hget : store.get? name ∈ rules.map some := h ▸ List.mem_map_of_mem hmem
  rcases List.mem_map.1 hget with ⟨rule, _, hrule⟩
  rw [Table.contains, ← hrule, Option.isSome_some]

theorem filterMap_get?_of_rules (h : names.map store.get? = rules.map some) :
    names.filterMap store.get? = rules := by
  calc
    names.filterMap store.get? = (names.map store.get?).filterMap id := by
      rw [List.filterMap_map, Function.id_comp]
    _ = rules := by rw [h, List.filterMap_map, Function.id_comp, List.filterMap_some]

/-- In a store of rules under their own names, a request finds rules with the names it has. -/
theorem map_name_of_rules (hnamed : store.IsNamed) (h : names.map store.get? = rules.map some) :
    rules.map Rule.name = names := by
  induction names generalizing rules with
  | nil =>
    rw [List.map_nil, eq_comm, List.map_eq_nil_iff] at h
    rw [h, List.map_nil]
  | cons name rest ih =>
    cases rules with
    | nil => cases h
    | cons rule rules =>
      rw [List.map_cons, List.map_cons, List.cons.injEq] at h
      rw [List.map_cons, hnamed name rule h.1, ih h.2]

/-! ## The outcomes -/

theorem run_combine_of_missing (h : missing store names ≠ []) (now : Instant) :
    (combine now names).run.run store =
      (.error (.store (.missingRules (missing store names))), store) := by
  rw [run_combine, if_neg (by simpa using h)]

theorem run_combine_nil (now : Instant) (store : Store) :
    (combine now []).run.run store = (.error (.combination .empty), store) :=
  rfl

/-- The rules of a request are joined in its order, and the result is stored if it is not too deep.
The rule of a request for a single name is not checked. -/
theorem run_combine_of_rules (hnamed : store.IsNamed) {first : Rule} {rest : List Rule}
    (h : names.map store.get? = (first :: rest).map some) (now : Instant) :
    (combine now names).run.run store =
      if rest = [] ∨ (first.tree.orAll (rest.map Rule.tree)).height ≤ Tree.maxDepth then
        (insert ⟨nameOf names, first.tree.orAll (rest.map Rule.tree), now⟩).run.run store
      else (.error (.combination .tooDeep), store) := by
  rw [run_combine, missing_eq_nil_of_rules h, if_pos List.isEmpty_nil, filterMap_get?_of_rules h,
    Context.combineRules_cons, map_name_of_rules hnamed h]
  by_cases hfits : rest = [] ∨ (first.tree.orAll (rest.map Rule.tree)).height ≤ Tree.maxDepth
  · rw [if_pos hfits, if_pos hfits]
  · rw [if_neg hfits, if_neg hfits]

theorem run_insert_of_contains {rule : Rule} (h : store.contains rule.name = true) :
    (insert rule).run.run store = (.error (.store (.duplicateName rule.name)), store) := by
  rw [run_insert, Store.insert, if_pos h]

theorem exists_gains_of_insert {rule : Rule} (h : store.contains rule.name = false) :
    ∃ store', (insert rule).run.run store = (.ok rule, store') ∧
      store.Gains rule.name rule store' := by
  refine ⟨Table.insert store rule.name rule, ?_, store.gains_put rule.name rule⟩
  rw [run_insert, Store.insert, h]
  rfl

/-- The outcome of a combination.  The names without a rule are reported, each once and in the order
of the request.  If there are none, the trees of the request are joined in its order, and the new
rule is stored under the derived name, unless the request is empty, the joined tree is too deep or
the name is taken, in this order. -/
theorem result_of_combine (hnamed : store.IsNamed) (now : Instant) (names : List String) :
    let absent := (names.filter fun name => !store.contains name).eraseDups
    let derived := "Combined: " ++ " + ".intercalate names
    let result := (combine now names).run.run store
    (absent ≠ [] → result = (.error (.store (.missingRules absent)), store)) ∧
    (names = [] → result = (.error (.combination .empty), store)) ∧
    (absent = [] → names ≠ [] → ∃ first rest, names.map store.get? = (first :: rest).map some ∧
      let tree := first.tree.orAll (rest.map Rule.tree)
      (rest ≠ [] → Tree.maxDepth < tree.height →
        result = (.error (.combination .tooDeep), store)) ∧
      (rest = [] ∨ tree.height ≤ Tree.maxDepth →
        (store.contains derived = true →
          result = (.error (.store (.duplicateName derived)), store)) ∧
        (store.contains derived = false → ∃ store', result = (.ok ⟨derived, tree, now⟩, store') ∧
          store.Gains derived ⟨derived, tree, now⟩ store'))) := by
  intro absent derived result
  refine ⟨?missing, ?empty, ?joined⟩
  case missing => exact fun h => run_combine_of_missing h now
  case empty =>
    rintro rfl
    exact run_combine_nil now store
  case joined =>
    intro hstored hne
    rcases exists_rules_of_stored (missing_eq_nil_iff.1 hstored) with ⟨rules, hrules⟩
    cases rules with
    | nil => exact absurd (List.map_eq_nil_iff.1 hrules) hne
    | cons first rest =>
      have hresult : result = _ := run_combine_of_rules hnamed hrules now
      refine ⟨first, rest, hrules, ?deep, ?fits⟩
      case deep =>
        intro hrest hdeep
        rw [hresult, if_neg]
        rintro (hnil | hle)
        · exact hrest hnil
        · exact Nat.not_le_of_lt hdeep hle
      case fits =>
        intro hfits
        rw [hresult, if_pos hfits]
        exact ⟨fun h => run_insert_of_contains h, fun h => exists_gains_of_insert h⟩

/-- A repeated name is joined each time when it is stored, and reported once when it is not. -/
theorem result_of_combine_repeated :
    let noon : Instant := ⟨⟨2024, 2, 29, 12, 0, 0, 500⟩, by decide⟩
    let a : Rule := ⟨"A", .operand "age > 1", noon⟩
    let b : Rule := ⟨"B", .operand "age > 2", noon⟩
    let store : Store := .ofRules [a, b]
    let rule : Rule := ⟨"Combined: B + A + B", .branch .or (.branch .or b.tree a.tree) b.tree, noon⟩
    store.IsNamed ∧
      (combine noon ["X", "A", "Y", "X"]).run.run store =
        (.error (.store (.missingRules ["X", "Y"])), store) ∧
      ∃ store', (combine noon ["B", "A", "B"]).run.run store = (.ok rule, store') ∧
        store.Gains "Combined: B + A + B" rule store' := by
  intro noon a b store rule
  have hnamed : store.IsNamed := Store.isNamed_ofRules [a, b]
  have hmissing := result_of_combine hnamed noon ["X", "A", "Y", "X"]
  have hjoined := result_of_combine hnamed noon ["B", "A", "B"]
  refine ⟨hnamed, hmissing.1 (by decide +kernel), ?_⟩
  rcases hjoined.2.2 (by decide +kernel) (by decide) with ⟨first, rest, hrules, _, hfits⟩
  -- the names answer these rules
  have hrules' : [b, a, b] = first :: rest := by
    have hsome : [b, a, b].map some = (first :: rest).map some :=
      Eq.trans (by decide +kernel) hrules
    exact List.map_injective_iff.2 (Option.some_injective Rule) hsome
  cases hrules'
  exact (hfits (.inr (by decide))).2 (by decide +kernel)

end Catalog
end Eligibility
