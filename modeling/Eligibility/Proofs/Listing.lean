import Eligibility.Proofs.Equivalence
import Eligibility.Proofs.Instant.Order
import Eligibility.Proofs.Text.ByteOrder

/-!
# Listing — what a store lists, and in which order

A store of rules under their own names lists each of them once: the rules by the time of their
creation, those of one time by the bytes of their names, and the names by their bytes alone.  No two
rules tie, so that each step of a listing goes strictly up.

* `Rule.Before` — the strict order of rules;
* `Rule.before_of_precedes`, `Rule.eq_of_perm_of_before` — sorting keeps it, and it settles the
  listing;
* `Store.mem_all_iff`, `Store.pairwise_all` — the listing of rules;
* `Store.mem_names`, `Store.pairwise_names` — the listing of names;
* `Store.findMany_eq`, `Catalog.found_eq_ofRules` — the rules of given names.
-/

namespace Eligibility

open Snapshot.Payload (utf8)

namespace Rule

/-- The first rule is older, or as old as the second with a name of lesser bytes. -/
def Before (a b : Rule) : Prop :=
  a.createdAt.IsBefore b.createdAt ∨ a.createdAt = b.createdAt ∧ utf8 a.name < utf8 b.name

instance (a b : Rule) : Decidable (a.Before b) :=
  inferInstanceAs (Decidable
    (a.createdAt.IsBefore b.createdAt ∨ a.createdAt = b.createdAt ∧ utf8 a.name < utf8 b.name))

theorem Before.asymm {a b : Rule} (h : a.Before b) : ¬ b.Before a := by
  rintro (hage' | ⟨hage', hname'⟩)
  · rcases h with hage | ⟨hage, _⟩
    · exact hage.asymm hage'
    · exact Instant.IsBefore.irrefl _ (hage ▸ hage')
  · rcases h with hage | ⟨_, hname⟩
    · exact Instant.IsBefore.irrefl _ (hage' ▸ hage)
    · exact List.lt_asymm hname hname'

theorem before_of_precedes {a b : Rule} (h : a.precedes b = true) (hname : a.name ≠ b.name) :
    a.Before b := by
  rcases precedes_iff.1 h with hlt | ⟨heq, hle⟩
  · exact .inl (Instant.rank_lt_rank_iff.1 hlt)
  · refine .inr ⟨Instant.rank_inj.1 heq, Text.utf8_lt_utf8_iff.2 ?_⟩
    by_cases hlt : a.name < b.name
    · exact hlt
    · exact absurd (String.le_antisymm hle hlt) hname

/-- Rules have one listing by age and name. -/
theorem eq_of_perm_of_before {rules rules' : List Rule} (hperm : rules.Perm rules')
    (h : rules.Pairwise Before) (h' : rules'.Pairwise Before) : rules = rules' := by
  refine hperm.eq_of_pairwise ?_ h h'
  intro a b _ _ hab hba
  exact absurd hba hab.asymm

end Rule

namespace Store

variable {store : Store}

/-! ## Rules -/

theorem perm_values_all (store : Store) : store.all.Perm store.values :=
  List.mergeSort_perm store.values Rule.precedes

theorem length_all (store : Store) : store.all.length = store.size := by
  rw [(perm_values_all store).length_eq, Table.values, List.length_map]
  rfl

/-- The rules of a listing have the names of the store. -/
theorem perm_keys_all (h : store.IsNamed) : (store.all.map Rule.name).Perm store.keys := by
  have hkeys : store.values.map Rule.name = store.keys := by
    rw [Table.values, Table.keys, List.map_map]
    refine List.map_congr_left ?_
    rintro ⟨name, rule⟩ hentry
    exact h name rule (Table.mem_entries_iff.1 hentry)
  exact hkeys ▸ (perm_values_all store).map Rule.name

theorem nodup_names_all (h : store.IsNamed) : (store.all.map Rule.name).Nodup :=
  (perm_keys_all h).nodup_iff.2 store.nodup_keys

theorem mem_all_iff (h : store.IsNamed) {rule : Rule} :
    rule ∈ store.all ↔ store.get? rule.name = some rule := by
  rw [(perm_values_all store).mem_iff, h.holds.get?_iff, and_iff_left rfl]

theorem pairwise_all (h : store.IsNamed) : store.all.Pairwise Rule.Before := by
  have hsorted : store.all.Pairwise fun a b => a.precedes b = true :=
    List.pairwise_mergeSort Rule.precedes_trans Rule.precedes_total store.values
  have hdistinct : store.all.Pairwise fun a b => a.name ≠ b.name :=
    List.pairwise_map.1 (nodup_names_all h)
  refine (hsorted.and hdistinct).imp ?_
  rintro a b ⟨hprecedes, hname⟩
  exact Rule.before_of_precedes hprecedes hname

/-! ## Names -/

theorem perm_keys_names (store : Store) : store.names.Perm store.keys :=
  List.mergeSort_perm store.keys _

theorem mem_names {name : String} : name ∈ store.names ↔ store.contains name = true := by
  rw [(perm_keys_names store).mem_iff, Table.mem_keys_iff]

theorem pairwise_names (store : Store) : store.names.Pairwise fun a b => utf8 a < utf8 b := by
  have hsorted : store.names.Pairwise fun a b => decide (a ≤ b) = true := by
    refine List.pairwise_mergeSort ?_ ?_ store.keys
    · intro a b c
      simpa using String.le_trans
    · intro a b
      simpa using String.le_total a b
  have hdistinct : store.names.Nodup := (perm_keys_names store).nodup_iff.2 store.nodup_keys
  refine (hsorted.and hdistinct).imp ?_
  rintro a b ⟨hle, hne⟩
  refine Text.utf8_lt_utf8_iff.2 ?_
  by_cases hlt : a < b
  · exact hlt
  · exact absurd (String.le_antisymm (of_decide_eq_true hle) hlt) hne

/-! ## The rules of given names -/

/-- Of several requests for a name the first one counts, and names without a rule are left out. -/
theorem findMany_eq (store : Store) (names : List String) :
    store.findMany names = names.eraseDups.filterMap store.get? := by
  simp [findMany, distinct_eq]

end Store

/-- A request has the rules of its names under the names that the rules have of themselves. -/
theorem Catalog.found_eq_ofRules {store : Store} (h : store.IsNamed) (names : List String) :
    found store names = Store.ofRules (store.findMany names) := by
  rw [found, Store.ofRules, Store.findMany, List.map_filterMap]
  congr 1
  refine List.filterMap_congr ?_
  intro name _
  cases hget : store.get? name with
  | none => rfl
  | some rule => simp [h name rule hget]

end Eligibility
