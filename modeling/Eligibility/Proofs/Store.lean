import Eligibility.Proofs.Snapshot.RoundTrip
import Eligibility.Store

/-!
# Store — which rules a store holds

* `Table.mem_of_get?_ofList`, `Table.contains_ofList` — a table of pairs answers with one of them,
  for each of their names;
* `Table.entries_ofList` — pairs with distinct names are the entries;
* `Store.distinct_eq` — the names of a list, each once;
* `Store.mem_all` — the listing has just the rules that the names answer;
* `Store.ofBytes_toBytes` — the store that a snapshot gives, if it gives one;
* `Store.get?_ofRules` — every rule of a store of rules is one of them, under its own name;
* `Store.Holds`, `Store.holds_ofRules` — the store of rules with distinct names has all of them.
-/

namespace Eligibility

namespace Table

variable {α : Type}

theorem get?_foldl_insert {pairs : List (String × α)} {t : Table α} {name : String} {value : α}
    (h : (pairs.foldl (fun t pair => t.insert pair.1 pair.2) t).get? name = some value) :
    (name, value) ∈ pairs ∨ t.get? name = some value := by
  induction pairs generalizing t with
  | nil => exact .inr h
  | cons pair rest ih =>
    rcases pair with ⟨key, new⟩
    rcases ih h with hrest | hinsert
    · exact .inl (List.mem_cons_of_mem _ hrest)
    · by_cases hkey : name = key
      · subst hkey
        rw [get?_insert_self, Option.some.injEq] at hinsert
        subst hinsert
        exact .inl List.mem_cons_self
      · rw [get?_insert_of_ne t new hkey] at hinsert
        exact .inr hinsert

theorem mem_of_get?_ofList {pairs : List (String × α)} {name : String} {value : α}
    (h : (ofList pairs).get? name = some value) : (name, value) ∈ pairs := by
  rcases get?_foldl_insert h with hmem | hempty
  · exact hmem
  · rw [get?_empty] at hempty
    cases hempty

theorem contains_foldl_insert {pairs : List (String × α)} {t : Table α} {name : String} :
    (pairs.foldl (fun t pair => t.insert pair.1 pair.2) t).contains name = true ↔
      name ∈ pairs.map Prod.fst ∨ t.contains name = true := by
  induction pairs generalizing t with
  | nil => simp
  | cons pair rest ih =>
    rcases pair with ⟨key, new⟩
    rw [List.foldl_cons, ih, List.map_cons, List.mem_cons, contains, contains, get?_insert]
    by_cases hkey : name = key
    · simp [hkey]
    · simp [hkey]

theorem contains_ofList {pairs : List (String × α)} {name : String} :
    (ofList pairs).contains name = true ↔ name ∈ pairs.map Prod.fst := by
  rw [ofList, contains_foldl_insert]
  simp [contains]

/-- A new name is put at the end. -/
theorem put_of_not_mem {name : String} {value : α} {entries : List (String × α)}
    (h : name ∉ entries.map Prod.fst) : put name value entries = entries ++ [(name, value)] := by
  induction entries with
  | nil => rfl
  | cons entry rest ih =>
    rcases entry with ⟨key, old⟩
    rw [List.map_cons, List.mem_cons, not_or] at h
    have hkey : ¬ key = name := fun heq => h.1 heq.symm
    rw [put, if_neg hkey, ih h.2, List.cons_append]

theorem entries_foldl_insert {pairs : List (String × α)} {t : Table α}
    (h : ((t.entries ++ pairs).map Prod.fst).Nodup) :
    (pairs.foldl (fun t pair => t.insert pair.1 pair.2) t).entries = t.entries ++ pairs := by
  -- no pair replaces another, so that the entries grow by one pair after the other
  induction pairs generalizing t with
  | nil => exact (List.append_nil _).symm
  | cons pair rest ih =>
    have hnew : pair.1 ∉ t.entries.map Prod.fst := by
      rw [List.map_append, List.map_cons, List.nodup_append] at h
      exact fun hmem => h.2.2 _ hmem _ List.mem_cons_self rfl
    have hinsert : (t.insert pair.1 pair.2).entries = t.entries ++ [pair] := put_of_not_mem hnew
    have hrest : (t.insert pair.1 pair.2).entries ++ rest = t.entries ++ pair :: rest := by
      rw [hinsert, List.append_assoc, List.singleton_append]
    rw [List.foldl_cons, ih (hrest ▸ h), hrest]

/-- Pairs with distinct names are kept as they are. -/
theorem entries_ofList {pairs : List (String × α)} (h : (pairs.map Prod.fst).Nodup) :
    (ofList pairs).entries = pairs :=
  entries_foldl_insert h

end Table

namespace Store

theorem mem_all {store : Store} {rule : Rule} :
    rule ∈ store.all ↔ ∃ name, store.get? name = some rule := by
  rw [all, List.mem_mergeSort, Table.values, List.mem_map]
  constructor
  · rintro ⟨⟨name, rule'⟩, hentry, rfl⟩
    exact ⟨name, Table.mem_entries_iff.1 hentry⟩
  · rintro ⟨name, hget⟩
    exact ⟨(name, rule), Table.mem_entries_iff.2 hget, rfl⟩

theorem get?_ofRules {rules : List Rule} {name : String} {rule : Rule}
    (h : (ofRules rules).get? name = some rule) : rule ∈ rules ∧ rule.name = name := by
  have hmem := Table.mem_of_get?_ofList h
  rw [List.mem_map] at hmem
  rcases hmem with ⟨rule', hrule', heq⟩
  cases heq
  exact ⟨hrule', rfl⟩

/-- The store has some rules and no others, each under its own name. -/
structure Holds (store : Store) (rules : List Rule) : Prop where
  size_eq : store.size = rules.length
  get?_iff : ∀ name rule, store.get? name = some rule ↔ rule ∈ rules ∧ rule.name = name

/-- No rule replaces another one when their names are distinct. -/
theorem holds_ofRules {rules : List Rule} (h : (rules.map Rule.name).Nodup) :
    (ofRules rules).Holds rules := by
  have hkeys : ((rules.map fun rule => (rule.name, rule)).map Prod.fst).Nodup := by
    rw [List.map_map]
    exact h
  have hentries : (ofRules rules).entries = rules.map fun rule => (rule.name, rule) :=
    Table.entries_ofList hkeys
  constructor
  · rw [Table.size, hentries, List.length_map]
  · intro name rule
    rw [← Table.mem_entries_iff, hentries, List.mem_map]
    constructor
    · rintro ⟨other, hother, heq⟩
      cases heq
      exact ⟨hother, rfl⟩
    · rintro ⟨hrule, rfl⟩
      exact ⟨rule, hrule, rfl⟩

/-- Leaving out names from the start is leaving them out of a list without repetitions. -/
theorem distinct_eq (seen names : List String) :
    distinct seen names = (names.filter fun name => decide (name ∉ seen)).eraseDups := by
  induction names generalizing seen with
  | nil => rfl
  | cons name rest ih =>
    by_cases hseen : name ∈ seen
    · simpa [distinct, hseen] using ih seen
    · -- the other names that are left are those not yet seen, without this one
      have hrest : (rest.filter fun other => decide (other ∉ name :: seen)) =
          (rest.filter fun other => decide (other ∉ seen)).filter fun other => !other == name := by
        rw [List.filter_filter]
        refine List.filter_congr ?_
        intro other _
        by_cases hother : other = name
        · simp [hother]
        · simp [hother]
      have hkept : ((name :: rest).filter fun other => decide (other ∉ seen)) =
          name :: rest.filter fun other => decide (other ∉ seen) := by
        simp [hseen]
      calc
        distinct seen (name :: rest) = name :: distinct (name :: seen) rest := by
          simp [distinct, hseen]
        _ = name :: ((rest.filter fun other => decide (other ∉ seen)).filter
              fun other => !other == name).eraseDups := by rw [ih, hrest]
        _ = ((name :: rest).filter fun other => decide (other ∉ seen)).eraseDups := by
          rw [hkept, List.eraseDups_cons]

/-- A snapshot that is accepted gives the store of the rules that were listed. -/
theorem ofBytes_toBytes {store store' : Store} (h : ofBytes store.toBytes = .ok store') :
    store' = ofRules store.all := by
  unfold ofBytes toBytes at h
  cases hdecode : Snapshot.decode (Snapshot.encode store.all) with
  | error e =>
    rw [hdecode] at h
    cases h
  | ok rules =>
    have hrules := Snapshot.eq_of_decode_encode hdecode
    rw [hdecode] at h
    cases h
    rw [hrules]

end Store
end Eligibility
