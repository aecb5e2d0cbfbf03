import Mathlib.Data.List.Nodup
import Eligibility.Proofs.Catalog
import Eligibility.Proofs.Store
import Eligibility.Session

/-!
# Equivalence — stores that no operation tells apart

A store keeps its entries in the order in which the names came in.  Two stores that answer every
name alike may keep them in different orders, yet every view sorts what it lists or asks for names.
The order of a listing is settled by age and name, and each rule stands under its own name, so that
no two rules of a store tie.

* `Table.perm_entries` — tables that answer alike have the same entries, up to their order;
* `mergeSort_eq_of_perm`, `Rule.name_eq_of_precedes` — why a listing does not show that order;
* `Store.IsNamed`, `Store.Equivalent` — stores of the same rules, each under its own name;
* `Store.IsNamed.holds`, `Store.IsNamed.mergeSort_eq_all` — the rules that such a store has, and their
  listing;
* `Store.Equivalent.all_eq`, `Store.Equivalent.names_eq`, … — their views are equal;
* `Catalog.Respects` — an operation that gives the same answer to equivalent stores and leaves
  equivalent stores, with one lemma for each operation;
* `Session.respects_perform`, `Session.seen_eq_of_equivalent` — one step, and a run.
-/

namespace Eligibility

namespace Table

variable {α : Type} {s t : Table α}

theorem nodup_entries (t : Table α) : t.entries.Nodup :=
  t.nodup_keys.of_map Prod.fst

theorem perm_entries (h : s.get? = t.get?) : s.entries.Perm t.entries := by
  rw [List.perm_ext_iff_of_nodup s.nodup_entries t.nodup_entries]
  rintro ⟨name, value⟩
  rw [mem_entries_iff, mem_entries_iff, h]

theorem contains_eq (h : s.get? = t.get?) : s.contains = t.contains := by
  funext name
  rw [contains, contains, h]

end Table

/-! ## The order of a listing -/

/-- Sorting leaves no trace of the order before, where no two elements tie. -/
theorem mergeSort_eq_of_perm {α : Type} {le : α → α → Bool} {l l' : List α}
    (htrans : ∀ a b c, le a b = true → le b c = true → le a c = true)
    (htotal : ∀ a b, (le a b || le b a) = true)
    (hanti : ∀ a ∈ l, ∀ b ∈ l, le a b = true → le b a = true → a = b) (h : l.Perm l') :
    l.mergeSort le = l'.mergeSort le := by
  have hsorted : (l.mergeSort le).Perm (l'.mergeSort le) :=
    (List.mergeSort_perm l le).trans (h.trans (List.mergeSort_perm l' le).symm)
  refine hsorted.eq_of_pairwise ?_ (List.pairwise_mergeSort htrans htotal l)
    (List.pairwise_mergeSort htrans htotal l')
  intro a b ha hb
  exact hanti a (List.mem_mergeSort.1 ha) b (h.mem_iff.2 (List.mem_mergeSort.1 hb))

namespace Rule

theorem precedes_iff {a b : Rule} :
    a.precedes b = true ↔
      a.createdAt.rank < b.createdAt.rank ∨
        a.createdAt.rank = b.createdAt.rank ∧ a.name ≤ b.name := by
  simp [precedes]

theorem precedes_trans (a b c : Rule) (hab : a.precedes b = true) (hbc : b.precedes c = true) :
    a.precedes c = true := by
  rw [precedes_iff] at *
  rcases hab with hab | ⟨hab, hname⟩
  · left
    omega
  · rcases hbc with hbc | ⟨hbc, hname'⟩
    · left
      omega
    · exact .inr ⟨hab.trans hbc, String.le_trans hname hname'⟩

theorem precedes_total (a b : Rule) : (a.precedes b || b.precedes a) = true := by
  rw [Bool.or_eq_true, precedes_iff, precedes_iff]
  rcases Int.lt_trichotomy a.createdAt.rank b.createdAt.rank with hlt | heq | hgt
  · exact .inl (.inl hlt)
  · -- rules of one age stand in the order of their names
    rcases String.le_total a.name b.name with hname | hname
    · exact .inl (.inr ⟨heq, hname⟩)
    · exact .inr (.inr ⟨heq.symm, hname⟩)
  · exact .inr (.inl hgt)

/-- Two rules that tie have one name. -/
theorem name_eq_of_precedes {a b : Rule} (hab : a.precedes b = true) (hba : b.precedes a = true) :
    a.name = b.name := by
  rw [precedes_iff] at hab hba
  rcases hab with hab | ⟨_, hname⟩
  · omega
  · rcases hba with hba | ⟨_, hname'⟩
    · omega
    · exact String.le_antisymm hname hname'

end Rule

namespace Store

/-- Every rule of the store stands under its own name. -/
def IsNamed (store : Store) : Prop :=
  ∀ name rule, store.get? name = some rule → rule.name = name

theorem IsNamed.holds {store : Store} (h : store.IsNamed) : store.Holds store.values := by
  refine ⟨List.length_map Prod.snd |>.symm, fun name rule => ?_⟩
  constructor
  · intro hget
    have hentry : (name, rule) ∈ store.entries := Table.mem_entries_iff.2 hget
    exact ⟨List.mem_map.2 ⟨_, hentry, rfl⟩, h name rule hget⟩
  · rintro ⟨hrule, rfl⟩
    rcases List.mem_map.1 hrule with ⟨⟨name, _⟩, hentry, rfl⟩
    have hget := Table.mem_entries_iff.1 hentry
    rw [h _ _ hget]
    exact hget

/-- Rules of a store with one name are one rule, as both are what the name answers. -/
theorem IsNamed.eq_of_name_eq {store : Store} (h : store.IsNamed) {rule rule' : Rule}
    (hrule : rule ∈ store.values) (hrule' : rule' ∈ store.values) (hname : rule.name = rule'.name) :
    rule = rule' := by
  have hget := (h.holds.get?_iff rule'.name rule).2 ⟨hrule, hname⟩
  have hget' := (h.holds.get?_iff rule'.name rule').2 ⟨hrule', rfl⟩
  rw [hget, Option.some.injEq] at hget'
  exact hget'

/-- The listing is what sorting gives, in whatever order the rules come. -/
theorem IsNamed.mergeSort_eq_all {store : Store} (h : store.IsNamed) {listed : List Rule}
    (hperm : listed.Perm store.values) : listed.mergeSort Rule.precedes = store.all := by
  refine (mergeSort_eq_of_perm Rule.precedes_trans Rule.precedes_total ?_ hperm.symm).symm
  intro rule hrule rule' hrule' hle hge
  exact h.eq_of_name_eq hrule hrule' (Rule.name_eq_of_precedes hle hge)

/-- The stores hold the same rules, each under its own name. -/
structure Equivalent (a b : Store) : Prop where
  get?_eq : a.get? = b.get?
  isNamed : a.IsNamed

namespace Equivalent

variable {a b : Store}

theorem of_isNamed (h : a.IsNamed) : a.Equivalent a :=
  ⟨rfl, h⟩

/-! ## Views -/

theorem size_eq (h : a.Equivalent b) : a.size = b.size :=
  (Table.perm_entries h.get?_eq).length_eq

theorem isEmpty_eq (h : a.Equivalent b) : a.isEmpty = b.isEmpty :=
  (Table.perm_entries h.get?_eq).isEmpty_eq

theorem findMany_eq (h : a.Equivalent b) : a.findMany = b.findMany := by
  funext names
  rw [findMany, findMany, h.get?_eq]

theorem names_eq (h : a.Equivalent b) : a.names = b.names := by
  have hkeys : a.keys.Perm b.keys := (Table.perm_entries h.get?_eq).map Prod.fst
  refine mergeSort_eq_of_perm ?_ ?_ ?_ hkeys
  · intro a b c
    simpa using String.le_trans
  · intro a b
    simpa using String.le_total a b
  · intro a _ b _
    simpa using String.le_antisymm

theorem all_eq (h : a.Equivalent b) : a.all = b.all := by
  have hvalues : b.values.Perm a.values := ((Table.perm_entries h.get?_eq).map Prod.snd).symm
  exact (h.isNamed.mergeSort_eq_all hvalues).symm

theorem toBytes_eq (h : a.Equivalent b) : a.toBytes = b.toBytes := by
  rw [toBytes, toBytes, h.all_eq]

theorem missing_eq (h : a.Equivalent b) : Catalog.missing a = Catalog.missing b := by
  funext names
  rw [Catalog.missing, Catalog.missing, Table.contains_eq h.get?_eq]

/-! ## Changes -/

theorem put (h : a.Equivalent b) (rule : Rule) :
    Equivalent (Table.insert a rule.name rule) (Table.insert b rule.name rule) := by
  constructor
  · funext other
    rw [Table.get?_insert, Table.get?_insert, h.get?_eq]
  · intro other rule' hget
    by_cases hother : other = rule.name
    · subst hother
      rw [Table.get?_insert_self, Option.some.injEq] at hget
      rw [hget]
    · rw [Table.get?_insert_of_ne a rule hother] at hget
      exact h.isNamed other rule' hget

theorem erase (h : a.Equivalent b) (name : String) :
    Equivalent (Table.erase a name) (Table.erase b name) := by
  constructor
  · funext other
    rw [Table.get?_erase, Table.get?_erase, h.get?_eq]
  · intro other rule hget
    rw [Table.get?_erase] at hget
    split at hget
    · cases hget
    · exact h.isNamed other rule hget

end Equivalent

theorem isNamed_empty : IsNamed .empty := by
  intro name rule hget
  rw [Table.get?_empty] at hget
  cases hget

theorem isNamed_ofRules (rules : List Rule) : (ofRules rules).IsNamed :=
  fun _ _ hget => (get?_ofRules hget).2

end Store

namespace Catalog

open Store (Equivalent)

variable {α β : Type} {ctx : Context}

/-- Equivalent stores get the same answer from the operation, and are equivalent behind it. -/
def Respects (action : Action α) : Prop :=
  ∀ ⦃a b : Store⦄, a.Equivalent b →
    (action.run.run a).1 = (action.run.run b).1 ∧
      Equivalent (action.run.run a).2 (action.run.run b).2

theorem Respects.map {action : Action α} (h : Respects action) (f : α → β) :
    Respects (do return f (← action)) := by
  intro a b hab
  rcases h hab with ⟨hanswer, hstores⟩
  rw [run_map, run_map]
  exact ⟨congrArg (Except.map f) hanswer, hstores⟩

theorem respects_answer (result : Except Error α) : Respects (answer result) := by
  intro a b h
  rw [run_answer, run_answer]
  exact ⟨rfl, h⟩

/-- A question for a view in which equivalent stores agree. -/
theorem respects_view {view : Store → α} (hview : ∀ ⦃a b⦄, a.Equivalent b → view a = view b) :
    Respects (do return view (← get)) :=
  fun _ _ h => ⟨congrArg Except.ok (hview h), h⟩

/-! ## Changes of the store -/

theorem respects_insert (rule : Rule) : Respects (insert rule) := by
  intro a b h
  rw [run_insert, run_insert]
  unfold Store.insert
  rw [Table.contains_eq h.get?_eq]
  cases b.contains rule.name with
  | true => exact ⟨rfl, h⟩
  | false => exact ⟨rfl, h.put rule⟩

theorem respects_update (name : String) (tree : Tree) : Respects (update name tree) := by
  intro a b h
  rw [run_update, run_update]
  unfold Store.update
  rw [h.get?_eq]
  cases hget : b.get? name with
  | none => exact ⟨rfl, h⟩
  | some rule =>
    -- the rule goes back under its own name
    have hname : rule.name = name := h.isNamed name rule (by rw [h.get?_eq, hget])
    subst hname
    exact ⟨rfl, h.put { rule with tree := tree }⟩

theorem respects_delete (name : String) : Respects (delete name) := by
  intro a b h
  rw [run_delete, run_delete]
  unfold Store.delete
  rw [Table.contains_eq h.get?_eq]
  cases b.contains name with
  | true => exact ⟨rfl, h.erase name⟩
  | false => exact ⟨rfl, h⟩

theorem respects_create (now : Instant) (name text : String) :
    Respects (create ctx now name text) := by
  intro a b h
  rw [run_create, run_create]
  cases ctx.compile text with
  | error e => exact ⟨rfl, h⟩
  | ok tree => exact respects_insert _ h

theorem respects_modify (name text : String) : Respects (modify ctx name text) := by
  intro a b h
  rw [run_modify, run_modify]
  cases ctx.compile text with
  | error e => exact ⟨rfl, h⟩
  | ok tree => exact respects_update name tree h

theorem respects_combine (now : Instant) (names : List String) :
    Respects (combine now names) := by
  intro a b h
  rw [run_combine, run_combine, h.missing_eq, h.get?_eq]
  cases (missing b names).isEmpty with
  | false => exact ⟨rfl, h⟩
  | true =>
    simp only [if_true]
    cases Context.combineRules (names.filterMap b.get?) with
    | error e => exact ⟨rfl, h⟩
    | ok combination => exact respects_insert _ h

/-! ## Questions to the store -/

theorem respects_find (name : String) : Respects (find name) := by
  intro a b h
  rw [run_find, run_find, h.get?_eq]
  cases b.get? name with
  | none => exact ⟨rfl, h⟩
  | some rule => exact ⟨rfl, h⟩

theorem respects_evaluate (name : String) (record : Record) :
    Respects (evaluate ctx name record) := by
  intro a b h
  rw [run_evaluate, run_evaluate, h.get?_eq]
  cases b.get? name with
  | none => exact ⟨rfl, h⟩
  | some rule => exact ⟨rfl, h⟩

theorem respects_reportAll (record : Record) : Respects (reportAll ctx record) :=
  respects_view fun _ _ h => congrArg (ctx.reportRules record) h.all_eq

/-- Equivalent stores have the same snapshot, so that it gives back one store. -/
theorem respects_reload : Respects reload := by
  intro a b h
  rw [run_reload, run_reload, h.toBytes_eq]
  cases hbytes : Store.ofBytes b.toBytes with
  | error e => exact ⟨rfl, h⟩
  | ok store =>
    rw [Store.ofBytes_toBytes hbytes]
    exact ⟨rfl, .of_isNamed (Store.isNamed_ofRules b.all)⟩

end Catalog

namespace Session

open Catalog

variable {ctx : Context} {a b : Store}

theorem respects_perform (ctx : Context) (now : Instant) (step : Step) :
    Respects (perform ctx now step) := by
  intro a b h
  cases step with
  | create name text => exact (respects_create now name text).map _ h
  | modify name text => exact (respects_modify name text).map _ h
  | combine names => exact (respects_combine now names).map _ h
  | evaluate name record => exact (respects_evaluate name record).map _ h
  | reportAll record => exact (respects_reportAll record).map _ h
  | get name => exact (respects_find name).map _ h
  | delete name => exact (respects_delete name).map _ h
  | insert rule => exact (respects_insert rule).map _ h
  | update name tree => exact (respects_update name tree).map _ h
  | reload => exact respects_reload.map _ h
  | combineRules | validate => exact respects_answer _ h
  | reportRules | describe | loadNothing => exact ⟨rfl, h⟩
  | list => exact respects_view (fun _ _ h => congrArg Answer.names h.names_eq) h
  | find name =>
    exact respects_view (fun _ _ h => congrArg Answer.found (congrFun h.get?_eq name)) h
  | findMany names =>
    exact respects_view (fun _ _ h => congrArg Answer.rules (congrFun h.findMany_eq names)) h
  | findAll => exact respects_view (fun _ _ h => congrArg Answer.rules h.all_eq) h
  | size => exact respects_view (fun _ _ h => congrArg₂ Answer.size h.size_eq h.isEmpty_eq) h

/-- What can be seen of a run: every answer, and the snapshot of the store behind it. -/
def seen (ctx : Context) (store : Store) (steps : List (Instant × Step)) :
    List (Except Error Answer × List UInt8) :=
  (run ctx store steps).map fun result => (result.1, result.2.toBytes)

theorem seen_eq_of_equivalent (h : a.Equivalent b) (steps : List (Instant × Step)) :
    seen ctx a steps = seen ctx b steps := by
  induction steps generalizing a b with
  | nil => rfl
  | cons entry rest ih =>
    rcases entry with ⟨now, step⟩
    rcases respects_perform ctx now step h with ⟨hanswer, hstores⟩
    have hrest := ih hstores
    simp only [seen] at hrest
    simp only [seen, run, List.map_cons, hanswer, hstores.toBytes_eq, hrest]

end Session
end Eligibility
