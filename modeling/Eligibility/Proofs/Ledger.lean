import Mathlib.Data.Finmap
import Eligibility.Proofs.Restoration

/-!
# Ledger — a store is a finite map

A ledger is a finite map from names to rules without any order of its own.  Its changes say at once
which name stands in their way.  A store goes through the same changes with the same answers, while
its entries have an order that no view shows, and a snapshot gives them another one.  What the store
lists is what the ledger holds, in the order of age and name.

* `Table.toFinmap` — the finite map of a table, with one lemma for each operation;
* `Ledger`, `Ledger.Change`, `Ledger.apply` — the map and what changes it;
* `Ledger.states`, `Ledger.answers` — a run of changes on the map;
* `Store.Presents`, `Store.presents_toFinmap` — the views of a store, as views of the map;
* `Store.withinLimit_all_iff_toFinmap`, `Store.payloadLength_toFinmap` — when a snapshot can be
  read, seen from the map;
* `Session.apply_toFinmap` — one change on both;
* `Session.presents_states` — a run of changes on both.
-/

namespace Eligibility

/-! ## The finite map of a table -/

namespace Table

variable {α : Type}

/-- The entries of a table as a finite map, their order forgotten. -/
def toFinmap (t : Table α) : Finmap fun _ : String => α where
  entries := t.entries.map fun entry => (⟨entry.1, entry.2⟩ : Sigma fun _ : String => α)
  nodupKeys := by
    simpa [List.NodupKeys, List.keys, Function.comp_def] using t.nodup_keys

@[simp] theorem lookup_toFinmap (t : Table α) (name : String) :
    t.toFinmap.lookup name = t.get? name := by
  cases hget : t.get? name with
  | some value =>
    refine Finmap.mem_lookup_iff.2 ?_
    simpa [toFinmap] using mem_entries_iff.2 hget
  | none =>
    refine Option.eq_none_iff_forall_ne_some.2 ?_
    intro value hvalue
    have hmem : (⟨name, value⟩ : Sigma fun _ : String => α) ∈ t.toFinmap.entries :=
      Finmap.mem_lookup_iff.1 hvalue
    have hentry : (name, value) ∈ t.entries := by simpa [toFinmap] using hmem
    rw [mem_entries_iff.1 hentry] at hget
    cases hget

theorem mem_toFinmap {t : Table α} {name : String} :
    name ∈ t.toFinmap ↔ t.contains name = true := by
  rw [← Finmap.lookup_isSome, lookup_toFinmap]
  rfl

theorem toFinmap_congr {s t : Table α} (h : s.get? = t.get?) : s.toFinmap = t.toFinmap := by
  apply Finmap.ext_lookup
  simp [h]

@[simp] theorem toFinmap_empty : (empty : Table α).toFinmap = ∅ := by
  apply Finmap.ext_lookup
  simp

theorem toFinmap_insert (t : Table α) (name : String) (value : α) :
    (t.insert name value).toFinmap = t.toFinmap.insert name value := by
  apply Finmap.ext_lookup
  intro other
  by_cases hother : other = name
  · subst hother
    simp
  · simp [get?_insert, Finmap.lookup_insert_of_ne, hother]

theorem toFinmap_erase (t : Table α) (name : String) :
    (t.erase name).toFinmap = t.toFinmap.erase name := by
  apply Finmap.ext_lookup
  intro other
  by_cases hother : other = name
  · subst hother
    simp [get?_erase]
  · simp [get?_erase, Finmap.lookup_erase_ne, hother]

theorem entries_toFinmap (t : Table α) :
    t.toFinmap.entries.map Sigma.snd = (t.values : Multiset α) := by
  simp [toFinmap, values, Function.comp_def]

theorem keys_toFinmap (t : Table α) : t.toFinmap.keys.val = (t.keys : Multiset String) := by
  simp [toFinmap, Finmap.keys, keys, Multiset.keys, Function.comp_def]

theorem card_keys_toFinmap (t : Table α) : t.toFinmap.keys.card = t.size := by
  rw [Finset.card, keys_toFinmap]
  simp [keys, size]

end Table

/-! ## Changes of a finite map -/

/-- A finite map from names to rules. -/
abbrev Ledger :=
  Finmap fun _ : String => Rule

namespace Ledger

open Session (Answer)
open Snapshot.Payload (number rule)

/-- What changes the rules of a store. -/
inductive Change where
  | insert (rule : Rule)
  | update (name : String) (tree : Tree)
  | delete (name : String)
  /-- Writes a snapshot and goes on with what it gives back. -/
  | reload
deriving DecidableEq

/-- The step of a session that makes a change. -/
def Change.step : Change → Session.Step
  | insert rule => .insert rule
  | update name tree => .update name tree
  | delete name => .delete name
  | reload => .reload

/-- The steps of a session that make changes at their times. -/
def steps (changes : List (Instant × Change)) : List (Instant × Session.Step) :=
  changes.map fun entry => (entry.1, entry.2.step)

/-- Does every tree keep the limit of depth? -/
def IsWithinLimit (ledger : Ledger) : Prop :=
  ∀ entry ∈ ledger.entries, entry.2.tree.depth ≤ Tree.maxDepth

instance (ledger : Ledger) : Decidable ledger.IsWithinLimit :=
  inferInstanceAs (Decidable (∀ entry ∈ ledger.entries, entry.2.tree.depth ≤ Tree.maxDepth))

/-- The length of the payload of a snapshot, which does not depend on an order of the rules. -/
def payloadLength (ledger : Ledger) : Nat :=
  2 * (number ledger.keys.card).length +
    (ledger.entries.map fun entry => (rule entry.2).length).sum

/-- The answer to a change, and the map behind it.  A rule goes under its own name, which has to be
new; a name that is updated or deleted has to be known; and a snapshot gives the same map back, or
is refused for the depth of a tree. -/
def apply (ledger : Ledger) : Change → Except Error Answer × Ledger
  | .insert rule =>
    if rule.name ∈ ledger then (.error (.store (.duplicateName rule.name)), ledger)
    else (.ok (.rule rule), ledger.insert rule.name rule)
  | .update name tree =>
    match ledger.lookup name with
    | none => (.error (.store (.notFound name)), ledger)
    | some rule =>
      let updated := { rule with tree := tree }
      (.ok (.rule updated), ledger.insert name updated)
  | .delete name =>
    if name ∈ ledger then (.ok .deleted, ledger.erase name)
    else (.error (.store (.notFound name)), ledger)
  | .reload =>
    (if ledger.IsWithinLimit then .ok (.count ledger.keys.card)
      else .error (.snapshot (.defect .tooDeep)), ledger)

/-- The maps that a run of changes goes through, the first one included. -/
def states (ledger : Ledger) : List Change → List Ledger
  | [] => [ledger]
  | change :: rest => ledger :: states (ledger.apply change).2 rest

/-- The answers to a run of changes. -/
def answers (ledger : Ledger) : List Change → List (Except Error Answer)
  | [] => []
  | change :: rest => (ledger.apply change).1 :: answers (ledger.apply change).2 rest

end Ledger

/-! ## Views -/

namespace Store

open Snapshot.Payload (utf8 WithinLimit)

variable {store : Store}

/-- The store shows the rules of the map in each of its views. -/
structure Presents (store : Store) (ledger : Ledger) : Prop where
  get?_eq : ∀ name, store.get? name = ledger.lookup name
  /-- Every rule stands under its own name. -/
  name_eq : ∀ name rule, ledger.lookup name = some rule → rule.name = name
  /-- The listing has each rule of the map exactly once, -/
  all_rules : (store.all : Multiset Rule) = ledger.entries.map Sigma.snd
  /-- from one to the next later in time, or at the same time with a name of greater bytes. -/
  all_before : store.all.Pairwise Rule.Before
  /-- The listing of names has each name of the map exactly once, -/
  names_keys : (store.names : Multiset String) = ledger.keys.val
  /-- from one to the next of greater bytes; -/
  names_lt : store.names.Pairwise fun a b => utf8 a < utf8 b
  /-- it has the names of the listed rules. -/
  names_perm : store.names.Perm (store.all.map Rule.name)
  size_eq : store.size = ledger.keys.card
  isEmpty_iff : store.isEmpty = true ↔ ledger = ∅
  /-- Given names answer at their first occurrence, in their order, those without a rule not. -/
  findMany_eq : ∀ names, store.findMany names = names.eraseDups.filterMap fun name =>
    ledger.lookup name

theorem presents_toFinmap (h : store.IsNamed) : store.Presents store.toFinmap := by
  have hall : (store.all : Multiset Rule) = (store.values : Multiset Rule) :=
    Multiset.coe_eq_coe.2 (perm_values_all store)
  have hnames : (store.names : Multiset String) = (store.keys : Multiset String) :=
    Multiset.coe_eq_coe.2 (perm_keys_names store)
  have hcard : store.size = store.toFinmap.keys.card := (Table.card_keys_toFinmap store).symm
  have hperm : store.names.Perm (store.all.map Rule.name) :=
    (perm_keys_names store).trans (perm_keys_all h).symm
  refine ⟨?_, ?_, ?_, pairwise_all h, ?_, pairwise_names store, hperm, hcard, ?_, ?_⟩
  · simp
  · intro name rule hlookup
    exact h name rule (by simpa using hlookup)
  · rw [hall, Table.entries_toFinmap]
  · rw [hnames, Table.keys_toFinmap]
  · constructor
    · intro hempty
      have hentries : store.entries = [] := List.isEmpty_iff.1 hempty
      refine Finmap.ext_lookup ?_
      simp [Table.get?, Table.find?, hentries]
    · intro hempty
      have hsize : store.size = 0 := by rw [hcard, hempty, Finmap.keys_empty, Finset.card_empty]
      exact List.isEmpty_iff_length_eq_zero.2 hsize
  · intro names
    simp [findMany_eq]

/-- A map settles the listing of its rules. -/
theorem Presents.all_eq {ledger : Ledger} (h : store.Presents ledger) {rules : List Rule}
    (hrules : (rules : Multiset Rule) = ledger.entries.map Sigma.snd)
    (hbefore : rules.Pairwise Rule.Before) : store.all = rules := by
  have hperm : store.all.Perm rules := Multiset.coe_eq_coe.1 (h.all_rules.trans hrules.symm)
  exact Rule.eq_of_perm_of_before hperm h.all_before hbefore

theorem withinLimit_all_iff_toFinmap :
    WithinLimit store.all ↔ Ledger.IsWithinLimit store.toFinmap := by
  rw [withinLimit_all_iff]
  constructor
  · rintro h ⟨name, rule⟩ hentry
    have hget : store.get? name = some rule := by
      simpa using Finmap.mem_lookup_iff.2 hentry
    exact h name rule hget
  · intro h name rule hget
    have hlookup : rule ∈ store.toFinmap.lookup name := by simpa using hget
    exact h ⟨name, rule⟩ (Finmap.mem_lookup_iff.1 hlookup)

theorem payloadLength_toFinmap (store : Store) :
    (Snapshot.Payload.ofRules store.all).length = Ledger.payloadLength store.toFinmap := by
  have hcard : store.toFinmap.keys.card = store.values.length := by
    simp [Table.card_keys_toFinmap, Table.size, Table.values]
  have hsum : (store.toFinmap.entries.map fun entry => (Snapshot.Payload.rule entry.2).length) =
      (store.values.map fun rule => (Snapshot.Payload.rule rule).length : Multiset Nat) := by
    rw [← Multiset.map_coe, ← Table.entries_toFinmap, Multiset.map_map]
    rfl
  rw [length_payload_all, Ledger.payloadLength, hsum, hcard]
  simp only [Snapshot.Payload.ofRules, List.length_append, List.length_flatMap, Multiset.sum_coe]
  omega

end Store

/-! ## Runs -/

namespace Session

open Ledger (Change)

variable {ctx : Context} {store : Store}

/-- A change has one answer on a store and on its map, and leaves a store of the map behind it. -/
theorem apply_toFinmap (h : store.IsNamed) (ctx : Context) (now : Instant) {change : Change}
    (hsize : change = .reload → Ledger.payloadLength store.toFinmap < 2 ^ 32) :
    ((perform ctx now change.step).run.run store).1 = (Ledger.apply store.toFinmap change).1 ∧
      Table.toFinmap ((perform ctx now change.step).run.run store).2 =
        (Ledger.apply store.toFinmap change).2 := by
  cases change with
  | insert rule =>
    simp only [Change.step, perform, Catalog.run_map, Catalog.run_insert, Store.insert,
      Ledger.apply, Table.mem_toFinmap]
    cases store.contains rule.name with
    | true => exact ⟨rfl, rfl⟩
    | false => exact ⟨rfl, Table.toFinmap_insert store rule.name rule⟩
  | update name tree =>
    simp only [Change.step, perform, Catalog.run_map, Catalog.run_update, Store.update,
      Ledger.apply, Table.lookup_toFinmap]
    cases store.get? name with
    | none => exact ⟨rfl, rfl⟩
    | some rule => exact ⟨rfl, Table.toFinmap_insert store name _⟩
  | delete name =>
    simp only [Change.step, perform, Catalog.run_map, Catalog.run_delete, Store.delete,
      Ledger.apply, Table.mem_toFinmap]
    cases store.contains name with
    | true => exact ⟨rfl, Table.toFinmap_erase store name⟩
    | false => exact ⟨rfl, rfl⟩
  | reload =>
    have hlength := (Store.payloadLength_toFinmap store).trans_lt (hsize rfl)
    have hread := Store.ofBytes_toBytes_of_isNamed h hlength
    have hequivalent := Store.equivalent_ofRules h
    simp only [Change.step, perform, Catalog.run_map, Catalog.run_reload, Ledger.apply, hread,
      Store.withinLimit_all_iff_toFinmap]
    by_cases hlimit : Ledger.IsWithinLimit store.toFinmap
    · -- the store that is read back has its entries in another order
      simp only [if_pos hlimit, Table.card_keys_toFinmap, hequivalent.size_eq]
      exact ⟨rfl, (Table.toFinmap_congr hequivalent.get?_eq).symm⟩
    · simp [hlimit, Except.map]

theorem presents_states_of_isNamed (h : store.IsNamed) {changes : List (Instant × Change)}
    (hsize : ∀ pair ∈ (Ledger.states store.toFinmap (changes.map Prod.snd)).zip
      (changes.map Prod.snd), pair.2 = .reload → pair.1.payloadLength < 2 ^ 32) :
    (run ctx store (Ledger.steps changes)).map Prod.fst =
      Ledger.answers store.toFinmap (changes.map Prod.snd) ∧
    List.Forall₂ Store.Presents (stores ctx store (Ledger.steps changes))
      (Ledger.states store.toFinmap (changes.map Prod.snd)) := by
  induction changes generalizing store with
  | nil => exact ⟨rfl, .cons (Store.presents_toFinmap h) .nil⟩
  | cons entry rest ih =>
    rcases entry with ⟨now, change⟩
    -- the store behind the change has the map behind it, which the rest goes on with
    rcases apply_toFinmap h ctx now (hsize (store.toFinmap, change) List.mem_cons_self) with
      ⟨hanswer, hstore⟩
    have hnext : Store.IsNamed ((perform ctx now change.step).run.run store).2 :=
      (respects_perform ctx now change.step (.of_isNamed h)).2.isNamed
    have hrest := ih hnext
    rw [hstore] at hrest
    rcases hrest (fun pair hpair => hsize pair (List.mem_cons_of_mem _ hpair)) with
      ⟨hanswers, hstates⟩
    constructor
    · simp [Ledger.steps, run, Ledger.answers, hanswer, ← hanswers]
    · exact .cons (Store.presents_toFinmap h) hstates

/-- A run of changes from the empty store has the answers of the same run on the empty map, and
every store on the way presents the map that stands there.  A reload goes on with the store that is
read back, or with the one before it where a tree is too deep; it needs a payload within the size
that the header can state. -/
theorem presents_states (ctx : Context) {changes : List (Instant × Change)}
    (hsize : ∀ pair ∈ (Ledger.states ∅ (changes.map Prod.snd)).zip (changes.map Prod.snd),
      pair.2 = .reload → pair.1.payloadLength < 2 ^ 32) :
    (run ctx .empty (Ledger.steps changes)).map Prod.fst =
      Ledger.answers ∅ (changes.map Prod.snd) ∧
    List.Forall₂ Store.Presents (stores ctx .empty (Ledger.steps changes))
      (Ledger.states ∅ (changes.map Prod.snd)) := by
  rw [← Table.toFinmap_empty] at hsize ⊢
  exact presents_states_of_isNamed Store.isNamed_empty hsize

/-- Rules of two ages, two of them of one age, a name taken twice, a snapshot that is read and one
that is not, an unknown name, and a rule that goes.  Behind the first snapshot the rules are listed
neither as they came in nor in the order of their names. -/
theorem presents_states_reload :
    let noon : Instant := ⟨⟨2024, 2, 29, 12, 0, 0, 500⟩, by decide⟩
    let midnight : Instant := ⟨⟨2024, 3, 1, 0, 0, 0, 0⟩, by decide⟩
    let ctx : Context := ⟨.empty, .empty⟩
    let deep : Tree := (List.range 65).foldl (fun tree _ => .branch .or tree (.operand ""))
      (.operand "a b")
    let changes : List (Instant × Change) :=
      [(noon, .insert ⟨"é", .operand "x", noon⟩), (noon, .insert ⟨"a", .operand "w", midnight⟩),
        (noon, .insert ⟨"b", .operand "y", noon⟩), (noon, .insert ⟨"é", .operand "z", noon⟩),
        (noon, .reload), (noon, .update "b" deep), (noon, .reload), (noon, .delete "c"),
        (noon, .delete "b")]
    ((run ctx .empty (Ledger.steps changes)).map Prod.fst).filterMap
        (fun answer => match answer with | .ok _ => none | .error e => some e) =
      [.store (.duplicateName "é"), .snapshot (.defect .tooDeep), .store (.notFound "c")] ∧
    (stores ctx .empty (Ledger.steps changes)).map
        (fun store => (store.findMany ["é", "b", "é"]).map Rule.tree) =
      [[], [.operand "x"], [.operand "x"], [.operand "x", .operand "y"],
        [.operand "x", .operand "y"], [.operand "x", .operand "y"], [.operand "x", deep],
        [.operand "x", deep], [.operand "x", deep], [.operand "x"]] ∧
    (stores ctx .empty (Ledger.steps changes))[5]?.map Store.all =
      some [⟨"b", .operand "y", noon⟩, ⟨"é", .operand "x", noon⟩,
        ⟨"a", .operand "w", midnight⟩] := by
  intro noon midnight ctx deep changes
  have hsize : ∀ pair ∈ (Ledger.states ∅ (changes.map Prod.snd)).zip (changes.map Prod.snd),
      pair.2 = .reload → pair.1.payloadLength < 2 ^ 32 := by decide +kernel
  rcases presents_states ctx hsize with ⟨hanswers, hstates⟩
  have hviews : (stores ctx .empty (Ledger.steps changes)).map
      (fun store => (store.findMany ["é", "b", "é"]).map Rule.tree) =
      (Ledger.states ∅ (changes.map Prod.snd)).map fun ledger =>
        (["é", "b", "é"].eraseDups.filterMap fun name => ledger.lookup name).map Rule.tree := by
    rw [← List.forall₂_eq_eq_eq, List.forall₂_map_left_iff, List.forall₂_map_right_iff]
    refine hstates.imp ?_
    intro store ledger hpresents
    rw [hpresents.findMany_eq]
  have hindex : 5 < (stores ctx .empty (Ledger.steps changes)).length := by
    rw [hstates.length_eq]
    decide
  have hpresents := hstates.get hindex (by decide)
  rw [hanswers, hviews, List.getElem?_eq_getElem hindex]
  refine ⟨?_, ?_, congrArg some (hpresents.all_eq ?_ ?_)⟩
  · decide +kernel
  · decide +kernel
  · decide +kernel
  · decide +kernel

end Session
end Eligibility
