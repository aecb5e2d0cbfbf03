import Mathlib.Data.List.Induction
import Eligibility.Proofs.Combining
import Eligibility.Proofs.Naming
import Eligibility.Proofs.Restoration

/-!
# Provenance — where the rules of a store come from

A name is in the store because a step has put it there and no later step has taken it out.  Where
rules are created under plain names only, a name with the label of a combination was put there by a
combination.  A combination that is refused as a duplicate therefore meets another combination of
the same name, which goes back to the same parts, but need not have been made of the same rules.

* `Catalog.combine_cases` — a combination as an insertion under a derived name;
* `Session.contains_perform` — the names behind one step;
* `Session.final` — the store behind a run;
* `Session.Combined`, `Session.HasOrigin` — the combination that a stored name comes from;
* `Session.origin_of_contains` — the names behind a run;
* `Session.combined_of_duplicateName` — the combination that stands in the way of another one;
* `Session.combined_of_duplicateName_regrouped` — which may be one of other rules.
-/

namespace Eligibility

theorem Store.Gains.contains {store store' : Store} {name other : String} {rule : Rule}
    (h : store.Gains name rule store') (hother : store'.contains other = true) :
    other = name ∨ store.contains other = true := by
  rw [Table.contains, h other] at hother
  split at hother
  · next heq => exact .inl heq
  · exact .inr hother

namespace Catalog

open Combination (nameOf)

variable {store : Store} {names : List String}

/-! ## Names in a combination -/

/-- An insertion fails only for a name that is stored. -/
theorem insert_eq_error_iff {given : Rule} {e : Error} :
    ((insert given).run.run store).1 = .error e ↔
      store.contains given.name = true ∧ e = .store (.duplicateName given.name) := by
  rw [run_insert]
  unfold Store.insert
  cases store.contains given.name with
  | true => simp [eq_comm]
  | false => simp

/-- A combination fails before it has a name, or it is inserted under the name made of the given
ones, all of which are stored. -/
theorem combine_cases (hnamed : store.IsNamed) (now : Instant) (names : List String) :
    (∃ e, (combine now names).run.run store = (.error e, store) ∧
      ∀ name, e ≠ .store (.duplicateName name)) ∨
    (names ≠ [] ∧ (∀ name ∈ names, store.contains name = true) ∧
      ∃ tree, (combine now names).run.run store =
        (insert ⟨nameOf names, tree, now⟩).run.run store) := by
  by_cases hmissing : missing store names = []
  · have hstored := missing_eq_nil_iff.1 hmissing
    rcases exists_rules_of_stored hstored with ⟨rules, hrules⟩
    cases rules with
    | nil =>
      rw [List.map_eq_nil_iff.1 hrules, run_combine_nil]
      exact .inl ⟨_, rfl, fun name heq => by cases heq⟩
    | cons first rest =>
      have hne : names ≠ [] := by
        rintro rfl
        cases hrules
      rw [run_combine_of_rules hnamed hrules]
      split
      · exact .inr ⟨hne, hstored, _, rfl⟩
      · exact .inl ⟨_, rfl, fun name heq => by cases heq⟩
  · rw [run_combine_of_missing hmissing]
    exact .inl ⟨_, rfl, fun name heq => by cases heq⟩

/-! ## Names behind an operation -/

theorem exists_ok_of_map {α β : Type} {action : Action α} {f : α → β} {b : β} {store' : Store}
    (h : (do return f (← action) : Action β).run.run store = (.ok b, store')) :
    ∃ a, action.run.run store = (.ok a, store') := by
  rw [run_map] at h
  rcases hresult : action.run.run store with ⟨e | a, middle⟩
  · rw [hresult] at h
    cases h
  · rw [hresult] at h
    cases h
    exact ⟨a, rfl⟩

theorem contains_of_delete {given other : String} {store' : Store}
    (h : (delete given).run.run store = (.ok (), store')) (hother : store'.contains other = true) :
    store.contains other = true := by
  rw [run_delete, Store.delete] at h
  split at h
  · cases h
  · next hdelete =>
    split at hdelete
    · cases hdelete
      cases h
      rw [Table.contains, Table.get?_erase] at hother
      split at hother
      · cases hother
      · exact hother
    · cases hdelete

theorem contains_of_reload (hnamed : store.IsNamed) {count : Nat} {store' : Store}
    (h : reload.run.run store = (.ok count, store')) : store'.contains = store.contains := by
  rw [run_reload] at h
  split at h
  · cases h
  · next restored hbytes =>
    cases h
    rw [Store.ofBytes_toBytes hbytes]
    exact (Table.contains_eq (Store.equivalent_ofRules hnamed).get?_eq).symm

end Catalog

namespace Session

open Catalog
open Combination (IsPlain MadeOf nameOf)

variable {ctx : Context} {store : Store} {name : String} {names : List String}
  {steps : List (Instant × Step)}

/-! ## One step -/

/-- A step that creates no rule under a name like that of a combination. -/
def Step.NamesPlainly : Step → Prop
  | .create name _ => IsPlain name
  | _ => True

/-- A name behind a step was stored before, or the step has put it there. -/
theorem contains_perform (hnamed : store.IsNamed) {now : Instant} {step : Step}
    (hstep : step.isGuarded = true)
    (h : Table.contains ((perform ctx now step).run.run store).2 name = true) :
    store.contains name = true ∨ (∃ text, step = .create name text) ∨
      ∃ names rule store', step = .combine names ∧
        (combine now names).run.run store = (.ok rule, store') ∧ rule.name = name := by
  rcases hresult : (perform ctx now step).run.run store with ⟨e | a, store'⟩
  · -- a step that fails has stored nothing
    rw [hresult, isAtomic_perform ctx now step hresult] at h
    exact .inl h
  rw [hresult] at h
  have hquestion : IsQuestion (perform ctx now step) → store.contains name = true := by
    intro hsame
    have hstore := hsame store
    rw [hresult] at hstore
    exact hstore ▸ h
  cases step with
  | create given text =>
    rcases exists_ok_of_map hresult with ⟨rule, hcreate⟩
    rcases gains_of_create hcreate with ⟨_, _, _, hgains⟩
    rcases hgains.contains h with rfl | hbefore
    · exact .inr (.inl ⟨text, rfl⟩)
    · exact .inl hbefore
  | combine names =>
    rcases exists_ok_of_map hresult with ⟨rule, hcombine⟩
    rcases gains_of_combine hcombine with ⟨combination, _, hrule, hgains⟩
    rcases hgains.contains h with rfl | hbefore
    · exact .inr (.inr ⟨names, rule, store', rfl, hcombine, by rw [hrule]⟩)
    · exact .inl hbefore
  | modify given text =>
    -- the rule was stored under its name before
    rcases exists_ok_of_map hresult with ⟨rule, hmodify⟩
    rcases gains_of_modify hmodify with ⟨_, old, _, hold, _, hgains⟩
    rcases hgains.contains h with rfl | hbefore
    · exact .inl (Option.isSome_iff_exists.2 ⟨old, hold⟩)
    · exact .inl hbefore
  | delete given =>
    rcases exists_ok_of_map hresult with ⟨⟨⟩, hdelete⟩
    exact .inl (contains_of_delete hdelete h)
  | reload =>
    rcases exists_ok_of_map hresult with ⟨count, hreload⟩
    rw [contains_of_reload hnamed hreload] at h
    exact .inl h
  | insert | update => cases hstep
  | evaluate given record =>
    exact .inl (hquestion ((isQuestion_evaluate given record).bind fun _ => isQuestion_pure _))
  | get given => exact .inl (hquestion ((isQuestion_find given).bind fun _ => isQuestion_pure _))
  | combineRules | validate => exact .inl (hquestion (isQuestion_answer _))
  | loadNothing => exact .inl (hquestion (isQuestion_throw _))
  | reportAll | list | find | findMany | findAll | size | reportRules | describe =>
    exact .inl (hquestion fun _ => rfl)

/-! ## Runs -/

/-- The store behind a run from the empty one. -/
def final (ctx : Context) (steps : List (Instant × Step)) : Store :=
  (stores ctx .empty steps).getLast (List.cons_ne_nil _ _)

theorem getLast_stores_concat (ctx : Context) (store : Store) (steps : List (Instant × Step))
    (entry : Instant × Step) :
    (stores ctx store (steps ++ [entry])).getLast (List.cons_ne_nil _ _) =
      ((perform ctx entry.1 entry.2).run.run
        ((stores ctx store steps).getLast (List.cons_ne_nil _ _))).2 := by
  induction steps generalizing store with
  | nil => rfl
  | cons first rest ih => exact ih ((perform ctx first.1 first.2).run.run store).2

theorem final_concat (ctx : Context) (steps : List (Instant × Step)) (entry : Instant × Step) :
    final ctx (steps ++ [entry]) =
      ((perform ctx entry.1 entry.2).run.run (final ctx steps)).2 :=
  getLast_stores_concat ctx .empty steps entry

theorem isNamed_final (ctx : Context) (steps : List (Instant × Step)) :
    (final ctx steps).IsNamed :=
  isNamed_of_mem_stores (List.getLast_mem _)

/-- Behind a run, the rule of the name is one that a combination of the given names has stored. -/
inductive Combined (ctx : Context) (names : List String) (name : String) :
    List (Instant × Step) → Prop where
  /-- The last step was this combination, and has succeeded. -/
  | stored {steps : List (Instant × Step)} {now : Instant} {rule : Rule} {store : Store}
      (h : (combine now names).run.run (final ctx steps) = (.ok rule, store))
      (hname : rule.name = name) : Combined ctx names name (steps ++ [(now, .combine names)])
  /-- The last step has left the rule in the store. -/
  | kept {steps : List (Instant × Step)} {entry : Instant × Step}
      (h : Combined ctx names name steps)
      (hname : (final ctx (steps ++ [entry])).contains name = true) :
      Combined ctx names name (steps ++ [entry])

theorem Combined.exists_mem (h : Combined ctx names name steps) :
    ∃ now, (now, Step.combine names) ∈ steps := by
  induction h with
  | @stored _ now _ _ _ _ => exact ⟨now, List.mem_concat_self⟩
  | kept _ _ ih =>
    rcases ih with ⟨now, hmem⟩
    exact ⟨now, List.mem_append_left _ hmem⟩

theorem Combined.contains (h : Combined ctx names name steps) :
    (final ctx steps).contains name = true := by
  cases h with
  | @stored steps now rule store hcombine hname =>
    rcases gains_of_combine hcombine with ⟨_, _, rfl, hgains⟩
    rw [final_concat, perform, run_map, hcombine, Table.contains, hgains name, if_pos hname.symm]
    rfl
  | kept _ hname => exact hname

/-- The name is plain, or that of a stored combination of names which go back to created rules. -/
def HasOrigin (ctx : Context) (steps : List (Instant × Step)) (name : String) : Prop :=
  IsPlain name ∨ ∃ names parts, names ≠ [] ∧ name = nameOf names ∧ MadeOf names parts ∧
    Combined ctx names name steps

theorem HasOrigin.exists_madeOf (h : HasOrigin ctx steps name) : ∃ parts, MadeOf [name] parts := by
  rcases h with hname | ⟨_, _, hne, rfl, hmade, _⟩
  · exact ⟨_, .created hname .nil⟩
  · exact ⟨_, .combined hne hmade .nil⟩

/-- Behind a run in which rules are created under plain names, every stored name has an origin. -/
theorem origin_of_contains (hguarded : ∀ entry ∈ steps, entry.2.isGuarded = true)
    (hplain : ∀ entry ∈ steps, entry.2.NamesPlainly)
    (h : (final ctx steps).contains name = true) : HasOrigin ctx steps name := by
  induction steps using List.reverseRecOn generalizing name with
  | nil => cases h
  | append_singleton steps entry ih =>
    rcases entry with ⟨now, step⟩
    rw [List.forall_mem_append, List.forall_mem_singleton] at hguarded hplain
    have hstored := h
    rw [final_concat] at hstored
    rcases contains_perform (isNamed_final ctx steps) hguarded.2 hstored with
      hbefore | ⟨text, rfl⟩ | ⟨names, rule, store', rfl, hcombine, hname⟩
    · rcases ih hguarded.1 hplain.1 hbefore with hname | ⟨names, parts, hne, hname, hmade, hfrom⟩
      · exact .inl hname
      · exact .inr ⟨names, parts, hne, hname, hmade, .kept hfrom h⟩
    · exact .inl hplain.2
    · rcases combine_cases (isNamed_final ctx steps) now names with
        ⟨e, herror, _⟩ | ⟨hne, hnames, tree, hinsert⟩
      · rw [hcombine] at herror
        cases herror
      · -- the names that were combined were stored, and so have an origin themselves
        have hmade := fun name hmem =>
          (ih hguarded.1 hplain.1 (hnames name hmem)).exists_madeOf
        rcases MadeOf.exists_of_forall hmade with ⟨parts, hparts⟩
        have hderived : name = nameOf names := by
          rw [hinsert] at hcombine
          rw [← hname, (gains_of_insert hcombine).1]
        exact .inr ⟨names, parts, hne, hderived, hparts, .stored hcombine hname⟩

/-- A combination that is refused as a duplicate meets a stored one with the same parts. -/
theorem exists_combined_of_duplicateName (hguarded : ∀ entry ∈ steps, entry.2.isGuarded = true)
    (hplain : ∀ entry ∈ steps, entry.2.NamesPlainly) {now : Instant}
    (h : ((combine now names).run.run (final ctx steps)).1 =
      .error (.store (.duplicateName name))) :
    name = nameOf names ∧ ∃ names' parts, Combined ctx names' name steps ∧
      MadeOf names parts ∧ MadeOf names' parts := by
  rcases combine_cases (isNamed_final ctx steps) now names with
    ⟨e, herror, hother⟩ | ⟨hne, hnames, tree, hinsert⟩
  · rw [herror] at h
    cases h
    exact absurd rfl (hother name)
  · rw [hinsert] at h
    rcases insert_eq_error_iff.1 h with ⟨hcontains, hduplicate⟩
    cases hduplicate
    refine ⟨rfl, ?_⟩
    -- the name has the label of a combination, so that a combination was stored under it
    rcases origin_of_contains hguarded hplain hcontains with
      hname | ⟨names', parts', hne', hname, hmade', hfrom⟩
    · exact absurd hname (Combination.not_isPlain_label _)
    · have hmade := fun name hmem =>
        (origin_of_contains hguarded hplain (hnames name hmem)).exists_madeOf
      rcases MadeOf.exists_of_forall hmade with ⟨parts, hmade⟩
      have hparts := (Combination.nameOf_eq_iff hne hne' hmade hmade').1 hname
      exact ⟨names', parts, hfrom, hmade, hparts ▸ hmade'⟩

/-- Where rules are created under plain names, a combination that is refused as a duplicate meets
one that is stored, was made by a combination, and goes back to the same created rules in the same
order, with as many combinations beginning at each of them.  It was made of the same names, if the
names on one side are all plain.  Conversely, no combination is stored beside one that goes back to
the same parts. -/
theorem combined_of_duplicateName (hguarded : ∀ entry ∈ steps, entry.2.isGuarded = true)
    (hplain : ∀ entry ∈ steps, entry.2.NamesPlainly) (now : Instant) (names : List String) :
    (∀ name, ((combine now names).run.run (final ctx steps)).1 =
        .error (.store (.duplicateName name)) →
      name = nameOf names ∧ ∃ names' parts, Combined ctx names' name steps ∧
        MadeOf names parts ∧ MadeOf names' parts ∧
        ((∀ part ∈ names, IsPlain part) ∨ (∀ part ∈ names', IsPlain part) → names' = names)) ∧
    (∀ names' parts, Combined ctx names' (nameOf names') steps → MadeOf names parts →
      MadeOf names' parts → ∀ rule store,
        (combine now names).run.run (final ctx steps) ≠ (.ok rule, store)) := by
  refine ⟨?refused, ?accepted⟩
  case refused =>
    intro name h
    rcases exists_combined_of_duplicateName hguarded hplain h with
      ⟨hname, names', parts, hfrom, hmade, hmade'⟩
    refine ⟨hname, names', parts, hfrom, hmade, hmade', ?_⟩
    rintro (hnames | hnames')
    · exact hmade.eq_of_isPlain hmade' hnames
    · exact (hmade'.eq_of_isPlain hmade hnames').symm
  case accepted =>
    intro names' parts hfrom hmade hmade' rule store h
    rcases combine_cases (isNamed_final ctx steps) now names with
      ⟨e, herror, _⟩ | ⟨hne, _, tree, hinsert⟩
    · rw [h] at herror
      cases herror
    · -- the name is the one that the stored combination has
      have hne' : names' ≠ [] := fun heq =>
        hne (hmade.eq_nil_iff.1 (hmade'.eq_nil_iff.2 heq))
      have hname := (Combination.nameOf_eq_iff hne hne' hmade hmade').2 rfl
      have hcontains := hfrom.contains
      rw [← hname] at hcontains
      have hrefused : ((insert ⟨nameOf names, tree, now⟩).run.run (final ctx steps)).1 = _ :=
        insert_eq_error_iff.2 ⟨hcontains, rfl⟩
      rw [← hinsert, h] at hrefused
      cases hrefused

/-- A combination of two rules is part of another one, and is changed, before it is asked for
again. -/
theorem combined_of_duplicateName_again :
    let noon : Instant := ⟨⟨2024, 2, 29, 12, 0, 0, 500⟩, by decide⟩
    let ctx : Context := ⟨.ofList [("age", .number)], .empty⟩
    let steps : List (Instant × Step) :=
      [(noon, .create "A" "age > 1"), (noon, .create "B" "age > 2"), (noon, .combine ["A", "B"]),
        (noon, .create "C" "age > 3"), (noon, .combine ["Combined: A + B", "C"]),
        (noon, .modify "Combined: A + B" "age > 4"), (noon, .delete "C")]
    (∀ entry ∈ steps, entry.2.isGuarded = true) ∧ (∀ entry ∈ steps, entry.2.NamesPlainly) ∧
      ((combine noon ["A", "B"]).run.run (final ctx steps)).1 =
        .error (.store (.duplicateName "Combined: A + B")) ∧
      Combined ctx ["A", "B"] "Combined: A + B" steps := by
  intro noon ctx steps
  have hguarded : ∀ entry ∈ steps, entry.2.isGuarded = true := by
    simp [steps, Step.isGuarded]
  have hplain : ∀ entry ∈ steps, entry.2.NamesPlainly := by
    simp only [steps, List.forall_mem_cons, Step.NamesPlainly, List.not_mem_nil, false_imp_iff,
      implies_true, and_true, true_and]
    decide
  have hrefused : ((combine noon ["A", "B"]).run.run (final ctx steps)).1 =
      .error (.store (.duplicateName "Combined: A + B")) := by decide +kernel
  rcases (combined_of_duplicateName hguarded hplain noon ["A", "B"]).1 _ hrefused with
    ⟨_, names', parts, hfrom, _, _, hsame⟩
  rw [hsame (.inl (by decide))] at hfrom
  exact ⟨hguarded, hplain, hrefused, hfrom⟩

/-- The first combination of four ends its inner one behind the second rule, the refused one behind
the third, and their names do not tell. -/
theorem combined_of_duplicateName_regrouped :
    let noon : Instant := ⟨⟨2024, 2, 29, 12, 0, 0, 500⟩, by decide⟩
    let ctx : Context := ⟨.ofList [("age", .number)], .empty⟩
    let steps : List (Instant × Step) :=
      [(noon, .create "A" "age > 1"), (noon, .create "B" "age > 2"), (noon, .create "C" "age > 3"),
        (noon, .create "D" "age > 4"), (noon, .combine ["A", "B"]),
        (noon, .combine ["A", "B", "C"]), (noon, .combine ["Combined: A + B", "C", "D"])]
    let names : List String := ["Combined: A + B + C", "D"]
    (∀ entry ∈ steps, entry.2.isGuarded = true) ∧ (∀ entry ∈ steps, entry.2.NamesPlainly) ∧
      ((combine noon names).run.run (final ctx steps)).1 =
        .error (.store (.duplicateName "Combined: Combined: A + B + C + D")) ∧
      ∀ name, ¬ Combined ctx names name steps := by
  intro noon ctx steps names
  refine ⟨?guarded, ?plain, by decide +kernel, ?combined⟩
  case guarded => simp [steps, Step.isGuarded]
  case plain =>
    simp only [steps, List.forall_mem_cons, Step.NamesPlainly, List.not_mem_nil, false_imp_iff,
      implies_true, and_true]
    decide
  case combined =>
    intro name hfrom
    rcases hfrom.exists_mem with ⟨now, hmem⟩
    simp [steps, names] at hmem

end Session
end Eligibility
