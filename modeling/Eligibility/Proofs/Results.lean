import Mathlib.Control.Monad.Basic

/-!
# Results — answers that may be errors, alone and in lists

A list of steps of which each may fail has the list of its results, or else the error of the first
step that fails.

* `exists_of_map` — a result that is only put in other words;
* `mapM_cons_of_ok`, `mapM_cons_of_error` — a list by its first step;
* `exists_mapM_eq_ok`, `results_of_mapM_eq_ok` — lists without an error;
* `mapM_eq_error_of_first` — lists with one.
-/

namespace Eligibility

variable {ε α β : Type}

theorem exists_of_map {result : Except ε α} {f : α → β} {b : β}
    (h : result.map f = .ok b) : ∃ a, result = .ok a ∧ f a = b := by
  cases result with
  | error e => cases h
  | ok a =>
    cases h
    exact ⟨a, rfl, rfl⟩

/-! ## Lists of outcomes -/

variable {f : α → Except ε β}

theorem mapM_cons_of_ok {a : α} {b : β} (h : f a = .ok b) (rest : List α) :
    (a :: rest).mapM f = (rest.mapM f).map (b :: ·) := by
  rw [List.mapM_cons, h]
  cases rest.mapM f with
  | error e => rfl
  | ok bs => rfl

theorem mapM_cons_of_error {a : α} {e : ε} (h : f a = .error e) (rest : List α) :
    (a :: rest).mapM f = .error e := by
  rw [List.mapM_cons, h]
  rfl

/-- The first error of a list is the error of the whole list. -/
theorem mapM_eq_error_of_first {before : List α} {a : α} {e : ε}
    (hbefore : ∀ other ∈ before, ∃ b, f other = .ok b) (h : f a = .error e) (after : List α) :
    (before ++ a :: after).mapM f = .error e := by
  induction before with
  | nil => exact mapM_cons_of_error h after
  | cons other before ih =>
    rcases hbefore other List.mem_cons_self with ⟨b, hb⟩
    have hrest := ih fun other' hother' => hbefore other' (List.mem_cons_of_mem _ hother')
    rw [List.cons_append, mapM_cons_of_ok hb, hrest]
    rfl

/-- Without an error, a list has the list of its results. -/
theorem exists_mapM_eq_ok {as : List α} (h : ∀ a ∈ as, ∃ b, f a = .ok b) :
    ∃ bs, as.mapM f = .ok bs := by
  induction as with
  | nil => exact ⟨[], rfl⟩
  | cons a rest ih =>
    rcases h a List.mem_cons_self with ⟨b, hb⟩
    rcases ih fun other hother => h other (List.mem_cons_of_mem _ hother) with ⟨bs, hbs⟩
    exact ⟨b :: bs, by rw [mapM_cons_of_ok hb, hbs]; rfl⟩

theorem results_of_mapM_eq_ok {as : List α} {bs : List β} (h : as.mapM f = .ok bs) :
    (∀ a ∈ as, ∃ b, f a = .ok b) ∧ ∀ b, b ∈ bs ↔ ∃ a ∈ as, f a = .ok b := by
  induction as generalizing bs with
  | nil =>
    cases h
    simp
  | cons a rest ih =>
    cases ha : f a with
    | error e =>
      rw [mapM_cons_of_error ha] at h
      cases h
    | ok b =>
      cases hrest : rest.mapM f with
      | error e =>
        rw [mapM_cons_of_ok ha, hrest] at h
        cases h
      | ok bs' =>
        rw [mapM_cons_of_ok ha, hrest] at h
        cases h
        rcases ih hrest with ⟨hall, hmem⟩
        refine ⟨List.forall_mem_cons.2 ⟨⟨b, ha⟩, hall⟩, ?_⟩
        intro b'
        simp [hmem, ha, eq_comm]

end Eligibility
