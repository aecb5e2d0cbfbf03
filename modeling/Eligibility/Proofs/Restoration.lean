import Eligibility.Proofs.Listing
import Eligibility.Proofs.Session
import Eligibility.Proofs.Tree.Height

/-!
# Restoration — a snapshot gives back its store, within the limit of depth

A snapshot can be written of every store, however deep its trees, and is read with a limit of depth.
The names of a store are distinct and each rule stands under its own name, so that reading finds no
fault but a tree that is too deep.  The rules then come back in the order of the listing, not in the
order in which they came in, and no later step can tell.

* `Store.equivalent_ofRules` — a store and the store of its listing;
* `Store.ofBytes_toBytes_of_isNamed` — what reading gives;
* `Session.isNamed_of_mem_stores` — the stores that a session goes through;
* `Session.ofBytes_toBytes_of_mem_stores` — their snapshots, and every run after them.
-/

namespace Eligibility

namespace Store

open Snapshot.Payload (WithinLimit)

variable {store : Store}

/-- The store of a listing answers as the listed store does. -/
theorem equivalent_ofRules (h : store.IsNamed) : store.Equivalent (ofRules store.all) := by
  refine ⟨?_, h⟩
  have hholds := holds_ofRules (nodup_names_all h)
  funext name
  refine Option.ext fun rule => ?_
  rw [hholds.get?_iff, h.holds.get?_iff, (perm_values_all store).mem_iff]

theorem withinLimit_all_iff :
    WithinLimit store.all ↔
      ∀ name rule, store.get? name = some rule → rule.tree.depth ≤ Tree.maxDepth := by
  constructor
  · intro h name rule hget
    rw [rule.tree.depth_eq_height]
    exact h rule (mem_all.2 ⟨name, hget⟩)
  · intro h rule hrule
    rcases mem_all.1 hrule with ⟨name, hget⟩
    rw [← rule.tree.depth_eq_height]
    exact h name rule hget

/-- The size of a payload does not depend on the order of the listing. -/
theorem length_payload_all (store : Store) :
    (Snapshot.Payload.ofRules store.all).length =
      (Snapshot.Payload.ofRules store.values).length := by
  have hperm := perm_values_all store
  have hbytes := (hperm.flatMap_right Snapshot.Payload.rule).length_eq
  simp only [Snapshot.Payload.ofRules, List.length_append, hperm.length_eq, hbytes]

/-- Reading the snapshot of a store fails only by the depth of a tree. -/
theorem ofBytes_toBytes_of_isNamed (h : store.IsNamed)
    (hsize : (Snapshot.Payload.ofRules store.all).length < 2 ^ 32) :
    ofBytes store.toBytes =
      if WithinLimit store.all then .ok (ofRules store.all) else .error (.defect .tooDeep) := by
  rw [ofBytes, toBytes, Snapshot.decode_encode, if_pos hsize,
    Snapshot.checked_length (nodup_names_all h)]
  by_cases hlimit : WithinLimit store.all
  · rw [if_pos hlimit, if_pos hlimit]
    rfl
  · rw [if_neg hlimit, if_neg hlimit]
    rfl

end Store

namespace Session

open Snapshot.Payload (WithinLimit)

variable {ctx : Context} {store : Store}

/-- A rule is stored under its own name by every step, also by those without any check. -/
theorem isNamed_of_mem_stores {steps : List (Instant × Step)}
    (h : store ∈ stores ctx .empty steps) : store.IsNamed := by
  refine forall_mem_stores ?_ Store.isNamed_empty store h
  intro entry _ before hbefore
  have hsame := Store.Equivalent.of_isNamed hbefore
  exact (respects_perform ctx entry.1 entry.2 hsame).2.isNamed

/-- Every store that steps lead to from the empty one, stored trees of any depth among them, has a
snapshot.  If its payload is within the size that the header can state, it is read exactly when
every tree keeps the limit of depth.  Then every name has its rule again, and whatever steps follow
give the same answers and snapshots as on the store itself.  Otherwise the refusal states the
depth. -/
theorem ofBytes_toBytes_of_mem_stores {steps : List (Instant × Step)}
    (h : store ∈ stores ctx .empty steps)
    (hsize : (Snapshot.Payload.ofRules store.all).length < 2 ^ 32) :
    ((∃ restored, Store.ofBytes store.toBytes = .ok restored) ↔
      ∀ name rule, store.get? name = some rule → rule.tree.depth ≤ Tree.maxDepth) ∧
    (∀ restored, Store.ofBytes store.toBytes = .ok restored →
      (∀ name, restored.get? name = store.get? name) ∧
        ∀ ctx' later, seen ctx' restored later = seen ctx' store later) ∧
    ((∃ name rule, store.get? name = some rule ∧ Tree.maxDepth < rule.tree.depth) →
      Store.ofBytes store.toBytes = .error (.defect .tooDeep)) := by
  have hnamed := isNamed_of_mem_stores h
  have hread := Store.ofBytes_toBytes_of_isNamed hnamed hsize
  have hequivalent := Store.equivalent_ofRules hnamed
  rw [← Store.withinLimit_all_iff]
  refine ⟨?_, ?_, ?_⟩
  · by_cases hlimit : WithinLimit store.all
    · rw [if_pos hlimit] at hread
      exact ⟨fun _ => hlimit, fun _ => ⟨_, hread⟩⟩
    · rw [if_neg hlimit] at hread
      simp [hread, hlimit]
  · intro restored hrestored
    rw [Store.ofBytes_toBytes hrestored]
    exact ⟨fun name => (congrFun hequivalent.get?_eq name).symm,
      fun ctx' later => (seen_eq_of_equivalent hequivalent later).symm⟩
  · rintro ⟨name, rule, hget, hdeep⟩
    have hlimit : ¬ WithinLimit store.all := fun hlimit =>
      Nat.not_lt.2 (Store.withinLimit_all_iff.1 hlimit name rule hget) hdeep
    rw [if_neg hlimit] at hread
    exact hread

/-- Rules stored as they are, the older one last, a tree of the greatest depth in place of another,
and a rule that goes again; then one level more. -/
theorem ofBytes_toBytes_of_mem_stores_boundary :
    let noon : Instant := ⟨⟨2024, 2, 29, 12, 0, 0, 500⟩, by decide⟩
    let dawn : Instant := ⟨⟨2024, 2, 29, 6, 0, 0, 0⟩, by decide⟩
    let ctx : Context := ⟨.empty, .empty⟩
    let chain : Nat → Tree := fun levels =>
      (List.range levels).foldl (fun tree _ => .branch .or tree (.operand "")) (.operand "a b")
    let steps : List (Instant × Step) :=
      [(noon, .insert ⟨"late", chain 2, noon⟩), (noon, .insert ⟨"gone", chain 70, noon⟩),
        (noon, .insert ⟨"early", .operand "f(", dawn⟩), (noon, .update "late" (chain 64)),
        (noon, .delete "gone")]
    let store : Store := (stores ctx .empty steps).getLast (List.cons_ne_nil _ _)
    let deeper : Store := (stores ctx .empty (steps ++ [(noon, .update "late" (chain 65))])).getLast
      (List.cons_ne_nil _ _)
    store.keys = ["late", "early"] ∧
      (∃ restored, Store.ofBytes store.toBytes = .ok restored ∧
        restored.get? "late" = some ⟨"late", chain 64, noon⟩ ∧
        ∀ ctx' later, seen ctx' restored later = seen ctx' store later) ∧
      Store.ofBytes deeper.toBytes = .error (.defect .tooDeep) := by
  intro noon dawn ctx chain steps store deeper
  have hstore : store ∈ stores ctx .empty steps := List.getLast_mem _
  have hdeeper : deeper ∈ stores ctx .empty (steps ++ [(noon, .update "late" (chain 65))]) :=
    List.getLast_mem _
  have hsize : (Snapshot.Payload.ofRules store.all).length < 2 ^ 32 := by
    rw [Store.length_payload_all]
    decide +kernel
  have hdeeperSize : (Snapshot.Payload.ofRules deeper.all).length < 2 ^ 32 := by
    rw [Store.length_payload_all]
    decide +kernel
  have hvalues : WithinLimit store.values := by decide +kernel
  have hlimit : WithinLimit store.all := fun rule hrule => hvalues rule (List.mem_mergeSort.1 hrule)
  rcases ofBytes_toBytes_of_mem_stores hstore hsize with ⟨hiff, hrestores, _⟩
  rcases hiff.2 (Store.withinLimit_all_iff.1 hlimit) with ⟨restored, hrestored⟩
  rcases hrestores restored hrestored with ⟨hget, hseen⟩
  refine ⟨by decide +kernel, ⟨restored, hrestored, ?_, hseen⟩, ?_⟩
  · rw [hget]
    decide +kernel
  · refine (ofBytes_toBytes_of_mem_stores hdeeper hdeeperSize).2.2 ?_
    refine ⟨"late", ⟨"late", chain 65, noon⟩, by decide +kernel, ?_⟩
    rw [Tree.depth_eq_height]
    decide +kernel

end Session
end Eligibility
