import Eligibility.Proofs.Agreement

/-!
# Canonicity — the snapshot of a store is settled by its rules, and settles them

Two runs may come to the same rules on different ways, and a table may list its entries in any order.
The snapshot shows none of it, as the rules are sorted by time and name and no two rules of a store
have one name.  In turn a snapshot that can be read belongs to one set of rules only.

* `Store.SameRules`, `Store.SameRules.equivalent` — stores of the same rules;
* `Store.sameRules_of_toBytes_eq` — stores of the same snapshot;
* `Session.toBytes_of_occurs` — the snapshots of all stores there can be.
-/

namespace Eligibility

namespace Store

variable {a b : Store}

/-- The stores have the same rules, in whatever order they came in. -/
def SameRules (a b : Store) : Prop :=
  ∀ rule, rule ∈ a.values ↔ rule ∈ b.values

theorem SameRules.equivalent (h : a.SameRules b) (ha : a.IsNamed) (hb : b.IsNamed) :
    a.Equivalent b := by
  refine ⟨?_, ha⟩
  funext name
  refine Option.ext fun rule => ?_
  rw [ha.holds.get?_iff, hb.holds.get?_iff, h rule]

/-- A snapshot that can be read is that of one set of rules. -/
theorem sameRules_of_toBytes_eq (ha : a.IsNamed)
    (hsize : (Snapshot.Payload.ofRules a.all).length < 2 ^ 32)
    (hdepth : ∀ rule ∈ a.values, rule.tree.depth ≤ Tree.maxDepth) (h : a.toBytes = b.toBytes) :
    a.SameRules b := by
  have hlimit : Snapshot.Payload.WithinLimit a.all := by
    intro rule hrule
    rw [← rule.tree.depth_eq_height]
    exact hdepth rule ((perm_values_all a).mem_iff.1 hrule)
  have hall : a.all = b.all := Snapshot.eq_of_encode_eq (nodup_names_all ha) hlimit hsize h
  intro rule
  rw [← (perm_values_all a).mem_iff, hall, (perm_values_all b).mem_iff]

end Store

namespace Session

variable {a b : Store}

/-- Stores of the same rules have the same snapshot, however they came to be, and any order in which
the rules are taken from the table leads to it.  Stores of other rules have other snapshots, as long
as the trees of one of them keep the limit of depth and its payload that of the header. -/
theorem toBytes_of_occurs (ha : Occurs a) (hb : Occurs b) :
    (a.SameRules b → a.toBytes = b.toBytes) ∧
    (∀ listed : List Rule, listed.Perm a.values →
      Snapshot.encode (listed.mergeSort Rule.precedes) = a.toBytes) ∧
    ((Snapshot.Payload.ofRules a.all).length < 2 ^ 32 →
      (∀ rule ∈ a.values, rule.tree.depth ≤ Tree.maxDepth) →
      ¬ a.SameRules b → a.toBytes ≠ b.toBytes) := by
  have hnamed := isNamed_of_occurs ha
  refine ⟨?same, ?order, ?other⟩
  case same =>
    intro hsame
    exact (hsame.equivalent hnamed (isNamed_of_occurs hb)).toBytes_eq
  case order =>
    intro listed hperm
    rw [hnamed.mergeSort_eq_all hperm, Store.toBytes]
  case other =>
    intro hsize hdepth hother heq
    exact hother (Store.sameRules_of_toBytes_eq hnamed hsize hdepth heq)

/-- Two rules of one time, in one order by a run in which a third one goes again, and in the other by
a change of a store that was loaded; then the first run with one more change. -/
theorem toBytes_of_occurs_orders :
    let noon : Instant := ⟨⟨2024, 2, 29, 12, 0, 0, 500⟩, by decide⟩
    let ctx : Context := ⟨.empty, .empty⟩
    let steps : List (Instant × Step) :=
      [(noon, .insert ⟨"z", .operand "a = 1", noon⟩), (noon, .insert ⟨"gone", .operand "", noon⟩),
        (noon, .insert ⟨"a", .operand "f(", noon⟩), (noon, .delete "gone")]
    let rules : List Rule := [⟨"a", .operand "b", noon⟩, ⟨"z", .operand "a = 1", noon⟩]
    let a : Store := (stores ctx .empty steps).getLast (List.cons_ne_nil _ _)
    let b : Store := (stores ctx (.ofRules rules) [(noon, .update "a" (.operand "f("))]).getLast
      (List.cons_ne_nil _ _)
    let c : Store := (stores ctx .empty (steps ++ [(noon, .update "z" (.operand "a = 2"))])).getLast
      (List.cons_ne_nil _ _)
    Store.ofBytes (Snapshot.encode rules) = .ok (.ofRules rules) ∧
      a.values.map Rule.name = ["z", "a"] ∧ b.values.map Rule.name = ["a", "z"] ∧
      a.toBytes = b.toBytes ∧
      Snapshot.encode (a.values.reverse.mergeSort Rule.precedes) = a.toBytes ∧
      a.toBytes ≠ c.toBytes := by
  intro noon ctx steps rules a b c
  have hread : Snapshot.decode (Snapshot.encode rules) = .ok rules :=
    Snapshot.decode_encode_of_withinLimit (by decide) (by decide +kernel) (by decide +kernel)
  have hload : Store.ofBytes (Snapshot.encode rules) = .ok (.ofRules rules) := by
    rw [Store.ofBytes, hread]
    rfl
  have ha : Occurs a := occurs_of_mem_stores .empty a (List.getLast_mem _)
  have hb : Occurs b := occurs_of_mem_stores (.load hload) b (List.getLast_mem _)
  have hc : Occurs c := occurs_of_mem_stores .empty c (List.getLast_mem _)
  have hsize : (Snapshot.Payload.ofRules a.all).length < 2 ^ 32 := by
    rw [Store.length_payload_all]
    decide +kernel
  have hdepth : ∀ rule ∈ a.values, rule.tree.depth ≤ Tree.maxDepth := by decide +kernel
  have hperm : a.values.Perm b.values := by decide +kernel
  have hother : ¬ a.SameRules c := by
    intro hsame
    have hmem := (hsame ⟨"z", .operand "a = 1", noon⟩).1 (by decide +kernel)
    revert hmem
    decide +kernel
  rcases toBytes_of_occurs ha hb with ⟨hsame, horder, _⟩
  rcases toBytes_of_occurs ha hc with ⟨_, _, hdiffer⟩
  refine ⟨hload, by decide +kernel, by decide +kernel, hsame fun _ => hperm.mem_iff, ?_, ?_⟩
  · exact horder _ (List.reverse_perm a.values)
  · exact hdiffer hsize hdepth hother

end Session
end Eligibility
