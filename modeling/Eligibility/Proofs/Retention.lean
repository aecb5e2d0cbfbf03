import Eligibility.Proofs.Limit
import Eligibility.Proofs.Restoration

/-!
# Retention — a snapshot that is accepted loses none of its rules

The bytes of a snapshot may come from anywhere.  Its payload may announce any number of rules, repeat
a name, spend more bytes on a number than it takes, state a time with an offset, and go on behind the
last rule.  A table keeps only the last of several rules of one name, so that nothing but the check
of the names stands between a repeated name and a lost rule.

* `Store.exists_ofBytes_toBytes` — the snapshot of a store within the limit of depth;
* `Store.retained_of_ofBytes` — what an accepted snapshot gives.
-/

namespace Eligibility
namespace Store

/-- A store within the limit of depth is read back from its snapshot with everything it has. -/
theorem exists_ofBytes_toBytes {store : Store} (h : store.IsNamed)
    (hlimit : ∀ name rule, store.get? name = some rule → rule.tree.depth ≤ Tree.maxDepth)
    (hsize : (Snapshot.Payload.ofRules store.all).length < 2 ^ 32) :
    ∃ again, ofBytes store.toBytes = .ok again ∧ again.size = store.size ∧
      ∀ name, again.get? name = store.get? name := by
  have hread := ofBytes_toBytes_of_isNamed h hsize
  rw [if_pos (withinLimit_all_iff.2 hlimit)] at hread
  have hequivalent := equivalent_ofRules h
  exact ⟨_, hread, hequivalent.size_eq.symm, fun name => (congrFun hequivalent.get?_eq name).symm⟩

/-- What the store of an accepted snapshot has are the rules of the payload, as many as it announces.
Their names are distinct and their trees keep the limit of depth, so that the store has a snapshot
that is accepted in turn, as long as the header can state the length of its payload. -/
theorem retained_of_ofBytes {bytes : List UInt8} {store : Store} (h : ofBytes bytes = .ok store) :
    ∃ payload announced rules,
      Snapshot.payload? bytes = .ok payload ∧
      Snapshot.Payload.read payload = .ok (announced, rules) ∧
      announced = rules.length ∧
      store.Holds rules ∧
      (rules.map Rule.name).Nodup ∧
      (∀ rule ∈ rules, rule.tree.depth ≤ Tree.maxDepth) ∧
      ((Snapshot.Payload.ofRules store.all).length < 2 ^ 32 →
        ∃ again, ofBytes store.toBytes = .ok again ∧ again.size = store.size ∧
          ∀ name, again.get? name = store.get? name) := by
  rcases exists_of_map h with ⟨rules, hdecode, rfl⟩
  rcases Snapshot.decode_eq_ok_iff.1 hdecode with ⟨payload, hpayload, hread, hnames⟩
  have hholds := holds_ofRules hnames
  have hdepth : ∀ rule ∈ rules, rule.tree.depth ≤ Tree.maxDepth := by
    intro rule hrule
    rw [Tree.depth_eq_height]
    exact Snapshot.withinLimit_of_decode hdecode rule hrule
  refine ⟨payload, rules.length, rules, hpayload, hread, rfl, hholds, hnames, hdepth, ?_⟩
  -- what comes back from the store are its own rules, which were read within the limit
  refine exists_ofBytes_toBytes (isNamed_ofRules rules) ?_
  intro name rule hget
  exact hdepth rule ((hholds.get?_iff name rule).1 hget).1

/-- A payload with a number in three bytes and one in five, a time with an offset, and a byte behind
the rules. -/
theorem retained_of_ofBytes_foreign :
    let noon : Instant := ⟨⟨2024, 2, 29, 12, 0, 0, 0⟩, by decide⟩
    let rule : String → String → List UInt8 := fun name time =>
      Snapshot.Payload.text name ++ Snapshot.Payload.node (Tree.operand "a = 1").toStored ++
        Snapshot.Payload.text time
    let payload : List UInt8 := [251, 2, 0] ++ [252, 2, 0, 0, 0] ++
      rule "z" "2024-02-29T13:30:00+01:30" ++ rule "a" "2024-02-29T12:00:00Z" ++ [255]
    let bytes := Snapshot.header payload ++ payload
    ∃ store again, ofBytes bytes = .ok store ∧ store.size = 2 ∧
      store.get? "z" = some ⟨"z", .operand "a = 1", noon⟩ ∧
      ofBytes store.toBytes = .ok again ∧ again.get? "z" = store.get? "z" ∧
      store.toBytes ≠ bytes := by
  intro noon rule payload bytes
  let rules : List Rule := [⟨"z", .operand "a = 1", noon⟩, ⟨"a", .operand "a = 1", noon⟩]
  have hpayload : Snapshot.payload? bytes = .ok payload := by
    rw [Snapshot.payload?_header, if_pos (by decide +kernel)]
  have hread : Snapshot.Payload.read payload = .ok (2, rules) := by decide +kernel
  have hdecode : Snapshot.decode bytes = .ok rules :=
    Snapshot.decode_eq_ok_iff.2 ⟨payload, hpayload, hread, by decide⟩
  have hbytes : ofBytes bytes = .ok (ofRules rules) := by
    rw [ofBytes, hdecode]
    rfl
  rcases retained_of_ofBytes hbytes with
    ⟨payload', announced, rules', hpayload', hread', _, hholds, _, _, hagain⟩
  rw [hpayload, Except.ok.injEq] at hpayload'
  rw [← hpayload', hread, Except.ok.injEq, Prod.mk.injEq] at hread'
  rw [← hread'.2] at hholds
  have hsize : (Snapshot.Payload.ofRules (ofRules rules).all).length = 80 := by
    rw [length_payload_all]
    decide +kernel
  rcases hagain (by rw [hsize]; decide) with ⟨again, hread'', _, hget⟩
  refine ⟨ofRules rules, again, hbytes, hholds.size_eq, ?_, hread'', hget "z", ?_⟩
  · exact (hholds.get?_iff "z" _).2 ⟨List.mem_cons_self, rfl⟩
  · intro heq
    have hlength : payload.length = 92 := by decide +kernel
    have hlengths := congrArg List.length heq
    simp only [toBytes, Snapshot.encode, bytes, List.length_append, Snapshot.length_header, hsize,
      hlength] at hlengths
    omega

end Store
end Eligibility
