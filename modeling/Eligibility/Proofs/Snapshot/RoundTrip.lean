import Mathlib.Data.List.Basic
import Mathlib.Tactic.Tauto
import Eligibility.Proofs.Snapshot.Header

/-!
# RoundTrip — what a snapshot of rules is read as

A snapshot is accepted by its own reader when the payload has less than `2 ^ 32` bytes, no tree is
too deep and the names are distinct, and then it gives exactly its rules.

* `Snapshot.firstRepeated?_eq_none_iff`, `Snapshot.checked_eq_ok_iff` — which rules are accepted;
* `Snapshot.decode_eq_ok_iff` — what an accepted snapshot consists of;
* `Snapshot.decode_encode` — the outcome of reading a snapshot, with every refusal;
* `Snapshot.eq_of_decode_encode` — a snapshot that is accepted gives its own rules;
* `Snapshot.eq_of_encode_eq` — no other rules have the same snapshot.
-/

namespace Eligibility
namespace Snapshot

theorem firstRepeated?_eq_none_iff {seen names : List String} :
    firstRepeated? seen names = none ↔ names.Nodup ∧ names.Disjoint seen := by
  induction names generalizing seen with
  | nil => simp [firstRepeated?]
  | cons name rest ih =>
    simp only [firstRepeated?, List.nodup_cons, List.disjoint_cons_left, List.contains_iff_mem]
    by_cases hseen : name ∈ seen
    · simp [hseen]
    · -- the name joins those that the rest must not repeat
      rw [if_neg hseen, ih, List.disjoint_cons_right]
      tauto

/-- Rules are accepted as they are, when they are as many as announced and have distinct names. -/
theorem checked_eq_ok_iff {announced : Nat} {rules rules' : List Rule} :
    checked announced rules = .ok rules' ↔
      announced = rules.length ∧ (rules.map Rule.name).Nodup ∧ rules' = rules := by
  have hnames : firstRepeated? [] (rules.map Rule.name) = none ↔ (rules.map Rule.name).Nodup := by
    rw [firstRepeated?_eq_none_iff, and_iff_left (List.disjoint_nil_right _)]
  rw [← hnames]
  by_cases hlength : announced = rules.length
  · cases hrepeated : firstRepeated? [] (rules.map Rule.name) with
    | none => simp [checked, hlength, hrepeated, eq_comm]
    | some name => simp [checked, hlength, hrepeated]
  · simp [checked, hlength]

theorem checked_length {rules : List Rule} (h : (rules.map Rule.name).Nodup) :
    checked rules.length rules = .ok rules :=
  checked_eq_ok_iff.2 ⟨rfl, h, rfl⟩

theorem eq_of_checked {announced : Nat} {rules rules' : List Rule}
    (h : checked announced rules = .ok rules') : rules' = rules :=
  (checked_eq_ok_iff.1 h).2.2

/-- What an accepted snapshot consists of. -/
theorem decode_eq_ok_iff {bytes : List UInt8} {rules : List Rule} :
    decode bytes = .ok rules ↔
      ∃ payload, payload? bytes = .ok payload ∧
        Payload.read payload = .ok (rules.length, rules) ∧ (rules.map Rule.name).Nodup := by
  unfold decode
  cases payload? bytes with
  | error e => simp
  | ok payload =>
    simp only [Except.ok.injEq, exists_eq_left']
    cases Payload.read payload with
    | error e => simp
    | ok announcedRules =>
      rcases announcedRules with ⟨announced, read⟩
      simp only [checked_eq_ok_iff, Except.ok.injEq, Prod.mk.injEq]
      constructor
      · rintro ⟨rfl, hnames, rfl⟩
        exact ⟨⟨rfl, rfl⟩, hnames⟩
      · rintro ⟨⟨rfl, rfl⟩, hnames⟩
        exact ⟨rfl, hnames, rfl⟩

/-- Reading a snapshot: the length of the payload decides first, then the depth of the trees, then
the names. -/
theorem decode_encode (rules : List Rule) :
    decode (encode rules) =
      if (Payload.ofRules rules).length < 2 ^ 32 then
        if Payload.WithinLimit rules then checked rules.length rules
        else .error (.defect .tooDeep)
      else
        .error (.lengthMismatch ((Payload.ofRules rules).length % 2 ^ 32)
          (Payload.ofRules rules).length) := by
  simp only [decode, encode, payload?_header]
  by_cases hlength : (Payload.ofRules rules).length < 2 ^ 32
  · have hsize : (Payload.ofRules rules).length < 2 ^ 64 := by omega
    simp only [hlength, if_true, Payload.read_ofRules hsize]
    by_cases hlimit : Payload.WithinLimit rules
    · rw [if_pos hlimit, if_pos hlimit]
    · rw [if_neg hlimit, if_neg hlimit]
  · simp only [hlength, if_false]

/-- A snapshot that is accepted gives the rules that it was made of. -/
theorem eq_of_decode_encode {rules rules' : List Rule}
    (h : decode (encode rules) = .ok rules') : rules' = rules := by
  rw [decode_encode] at h
  split at h
  · split at h
    · exact eq_of_checked h
    · cases h
  · cases h

theorem decode_encode_of_withinLimit {rules : List Rule} (hnames : (rules.map Rule.name).Nodup)
    (hlimit : Payload.WithinLimit rules) (hlength : (Payload.ofRules rules).length < 2 ^ 32) :
    decode (encode rules) = .ok rules := by
  rw [decode_encode, if_pos hlength, if_pos hlimit, checked_length hnames]

/-- Rules that are read back from their snapshot share it with no others. -/
theorem eq_of_encode_eq {rules rules' : List Rule} (hnames : (rules.map Rule.name).Nodup)
    (hlimit : Payload.WithinLimit rules) (hlength : (Payload.ofRules rules).length < 2 ^ 32)
    (h : encode rules = encode rules') : rules = rules' := by
  have hread := decode_encode_of_withinLimit hnames hlimit hlength
  rw [h] at hread
  exact eq_of_decode_encode hread

end Snapshot
end Eligibility
