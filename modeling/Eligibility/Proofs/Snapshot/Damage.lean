import Eligibility.Proofs.Snapshot.RoundTrip
import Eligibility.Proofs.Tree.Height

/-!
# Damage — what is reported of a snapshot that was changed

A snapshot that was cut, lengthened or overwritten is refused by the first check that the change
reaches: the size, the magic bytes, the version, the length, the checksum.  The bytes of a header
that no check looks at may be anything.

* `Snapshot.payload?_of_isPrefix` — snapshots that were cut or lengthened;
* `Snapshot.payload?_of_drop` — snapshots with other bytes in the place of the header;
* `Snapshot.payload?_of_checksum_ne` — snapshots with another payload of the same length;
* `Snapshot.decode_of_damage` — all of them, as the rules are read.
-/

namespace Eligibility
namespace Snapshot

variable {payload bytes : List UInt8} {rules : List Rule}

/-! ## The payload of a damaged snapshot -/

/-- Bytes that stop in a payload or go on behind it have the header, and not as many bytes after
it. -/
theorem exists_header_append (hsize : headerLength ≤ bytes.length)
    (h : bytes <+: header payload ++ payload ∨ header payload ++ payload <+: bytes)
    (hne : bytes ≠ header payload ++ payload) :
    ∃ other, bytes = header payload ++ other ∧ other.length ≠ payload.length := by
  -- bytes that are cut reach past the header, so that only the payload is incomplete
  have hheader : header payload <+: bytes := by
    rcases h with hcut | hlonger
    · refine List.prefix_of_prefix_length_le (List.prefix_append _ _) hcut ?_
      rw [length_header]
      exact hsize
    · exact (List.prefix_append _ _).trans hlonger
  rcases hheader with ⟨other, rfl⟩
  refine ⟨other, rfl, fun hlength => hne ?_⟩
  rcases h with hcut | hlonger
  · rw [((List.prefix_append_right_inj _).1 hcut).eq_of_length hlength]
  · rw [((List.prefix_append_right_inj _).1 hlonger).eq_of_length hlength.symm]

theorem payload?_of_isPrefix (hlength : payload.length < 2 ^ 32)
    (h : bytes <+: header payload ++ payload ∨ header payload ++ payload <+: bytes)
    (hne : bytes ≠ header payload ++ payload) :
    payload? bytes = .error (
      if bytes.length < headerLength then .lengthMismatch headerLength bytes.length
      else .lengthMismatch payload.length (bytes.length - headerLength)) := by
  by_cases hsize : bytes.length < headerLength
  · rw [payload?, if_pos hsize, if_pos hsize]
  · rcases exists_header_append (Nat.not_lt.1 hsize) h hne with ⟨other, rfl, hother⟩
    have hleft : (header payload ++ other).length - headerLength = other.length := by
      rw [List.length_append, length_header, Nat.add_sub_cancel_left]
    rw [payload?_header_append, Nat.mod_eq_of_lt hlength, if_pos hother, if_neg hsize, hleft]

/-- What stands in the place of the header is compared with the header part by part. -/
theorem payload?_of_drop (hsize : headerLength ≤ bytes.length)
    (hdrop : bytes.drop headerLength = payload) (hlength : payload.length < 2 ^ 32) :
    payload? bytes =
      if part 0 4 bytes ≠ part 0 4 (header payload ++ payload) then .error .badMagic
      else if part 4 2 bytes ≠ part 4 2 (header payload ++ payload) then
        .error (.incompatibleVersion (field 4 2 bytes) formatVersion)
      else if part 12 4 bytes ≠ part 12 4 (header payload ++ payload) then
        .error (.lengthMismatch (field 12 4 bytes) payload.length)
      else if part 16 16 bytes ≠ part 16 16 (header payload ++ payload) then
        .error .checksumMismatch
      else .ok payload := by
  have hroom : headerLength = 32 := rfl
  -- the numbers of the fields are as they should be just when their bytes are
  have hversion : field 4 2 bytes = formatVersion ↔
      part 4 2 bytes = part 4 2 (header payload ++ payload) := by
    rw [part_version]
    exact field_eq_iff (by omega) (by decide)
  have hfits : field 12 4 bytes = payload.length ↔
      part 12 4 bytes = part 12 4 (header payload ++ payload) := by
    rw [part_length]
    exact field_eq_iff (by omega) hlength
  simp only [payload?_of_le hsize, hdrop, part_magic, ne_eq, hversion,
    eq_comm (a := payload.length), hfits, part_checksum, eq_comm (a := checksum payload)]

theorem payload?_of_checksum_ne {other : List UInt8} (hlength : payload.length < 2 ^ 32)
    (hother : other.length = payload.length) (hchecksum : checksum other ≠ checksum payload) :
    payload? (header payload ++ other) = .error .checksumMismatch := by
  have hfits : ¬ other.length ≠ payload.length % 2 ^ 32 := by
    rw [Nat.mod_eq_of_lt hlength]
    exact not_not_intro hother
  rw [payload?_header_append, if_neg hfits, if_pos hchecksum]

/-! ## The rules of a damaged snapshot -/

theorem decode_of_payload?_eq_error {e : Error} (h : payload? bytes = .error e) :
    decode bytes = .error e := by
  rw [decode, h]

/-- In front of the payload of some rules, all depends on the header. -/
theorem decode_of_drop (hnames : (rules.map Rule.name).Nodup)
    (hlimit : Payload.WithinLimit rules) (hlength : (Payload.ofRules rules).length < 2 ^ 32)
    (hdrop : bytes.drop headerLength = Payload.ofRules rules) :
    decode bytes = (payload? bytes).map fun _ => rules := by
  have hread := Payload.read_ofRules (show (Payload.ofRules rules).length < 2 ^ 64 by omega)
  rw [if_pos hlimit] at hread
  cases hpayload : payload? bytes with
  | error e => exact decode_of_payload?_eq_error hpayload
  | ok payload =>
    have heq : payload = Payload.ofRules rules := (eq_drop_of_payload? hpayload).trans hdrop
    subst heq
    exact decode_eq_ok_iff.2 ⟨_, hpayload, hread, hnames⟩

/-- The snapshot of rules with distinct names and of no more than the limited depth, when it is
damaged.  Bytes that are a part of it, or of which it is a part, are refused with the length that was
expected.  With other bytes in the place of the header it is refused by the first of its parts that
is another one, and if only the version of the engine and the flags are others, it gives the rules.
With another payload of the same length it is refused, unless the payload has the same checksum. -/
theorem decode_of_damage (hnames : (rules.map Rule.name).Nodup)
    (hdepth : ∀ rule ∈ rules, rule.tree.depth ≤ Tree.maxDepth)
    (hlength : (Payload.ofRules rules).length < 2 ^ 32) :
    (∀ bytes, bytes <+: encode rules ∨ encode rules <+: bytes → bytes ≠ encode rules →
      decode bytes = .error (
        if bytes.length < headerLength then .lengthMismatch headerLength bytes.length
        else .lengthMismatch (Payload.ofRules rules).length (bytes.length - headerLength))) ∧
    (∀ bytes, bytes.length = (encode rules).length →
      bytes.drop headerLength = (encode rules).drop headerLength →
      decode bytes =
        if part 0 4 bytes ≠ part 0 4 (encode rules) then .error .badMagic
        else if part 4 2 bytes ≠ part 4 2 (encode rules) then
          .error (.incompatibleVersion (field 4 2 bytes) formatVersion)
        else if part 12 4 bytes ≠ part 12 4 (encode rules) then
          .error (.lengthMismatch (field 12 4 bytes) (Payload.ofRules rules).length)
        else if part 16 16 bytes ≠ part 16 16 (encode rules) then .error .checksumMismatch
        else .ok rules) ∧
    (∀ bytes, bytes.length = (encode rules).length →
      bytes.take headerLength = (encode rules).take headerLength →
      checksum (bytes.drop headerLength) ≠ checksum (Payload.ofRules rules) →
      decode bytes = .error .checksumMismatch) := by
  have hlimit : Payload.WithinLimit rules := by
    intro rule hrule
    rw [← Tree.depth_eq_height]
    exact hdepth rule hrule
  have htake : (encode rules).take headerLength = header (Payload.ofRules rules) :=
    take_header_append _ _
  have hdrop : (encode rules).drop headerLength = Payload.ofRules rules := drop_header_append _ _
  have hencode : (encode rules).length =
      (header (Payload.ofRules rules)).length + (Payload.ofRules rules).length :=
    List.length_append
  have hheader := length_header (Payload.ofRules rules)
  refine ⟨?cut, ?head, ?payload⟩
  case cut =>
    intro bytes h hne
    exact decode_of_payload?_eq_error (payload?_of_isPrefix hlength h hne)
  case head =>
    intro bytes hbytes hrest
    rw [hdrop] at hrest
    -- the outcomes are those of the payload, with the rules in its place
    rw [decode_of_drop hnames hlimit hlength hrest, payload?_of_drop (by omega) hrest hlength]
    simp only [apply_ite (Except.map fun _ : List UInt8 => rules)]
    rfl
  case payload =>
    intro bytes hbytes hsame hchecksum
    obtain ⟨other, rfl⟩ : ∃ other, bytes = header (Payload.ofRules rules) ++ other := by
      refine ⟨bytes.drop headerLength, ?_⟩
      rw [← htake, ← hsame, List.take_append_drop]
    rw [drop_header_append] at hchecksum
    rw [List.length_append] at hbytes
    exact decode_of_payload?_eq_error (payload?_of_checksum_ne hlength (by omega) hchecksum)

/-- The snapshot of one rule: cut in the header and in the payload, lengthened by one byte, of
another engine, of another version and another length at once, and with one byte of its payload
changed. -/
theorem decode_of_damage_adult :
    let noon : Instant := ⟨⟨2024, 2, 29, 12, 0, 0, 0⟩, by decide⟩
    let rules : List Rule := [⟨"adult", .operand "age >= 18", noon⟩]
    decode ((encode rules).take 31) = .error (.lengthMismatch 32 31) ∧
      decode ((encode rules).take 80) = .error (.lengthMismatch 49 48) ∧
      decode (encode rules ++ [0]) = .error (.lengthMismatch 49 50) ∧
      decode ((encode rules).set 6 9) = .ok rules ∧
      decode (((encode rules).set 4 2).set 12 0) = .error (.incompatibleVersion 2 1) ∧
      decode ((encode rules).set 80 0) = .error .checksumMismatch := by
  intro noon rules
  have hnames : (rules.map Rule.name).Nodup := by decide
  have hdepth : ∀ rule ∈ rules, rule.tree.depth ≤ Tree.maxDepth := by decide +kernel
  have hlength : (Payload.ofRules rules).length = 49 := by decide +kernel
  have hencode : (encode rules).length = 81 := by decide +kernel
  have hsmall : (Payload.ofRules rules).length < 2 ^ 32 := by
    rw [hlength]
    decide
  rcases decode_of_damage hnames hdepth hsmall with ⟨hcut, hhead, hpayload⟩
  have hcuts : ∀ count < 81, decode ((encode rules).take count) = .error (
      if count < headerLength then .lengthMismatch headerLength count
      else .lengthMismatch 49 (count - headerLength)) := by
    intro count hcount
    have htake : ((encode rules).take count).length = count := by
      rw [List.length_take, hencode]
      omega
    have hne : (encode rules).take count ≠ encode rules := by
      intro heq
      rw [heq, hencode] at htake
      omega
    have h := hcut _ (.inl (List.take_prefix count _)) hne
    rwa [htake, hlength] at h
  refine ⟨hcuts 31 (by decide), hcuts 80 (by decide), ?_, ?_, ?_, ?_⟩
  · have h := hcut (encode rules ++ [0]) (.inr (List.prefix_append _ _)) (by simp)
    rw [List.length_append, hencode, hlength] at h
    exact h
  · rw [hhead _ List.length_set (List.drop_set_of_lt (by decide))]
    decide +kernel
  · have hdrop : (((encode rules).set 4 2).set 12 0).drop headerLength =
        (encode rules).drop headerLength := by
      rw [List.drop_set_of_lt (by decide), List.drop_set_of_lt (by decide)]
    rw [hhead _ (by rw [List.length_set, List.length_set]) hdrop]
    decide +kernel
  · refine hpayload _ List.length_set (List.take_set_of_le (by decide)) ?_
    decide +kernel

end Snapshot
end Eligibility
