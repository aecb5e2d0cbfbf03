import Eligibility.Proofs.Snapshot.Payload
import Eligibility.Snapshot.Basic

/-!
# Header — the parts of a header at their places

A header is written as a row of parts and read at fixed offsets.  Writer and reader mean the same
parts, whatever bytes follow, and a field of some bytes holds a number just when its bytes are those
that the number is written in.

* `Blake3.littleEndian_ofLittleEndian`, `Snapshot.field_eq_iff` — numbers and their bytes;
* `Snapshot.part` — some bytes of a snapshot, with the parts of a header;
* `Snapshot.payload?_of_le` — the checks of any bytes, part by part;
* `Snapshot.payload?_header_append`, `Snapshot.payload?_header` — the header of one payload in front
  of another, and in front of its own.
-/

namespace Eligibility

namespace Blake3

theorem length_hash (bytes : List UInt8) : (hash bytes).length = 32 := by
  simp [hash, List.length_flatMap, length_littleEndian, List.map_const']

/-- Bytes are what their number is written in. -/
theorem littleEndian_ofLittleEndian (bytes : List UInt8) :
    littleEndian bytes.length (ofLittleEndian bytes) = bytes := by
  induction bytes with
  | nil => rfl
  | cons byte rest ih =>
    have hcons : ofLittleEndian (byte :: rest) = byte.toNat + 256 * ofLittleEndian rest := rfl
    have hbyte : byte.toNat < 256 := byte.toNat_lt
    -- the first byte is the remainder by 256 and the rest is written for the quotient
    have hlow : (byte.toNat + 256 * ofLittleEndian rest).toUInt8 = byte := by
      rw [← UInt8.toNat_inj, UInt8.toNat_ofNat']
      omega
    have hhigh : (byte.toNat + 256 * ofLittleEndian rest) / 256 = ofLittleEndian rest := by
      omega
    rw [List.length_cons, littleEndian, hcons, hlow, hhigh, ih]

end Blake3

namespace Snapshot

open Blake3 (littleEndian ofLittleEndian length_littleEndian ofLittleEndian_littleEndian
  littleEndian_ofLittleEndian)

/-! ## Parts -/

/-- Some bytes behind `offset` others. -/
def part (offset count : Nat) (bytes : List UInt8) : List UInt8 :=
  (bytes.drop offset).take count

theorem length_part {offset count : Nat} {bytes : List UInt8} (h : offset + count ≤ bytes.length) :
    (part offset count bytes).length = count := by
  rw [part, List.length_take, List.length_drop]
  omega

/-- A field holds a number just when it has the bytes that the number is written in. -/
theorem field_eq_iff {offset count n : Nat} {bytes : List UInt8}
    (h : offset + count ≤ bytes.length) (hn : n < 256 ^ count) :
    field offset count bytes = n ↔ part offset count bytes = littleEndian count n := by
  have hwritten := littleEndian_ofLittleEndian (part offset count bytes)
  rw [length_part h] at hwritten
  have hfield : field offset count bytes = ofLittleEndian (part offset count bytes) := rfl
  rw [hfield]
  -- back from the number the bytes are written again, as many as the field has
  constructor
  · intro hvalue
    rw [← hwritten, hvalue]
  · intro hpart
    rw [hpart, ofLittleEndian_littleEndian, Nat.mod_eq_of_lt hn]

/-! ## The parts of a header -/

theorem length_checksum (payload : List UInt8) : (checksum payload).length = 16 := by
  simp [checksum, Blake3.length_hash]

theorem length_header (payload : List UInt8) : (header payload).length = headerLength := by
  simp [header, magic, length_littleEndian, length_checksum, headerLength]

variable (payload rest : List UInt8)

theorem take_header_append : (header payload ++ rest).take headerLength = header payload :=
  List.take_left' (length_header payload)

theorem drop_header_append : (header payload ++ rest).drop headerLength = rest :=
  List.drop_left' (length_header payload)

theorem part_magic : part 0 4 (header payload ++ rest) = magic :=
  rfl

theorem part_version : part 4 2 (header payload ++ rest) = littleEndian 2 formatVersion :=
  rfl

theorem part_length : part 12 4 (header payload ++ rest) = littleEndian 4 payload.length :=
  rfl

theorem part_checksum : part 16 16 (header payload ++ rest) = checksum payload := by
  have hdrop : (header payload ++ rest).drop 16 = checksum payload ++ rest := rfl
  rw [part, hdrop, List.take_left' (length_checksum payload)]

/-! ## The checks -/

/-- Bytes with room for a header are checked part by part.  The flags and the version of the engine
are not looked at. -/
theorem payload?_of_le {bytes : List UInt8} (h : headerLength ≤ bytes.length) :
    payload? bytes =
      if part 0 4 bytes ≠ magic then .error .badMagic
      else if field 4 2 bytes ≠ formatVersion then
        .error (.incompatibleVersion (field 4 2 bytes) formatVersion)
      else if (bytes.drop headerLength).length ≠ field 12 4 bytes then
        .error (.lengthMismatch (field 12 4 bytes) (bytes.drop headerLength).length)
      else if checksum (bytes.drop headerLength) ≠ part 16 16 bytes then .error .checksumMismatch
      else .ok (bytes.drop headerLength) :=
  if_neg (Nat.not_lt.2 h)

/-- A payload that is accepted is what stands behind the header. -/
theorem eq_drop_of_payload? {bytes payload : List UInt8} (h : payload? bytes = .ok payload) :
    payload = bytes.drop headerLength := by
  by_cases hsize : headerLength ≤ bytes.length
  · rw [payload?_of_le hsize] at h
    -- each of the four checks that fails is an error
    iterate 4
      split at h
      · cases h
    cases h
    rfl
  · rw [payload?, if_pos (Nat.lt_of_not_le hsize)] at h
    cases h

/-- A header in front of any payload: only the length and the checksum of the payload can differ from
what it states. -/
theorem payload?_header_append (other : List UInt8) :
    payload? (header payload ++ other) =
      if other.length ≠ payload.length % 2 ^ 32 then
        .error (.lengthMismatch (payload.length % 2 ^ 32) other.length)
      else if checksum other ≠ checksum payload then .error .checksumMismatch
      else .ok other := by
  have hsize : headerLength ≤ (header payload ++ other).length := by
    rw [List.length_append, length_header]
    omega
  have hversion : field 4 2 (header payload ++ other) = formatVersion := rfl
  have hlength : field 12 4 (header payload ++ other) = payload.length % 2 ^ 32 :=
    ofLittleEndian_littleEndian 4 payload.length
  simp only [payload?_of_le hsize, part_magic, hversion, hlength, part_checksum,
    drop_header_append, ne_eq, not_true_eq_false, if_false]

/-- A header fits its payload, unless the length of the payload does not fit into its field. -/
theorem payload?_header :
    payload? (header payload ++ payload) =
      if payload.length < 2 ^ 32 then .ok payload
      else .error (.lengthMismatch (payload.length % 2 ^ 32) payload.length) := by
  rw [payload?_header_append]
  by_cases hlength : payload.length < 2 ^ 32
  · simp only [Nat.mod_eq_of_lt hlength, ne_eq, not_true_eq_false, if_false, hlength, if_true]
  · have hmod : ¬ payload.length = payload.length % 2 ^ 32 := by
      have hlt := Nat.mod_lt payload.length (show 2 ^ 32 > 0 by decide)
      omega
    simp only [ne_eq, hmod, not_false_eq_true, if_true, hlength, if_false]

end Snapshot
end Eligibility
