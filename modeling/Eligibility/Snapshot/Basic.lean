import Eligibility.Snapshot.Payload

/-!
# Basic — snapshots of rules

A snapshot is a header of 32 bytes and a payload.

| offset | bytes | field |
|---|---|---|
| 0 | 4 | the magic bytes |
| 4 | 2 | the format version |
| 6 | 2 | the engine version, for information |
| 8 | 4 | flags, not used |
| 12 | 4 | the length of the payload |
| 16 | 16 | the first half of the BLAKE3 hash of the payload |

* `Snapshot.encode` — the snapshot of rules;
* `Snapshot.decode` — the rules of a snapshot, checked from the outside in: size, magic bytes,
  version, length, hash, payload, number of rules, names.
-/

namespace Eligibility
namespace Snapshot

open Blake3 (littleEndian ofLittleEndian)

def magic : List UInt8 :=
  [0x52, 0x54, 0x52, 0x45]

def formatVersion : Nat :=
  1

def engineVersion : Nat :=
  1

def headerLength : Nat :=
  32

/-- The part of the hash of a payload that the header holds. -/
def checksum (payload : List UInt8) : List UInt8 :=
  (Blake3.hash payload).take 16

/-- The header of a payload; its length is kept modulo `2 ^ 32`. -/
def header (payload : List UInt8) : List UInt8 :=
  magic ++ littleEndian 2 formatVersion ++ littleEndian 2 engineVersion ++ littleEndian 4 0 ++
    littleEndian 4 payload.length ++ checksum payload

/-- The snapshot of some rules. -/
def encode (rules : List Rule) : List UInt8 :=
  let payload := Payload.ofRules rules
  header payload ++ payload

/-- The number in a field of a header. -/
def field (offset count : Nat) (bytes : List UInt8) : Nat :=
  ofLittleEndian ((bytes.drop offset).take count)

/-- The payload of a snapshot whose header fits it. -/
def payload? (bytes : List UInt8) : Except Error (List UInt8) :=
  if bytes.length < headerLength then .error (.lengthMismatch headerLength bytes.length)
  else if bytes.take 4 ≠ magic then .error .badMagic
  else if field 4 2 bytes ≠ formatVersion then
    .error (.incompatibleVersion (field 4 2 bytes) formatVersion)
  else
    let payload := bytes.drop headerLength
    if payload.length ≠ field 12 4 bytes then
      .error (.lengthMismatch (field 12 4 bytes) payload.length)
    else if checksum payload ≠ (bytes.drop 16).take 16 then .error .checksumMismatch
    else .ok payload

/-- The first name that occurs a second time. -/
def firstRepeated? (seen : List String) : List String → Option String
  | [] => none
  | name :: rest => if seen.contains name then some name else firstRepeated? (name :: seen) rest

/-- The rules, if their number is the announced one and their names are distinct. -/
def checked (announced : Nat) (rules : List Rule) : Except Error (List Rule) :=
  if announced ≠ rules.length then .error (.countMismatch announced rules.length)
  else
    match firstRepeated? [] (rules.map Rule.name) with
    | some name => .error (.duplicateName name)
    | none => .ok rules

/-- The rules of a snapshot. -/
def decode (bytes : List UInt8) : Except Error (List Rule) :=
  match payload? bytes with
  | .error e => .error e
  | .ok payload =>
    match Payload.read payload with
    | .error e => .error e
    | .ok (announced, rules) => checked announced rules

end Snapshot
end Eligibility
