import Eligibility.Tree.Defect

/-!
# Error — why a snapshot is refused

The reasons that reading a snapshot gives, and the wording of each that has one.
-/

namespace Eligibility
namespace Snapshot

/-- A reason why bytes are no snapshot of rules. -/
inductive Error where
  /-- There is nothing to read. -/
  | unreadable
  | badMagic
  | incompatibleVersion (found supported : Nat)
  | lengthMismatch (expected actual : Nat)
  | checksumMismatch
  /-- The payload is not the form of any rules. -/
  | undecodable
  /-- A stored structure of the payload is no tree. -/
  | defect (defect : Tree.Defect)
  | countMismatch (announced actual : Nat)
  | duplicateName (name : String)
deriving DecidableEq, Repr

namespace Error

def message? : Error → Option String
  | unreadable => none
  | badMagic => some "not a ruletree snapshot: invalid magic bytes"
  | incompatibleVersion found supported =>
    some ("incompatible format version: blob is v" ++ toString found ++ ", engine supports v" ++
      toString supported)
  | lengthMismatch expected actual =>
    some ("payload length mismatch: expected " ++ toString expected ++ " bytes, got " ++
      toString actual)
  | checksumMismatch => some "integrity check failed: BLAKE3 checksum mismatch"
  | undecodable => none
  | defect d => some d.message
  | countMismatch announced actual =>
    some ("validation failed: metadata says " ++ toString announced ++
      " rules but payload has " ++ toString actual)
  | duplicateName name => some ("validation failed: duplicate rule name '" ++ name ++ "'")

end Error
end Snapshot
end Eligibility
