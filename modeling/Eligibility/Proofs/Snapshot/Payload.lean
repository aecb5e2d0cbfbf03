import Mathlib.Algebra.Order.Ring.Nat
import Eligibility.Proofs.Instant.RoundTrip
import Eligibility.Proofs.Tree.Stored
import Eligibility.Snapshot.Payload

/-!
# Payload — the readers undo the writers

Each reader takes from the output of its writer, whatever stands behind it, just the bytes that
were written.  Only two things can go wrong on the way: a number that does not fit into eight
bytes, which no payload of less than `2 ^ 64` bytes holds, and a tree that is too deep.

* `Payload.readNumber_number`, `Payload.readText_text` — numbers and texts;
* `Payload.readNode_node`, `Payload.readTree_stored` — structures of any shape;
* `Payload.readTree_node` — trees;
* `Payload.readRule_rule`, `Payload.readRules_flatMap` — rules;
* `Payload.read_ofRules` — a whole payload.
-/

namespace Eligibility

namespace Blake3

/-- A number that is too large for its bytes is kept modulo their range. -/
theorem ofLittleEndian_littleEndian (count n : Nat) :
    ofLittleEndian (littleEndian count n) = n % 256 ^ count := by
  induction count generalizing n with
  | zero =>
    rw [Nat.pow_zero, Nat.mod_one]
    rfl
  | succ count ih =>
    have hbyte : n.toUInt8.toNat = n % 256 := by simp
    have hcons : ofLittleEndian (littleEndian (count + 1) n) =
        n.toUInt8.toNat + 256 * ofLittleEndian (littleEndian count (n / 256)) := rfl
    calc
      ofLittleEndian (littleEndian (count + 1) n)
          = n % 256 + 256 * (n / 256 % 256 ^ count) := by rw [hcons, hbyte, ih]
      _ = n % (256 * 256 ^ count) := (Nat.mod_mul).symm
      _ = n % 256 ^ (count + 1) := by rw [Nat.pow_succ, Nat.mul_comm]

end Blake3

namespace Snapshot
namespace Payload

open Blake3 (littleEndian ofLittleEndian length_littleEndian ofLittleEndian_littleEndian)

/-! ## Numbers and texts -/

theorem readBytes_append (bytes rest : List UInt8) :
    readBytes bytes.length (bytes ++ rest) = .ok (bytes, rest) := by
  simp [readBytes]

theorem readFixed_littleEndian {count n : Nat} (h : n < 256 ^ count) (rest : List UInt8) :
    readFixed count (littleEndian count n ++ rest) = .ok (n, rest) := by
  have hread := readBytes_append (littleEndian count n) rest
  rw [length_littleEndian] at hread
  simp [readFixed, hread, ofLittleEndian_littleEndian, Nat.mod_eq_of_lt h]

theorem readNumber_number {n : Nat} (h : n < 2 ^ 64) (rest : List UInt8) :
    readNumber (number n ++ rest) = .ok (n, rest) := by
  by_cases hbyte : n < 251
  · have hnat : n.toUInt8.toNat = n := by
      rw [UInt8.toNat_ofNat']
      omega
    have hmark : n.toUInt8 < 251 := by
      rw [UInt8.lt_iff_toNat_lt, hnat]
      exact hbyte
    simp [number, hbyte, littleEndian, readNumber, hmark, hnat]
  · by_cases htwo : n < 65536
    · have hsize : n < 256 ^ 2 := htwo
      have hread := readFixed_littleEndian hsize rest
      rw [number, if_neg hbyte, if_pos htwo]
      simpa [readNumber] using hread
    · by_cases hfour : n < 4294967296
      · have hsize : n < 256 ^ 4 := hfour
        have hread := readFixed_littleEndian hsize rest
        rw [number, if_neg hbyte, if_neg htwo, if_pos hfour]
        simpa [readNumber] using hread
      · have hsize : n < 256 ^ 8 := h
        have hread := readFixed_littleEndian hsize rest
        rw [number, if_neg hbyte, if_neg htwo, if_neg hfour]
        simpa [readNumber] using hread

theorem number_ne_nil (n : Nat) : number n ≠ [] := by
  unfold number
  repeat' split
  all_goals simp [littleEndian]

theorem fromUTF8?_utf8 (s : String) : String.fromUTF8? ⟨(utf8 s).toArray⟩ = some s := by
  have hbytes : (⟨(utf8 s).toArray⟩ : ByteArray) = s.toByteArray := by
    simp [utf8]
  rw [hbytes, String.fromUTF8?, dif_pos s.isValidUTF8]
  rfl

theorem readText_text {s : String} (h : (text s).length < 2 ^ 64) (rest : List UInt8) :
    readText (text s ++ rest) = .ok (s, rest) := by
  have hlength : (utf8 s).length < 2 ^ 64 := by
    rw [text, List.length_append] at h
    omega
  rw [text, List.append_assoc, readText, readNumber_number hlength]
  simp [readBytes_append, fromUTF8?_utf8]

/-! ## Nodes -/

/-- The bytes of a child: a mark, and the node if there is one. -/
def child : Option Stored → List UInt8
  | none => [0]
  | some stored => 1 :: node stored

theorem node_eq (kind value : String) (left right : Option Stored) :
    node (.node kind value left right) =
      text kind ++ (text value ++ (child left ++ child right)) := by
  cases left <;> cases right <;> simp [node, child]

theorem readChild_child {fuel : Nat} {stored? : Option Stored}
    (h : ∀ stored, stored? = some stored → ∀ rest,
      readNode fuel (node stored ++ rest) = .ok (stored, rest)) (rest : List UInt8) :
    readChild (fuel + 1) (child stored? ++ rest) = .ok (stored?, rest) := by
  cases stored? with
  | none => simp [child, readChild]
  | some stored => simp [child, readChild, h stored rfl rest]

/-- A structure of any shape is read with fuel for two calls on every level. -/
theorem readNode_node {stored : Stored} {fuel : Nat} (hfuel : 2 * stored.height + 2 ≤ fuel)
    (hsize : (node stored).length < 2 ^ 64) (rest : List UInt8) :
    readNode fuel (node stored ++ rest) = .ok (stored, rest) := by
  induction stored using Stored.childwise generalizing fuel rest with
  | node kind value left right ihLeft ihRight =>
    rw [node_eq] at hsize ⊢
    simp only [List.length_append] at hsize
    rw [Stored.height] at hfuel
    have hkind := readText_text (s := kind) (by omega)
    have hvalue := readText_text (s := value) (by omega)
    -- one call for the node and one for the mark of a child, which leaves both the same fuel
    obtain ⟨fuel, rfl⟩ : ∃ rest, fuel = rest + 2 := ⟨fuel - 2, by omega⟩
    have hleft : ∀ rest, readChild (fuel + 1) (child left ++ rest) = .ok (left, rest) := by
      refine readChild_child ?_
      rintro stored rfl
      simp only [Stored.childHeight, child, List.length_cons] at hfuel hsize
      exact ihLeft stored rfl (by omega) (by omega)
    have hright : ∀ rest, readChild (fuel + 1) (child right ++ rest) = .ok (right, rest) := by
      refine readChild_child ?_
      rintro stored rfl
      simp only [Stored.childHeight, child, List.length_cons] at hfuel hsize
      exact ihRight stored rfl (by omega) (by omega)
    simp only [List.append_assoc, readNode, hkind, hvalue, hleft, hright]

theorem childHeight_lt_length_child {stored? : Option Stored}
    (h : ∀ stored, stored? = some stored → stored.height < (node stored).length) :
    Stored.childHeight stored? < (child stored?).length := by
  cases stored? with
  | none => simp [Stored.childHeight, child]
  | some stored =>
    have hstored := h stored rfl
    simp only [Stored.childHeight, child, List.length_cons]
    omega

theorem height_lt_length_node (stored : Stored) : stored.height < (node stored).length := by
  induction stored using Stored.childwise with
  | node kind value left right ihLeft ihRight =>
    have hleft := childHeight_lt_length_child ihLeft
    have hright := childHeight_lt_length_child ihRight
    rw [node_eq]
    simp only [Stored.height, List.length_append]
    omega

/-! ## Trees -/

/-- Reading the bytes of a structure is loading the structure. -/
theorem readTree_stored (stored : Stored) (hsize : (node stored).length < 2 ^ 64)
    (rest : List UInt8) :
    readTree (node stored ++ rest) =
      match stored.toTree with
      | .error defect => .error (.defect defect)
      | .ok tree => .ok (tree, rest) := by
  have hfuel : 2 * stored.height + 2 ≤ 2 * (node stored ++ rest).length + 1 := by
    -- there are more bytes than levels
    have hheight := height_lt_length_node stored
    rw [List.length_append]
    omega
  rw [readTree, readNode_node hfuel hsize]
  cases htree : stored.toTree with
  | error defect => simp [treeOf, htree]
  | ok tree => simp [treeOf, htree]

/-- A tree is read back from its bytes, unless it is too deep. -/
theorem readTree_node (tree : Tree) (hsize : (node tree.toStored).length < 2 ^ 64)
    (rest : List UInt8) :
    readTree (node tree.toStored ++ rest) =
      if tree.height ≤ Tree.maxDepth then .ok (tree, rest) else .error (.defect .tooDeep) := by
  rw [readTree_stored tree.toStored hsize, Tree.toTree_toStored]
  by_cases hheight : tree.height ≤ Tree.maxDepth
  · simp only [hheight, if_true]
  · simp only [hheight, if_false]

/-! ## Rules -/

theorem readInstant_text {i : Instant} (hsize : (text i.text).length < 2 ^ 64)
    (rest : List UInt8) : readInstant (text i.text ++ rest) = .ok (i, rest) := by
  simp [readInstant, readText_text hsize, Instant.ofText?_text]

theorem readRule_rule {r : Rule} (hsize : (rule r).length < 2 ^ 64) (rest : List UInt8) :
    readRule (rule r ++ rest) =
      if r.tree.height ≤ Tree.maxDepth then .ok (r, rest) else .error (.defect .tooDeep) := by
  simp only [rule, List.length_append] at hsize
  have hname := readText_text (s := r.name) (by omega)
  have htree := readTree_node r.tree (by omega)
  have hcreated := readInstant_text (i := r.createdAt) (by omega)
  simp only [rule, List.append_assoc, readRule, hname, htree]
  by_cases hheight : r.tree.height ≤ Tree.maxDepth
  · simp only [hheight, if_true, hcreated]
  · simp only [hheight, if_false]

/-- No tree of some rules is too deep. -/
abbrev WithinLimit (rules : List Rule) : Prop :=
  ∀ r ∈ rules, r.tree.height ≤ Tree.maxDepth

theorem withinLimit_cons {r : Rule} {rules : List Rule} :
    WithinLimit (r :: rules) ↔ r.tree.height ≤ Tree.maxDepth ∧ WithinLimit rules :=
  List.forall_mem_cons

/-- Rules in a row are read back, unless one of their trees is too deep. -/
theorem readRules_flatMap {rules : List Rule} (hsize : (rules.flatMap rule).length < 2 ^ 64)
    (rest : List UInt8) :
    readRules rules.length (rules.flatMap rule ++ rest) =
      if WithinLimit rules then .ok (rules, rest) else .error (.defect .tooDeep) := by
  induction rules with
  | nil => simp [readRules]
  | cons r rules ih =>
    rw [List.flatMap_cons, List.length_append] at hsize
    have hhead := readRule_rule (r := r) (by omega)
    have htail := ih (by omega)
    simp only [List.length_cons, List.flatMap_cons, List.append_assoc, readRules, hhead]
    by_cases hheight : r.tree.height ≤ Tree.maxDepth
    · by_cases hrest : WithinLimit rules
      · rw [if_pos hrest] at htail
        rw [if_pos (withinLimit_cons.2 ⟨hheight, hrest⟩)]
        simp only [hheight, if_true, htail]
      · rw [if_neg hrest] at htail
        rw [if_neg fun h => hrest (withinLimit_cons.1 h).2]
        simp only [hheight, if_true, htail]
    · rw [if_neg fun h => hheight (withinLimit_cons.1 h).1]
      simp only [hheight, if_false]

theorem length_le_length_flatMap (rules : List Rule) :
    rules.length ≤ (rules.flatMap rule).length := by
  induction rules with
  | nil => exact Nat.le_refl _
  | cons r rules ih =>
    have hname := List.length_pos_iff.2 (number_ne_nil (utf8 r.name).length)
    simp only [List.flatMap_cons, List.length_append, List.length_cons, rule, text]
    omega

/-- A payload gives its rules back, with their number, unless a tree is too deep. -/
theorem read_ofRules {rules : List Rule} (hsize : (ofRules rules).length < 2 ^ 64) :
    read (ofRules rules) =
      if WithinLimit rules then .ok (rules.length, rules) else .error (.defect .tooDeep) := by
  simp only [ofRules, List.length_append] at hsize
  -- every rule takes a byte at least, so that the number of rules fits into eight bytes
  have hcount := length_le_length_flatMap rules
  have hnumber := readNumber_number (n := rules.length) (by omega)
  have hrules := readRules_flatMap (show (rules.flatMap rule).length < 2 ^ 64 by omega) []
  rw [List.append_nil] at hrules
  simp only [read, ofRules, List.append_assoc, hnumber, hrules]
  by_cases hheight : WithinLimit rules
  · rw [if_pos hheight, if_pos hheight]
  · rw [if_neg hheight, if_neg hheight]

end Payload
end Snapshot
end Eligibility
