import Eligibility.Blake3
import Eligibility.Rule
import Eligibility.Snapshot.Error

/-!
# Payload — rules as bytes

Numbers are written in one byte below 251, otherwise in two, four or eight bytes after a mark.  A
text is its length in bytes and its UTF-8 form, an optional part is preceded by a byte 0 or 1, and
a list by its number of elements.  The payload is the number of rules, once on its own account and
once as the length of the list, and the rules with their trees in stored form and their times as
text.

* `Payload.number`, `Payload.text`, `Payload.node`, `Payload.rule` — the writers;
* `Payload.readNumber`, … — the readers, each with the bytes that it leaves.
-/

namespace Eligibility
namespace Snapshot
namespace Payload

open Blake3 (littleEndian ofLittleEndian)

/-! ## Writing -/

def number (n : Nat) : List UInt8 :=
  if n < 251 then littleEndian 1 n
  else if n < 65536 then 251 :: littleEndian 2 n
  else if n < 4294967296 then 252 :: littleEndian 4 n
  else 253 :: littleEndian 8 n

/-- The UTF-8 form of a text. -/
def utf8 (s : String) : List UInt8 :=
  s.toUTF8.data.toList

def text (s : String) : List UInt8 :=
  number (utf8 s).length ++ utf8 s

/-- A stored structure, with the bytes of its children in place. -/
def node : Stored → List UInt8
  | .node kind value left right =>
    text kind ++ text value ++
      (match left with | none => [0] | some left => 1 :: node left) ++
      (match right with | none => [0] | some right => 1 :: node right)

def rule (r : Rule) : List UInt8 :=
  text r.name ++ node r.tree.toStored ++ text r.createdAt.text

/-- The payload of some rules. -/
def ofRules (rules : List Rule) : List UInt8 :=
  number rules.length ++ number rules.length ++ rules.flatMap rule

/-! ## Reading -/

/-- The first `count` bytes, and the rest. -/
def readBytes (count : Nat) (bytes : List UInt8) : Except Error (List UInt8 × List UInt8) :=
  if bytes.length < count then .error .undecodable
  else .ok (bytes.take count, bytes.drop count)

/-- A number of `count` bytes, and the rest. -/
def readFixed (count : Nat) (bytes : List UInt8) : Except Error (Nat × List UInt8) :=
  match readBytes count bytes with
  | .error e => .error e
  | .ok (taken, rest) => .ok (ofLittleEndian taken, rest)

/-- A number and the rest.  More bytes than needed are accepted. -/
def readNumber : List UInt8 → Except Error (Nat × List UInt8)
  | [] => .error .undecodable
  | mark :: rest =>
    if mark < 251 then .ok (mark.toNat, rest)
    else if mark = 251 then readFixed 2 rest
    else if mark = 252 then readFixed 4 rest
    else if mark = 253 then readFixed 8 rest
    else .error .undecodable

def readText (bytes : List UInt8) : Except Error (String × List UInt8) :=
  match readNumber bytes with
  | .error e => .error e
  | .ok (length, rest) =>
    match readBytes length rest with
    | .error e => .error e
    | .ok (taken, rest) =>
      match String.fromUTF8? ⟨taken.toArray⟩ with
      | none => .error .undecodable
      | some s => .ok (s, rest)

mutual

/-- A stored structure and the rest.  The fuel bounds the number of nodes. -/
def readNode : Nat → List UInt8 → Except Error (Stored × List UInt8)
  | 0, _ => .error .undecodable
  | fuel + 1, bytes =>
    match readText bytes with
    | .error e => .error e
    | .ok (kind, rest) =>
      match readText rest with
      | .error e => .error e
      | .ok (value, rest) =>
        match readChild fuel rest with
        | .error e => .error e
        | .ok (left, rest) =>
          match readChild fuel rest with
          | .error e => .error e
          | .ok (right, rest) => .ok (.node kind value left right, rest)

/-- An optional stored structure and the rest. -/
def readChild : Nat → List UInt8 → Except Error (Option Stored × List UInt8)
  | 0, _ => .error .undecodable
  | _ + 1, [] => .error .undecodable
  | fuel + 1, mark :: rest =>
    if mark = 0 then .ok (none, rest)
    else if mark = 1 then
      match readNode fuel rest with
      | .error e => .error e
      | .ok (node, rest) => .ok (some node, rest)
    else .error .undecodable

end

/-- The tree of a stored structure. -/
def treeOf (node : Stored) : Except Error Tree :=
  match node.toTree with
  | .error defect => .error (.defect defect)
  | .ok tree => .ok tree

/-- A tree and the rest. -/
def readTree (bytes : List UInt8) : Except Error (Tree × List UInt8) :=
  -- each call of a reader takes at least one byte, so this much fuel is never used up
  match readNode (2 * bytes.length + 1) bytes with
  | .error e => .error e
  | .ok (node, rest) =>
    match treeOf node with
    | .error e => .error e
    | .ok tree => .ok (tree, rest)

/-- A time and the rest. -/
def readInstant (bytes : List UInt8) : Except Error (Instant × List UInt8) :=
  match readText bytes with
  | .error e => .error e
  | .ok (text, rest) =>
    match Instant.ofText? text with
    | none => .error .undecodable
    | some i => .ok (i, rest)

/-- A rule and the rest. -/
def readRule (bytes : List UInt8) : Except Error (Rule × List UInt8) :=
  match readText bytes with
  | .error e => .error e
  | .ok (name, rest) =>
    match readTree rest with
    | .error e => .error e
    | .ok (tree, rest) =>
      match readInstant rest with
      | .error e => .error e
      | .ok (createdAt, rest) => .ok (⟨name, tree, createdAt⟩, rest)

/-- Some rules in a row and the rest. -/
def readRules : Nat → List UInt8 → Except Error (List Rule × List UInt8)
  | 0, bytes => .ok ([], bytes)
  | count + 1, bytes =>
    match readRule bytes with
    | .error e => .error e
    | .ok (rule, rest) =>
      match readRules count rest with
      | .error e => .error e
      | .ok (rules, rest) => .ok (rule :: rules, rest)

/-- The announced number of rules and the rules.  Bytes after them do not count. -/
def read (bytes : List UInt8) : Except Error (Nat × List Rule) :=
  match readNumber bytes with
  | .error e => .error e
  | .ok (announced, rest) =>
    match readNumber rest with
    | .error e => .error e
    | .ok (count, rest) =>
      match readRules count rest with
      | .error e => .error e
      | .ok (rules, _) => .ok (announced, rules)

end Payload
end Snapshot
end Eligibility
