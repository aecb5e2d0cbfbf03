import Eligibility.Tree.Basic

/-!
# Combination — several rules as one

A combination is true where at least one of its parts is.  The parts are folded from the left, and
the fold carries the depth of the tree so far.

* `Combination.nameOf` — the name derived from the names of the parts;
* `Combination.fold` — the tree and its depth after some more parts;
* `Combination.ofParts` — the combination of named trees.
-/

namespace Eligibility

/-- A tree put together from several, with its derived name. -/
structure Combination where
  name : String
  tree : Tree
deriving DecidableEq, Repr

namespace Combination

/-- A reason why trees are not combined. -/
inductive Error where
  | empty
  | tooDeep
deriving DecidableEq, Repr

def Error.message : Error → String
  | empty => "at least one rule is required to combine"
  | tooDeep =>
    "combined tree would be deeper than " ++ toString Tree.maxDepth ++ " operator levels"

/-- The name of a combination of rules with the given names. -/
def nameOf (names : List String) : String :=
  "Combined: " ++ " + ".intercalate names

/-- A tree with its depth, joined with further trees one by one. -/
def fold : Tree × Nat → List Tree → Except Error (Tree × Nat)
  | folded, [] => .ok folded
  | (tree, depth), part :: rest =>
    let depth := max depth part.depth + 1
    if Tree.maxDepth < depth then .error .tooDeep
    else fold (.branch .or tree part, depth) rest

/-- The combination of named trees, in the order given. -/
def ofParts : List (String × Tree) → Except Error Combination
  | [] => .error .empty
  | part :: rest =>
    match fold (part.2, part.2.depth) (rest.map Prod.snd) with
    | .error e => .error e
    | .ok (tree, _) => .ok ⟨nameOf ((part :: rest).map Prod.fst), tree⟩

end Combination
end Eligibility
