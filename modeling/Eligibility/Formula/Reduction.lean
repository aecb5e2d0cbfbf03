import Eligibility.Formula.Token

/-!
# Reduction — from tokens to a tree

The tokens are read once, from left to right, with two stacks: connectives and open groups that
wait for their right side, and the trees built so far, each with its depth.  Both connectives bind
equally and to the left, so a connective first completes every connective that waits in its group.

* `Reduction.Kind` — what a token is to the reader;
* `Reduction.State` — the two stacks;
* `Reduction.run` — the stacks after some tokens;
* `Formula.ofTokens` — the tree of a list of tokens;
* `Formula.compile` — the tree of a text.
-/

namespace Eligibility
namespace Formula
namespace Reduction

/-- What a token is to the reader. -/
inductive Kind where
  | openGroup
  | closeGroup
  | connective (op : Connective)
  | call
  | word
deriving DecidableEq, Repr

/-- A token that holds a `(` and, later on, ends in `)`. -/
def isCall (token : List Char) : Bool :=
  token.getLast? == some ')' && 1 < token.length && token.contains '('

def kind (token : String) : Kind :=
  if token = "(" then .openGroup
  else if token = ")" then .closeGroup
  else
    match Connective.ofWord? token.toList with
    | some op => .connective op
    | none => if isCall token.toList then .call else .word

def isParenthesis (token : String) : Bool :=
  token == "(" || token == ")"

/-- What waits for its right side. -/
inductive Waiting where
  | group
  | connective (op : Connective)
deriving DecidableEq, Repr

/-- The stacks, their tops first.  Each tree is kept with its depth. -/
structure State where
  waiting : List Waiting
  built : List (Tree × Nat)
deriving DecidableEq, Repr

namespace State

def initial : State :=
  ⟨[], []⟩

/-- The trees after one more operand. -/
def push (s : State) (condition : String) : State :=
  ⟨s.waiting, (.operand condition, 0) :: s.built⟩

end State

/-- Joins the two topmost trees. -/
def join (op : Connective) : List (Tree × Nat) → Except Error (List (Tree × Nat))
  | (right, rightDepth) :: (left, leftDepth) :: rest =>
    let depth := max leftDepth rightDepth + 1
    if Tree.maxDepth < depth then .error .tooDeep
    else .ok ((.branch op left right, depth) :: rest)
  | _ => .error (.missingOperand op)

/-- Completes every connective above the innermost open group. -/
def settle : List Waiting → List (Tree × Nat) → Except Error State
  | .connective op :: waiting, built =>
    match join op built with
    | .error e => .error e
    | .ok built => settle waiting built
  | waiting, built => .ok ⟨waiting, built⟩

/-- Completes the innermost open group and takes it away. -/
def closeGroup (s : State) : Except Error State :=
  match settle s.waiting s.built with
  | .error e => .error e
  | .ok settled =>
    match settled.waiting with
    | .group :: waiting => .ok ⟨waiting, settled.built⟩
    | _ => .error .unbalancedParentheses

/-- Completes the connectives of the group, then lets a new one wait. -/
def pushConnective (op : Connective) (s : State) : Except Error State :=
  match settle s.waiting s.built with
  | .error e => .error e
  | .ok settled => .ok ⟨.connective op :: settled.waiting, settled.built⟩

/-- The condition text of three words. -/
def conditionText (attr operator value : String) : String :=
  attr ++ " " ++ operator ++ " " ++ value

/-- The stacks after reading tokens. -/
def run (s : State) : List String → Except Error State
  | [] => .ok s
  | token :: rest =>
    match kind token with
    | .openGroup => run ⟨.group :: s.waiting, s.built⟩ rest
    | .closeGroup =>
      match closeGroup s with
      | .error e => .error e
      | .ok s => run s rest
    | .connective op =>
      match pushConnective op s with
      | .error e => .error e
      | .ok s => run s rest
    | .call => run (s.push token) rest
    | .word =>
      match rest with
      | operator :: value :: rest =>
        -- these two are taken as they are, keywords and calls included
        if isParenthesis operator || isParenthesis value then .error (.incompleteCondition token)
        else run (s.push (conditionText token operator value)) rest
      | _ => .error (.incompleteCondition token)

/-- The one tree that is left once everything that waits is completed. -/
def finish (s : State) : Except Error Tree :=
  match settle s.waiting s.built with
  | .error e => .error e
  | .ok ⟨[], [(tree, _)]⟩ => .ok tree
  | .ok ⟨[], built⟩ => .error (.disconnected built.length)
  | .ok ⟨_ :: _, _⟩ => .error .unbalancedParentheses

end Reduction

/-- The tree of a list of tokens. -/
def ofTokens (tokens : List String) : Except Error Tree :=
  if tokens.isEmpty then .error .empty
  else
    match Reduction.run .initial tokens with
    | .error e => .error e
    | .ok s => Reduction.finish s

/-- The tree of a rule text. -/
def compile (text : String) : Except Error Tree :=
  match tokenize text with
  | .error e => .error e
  | .ok tokens => ofTokens tokens

end Formula
end Eligibility
