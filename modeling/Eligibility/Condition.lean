import Eligibility.Text.Name

/-!
# Condition — the text of an operand, taken apart

An operand is a call `name(arguments)` or a comparison `attribute operator literal`.

* `Condition.splitCall?` — the call that a text has the shape of, if any;
* `Condition.splitCompare?` — the text cut at its first two spaces;
* `Condition.unquote` — a literal without one layer of matching quotes;
* `Condition.parse?` — the condition of a text; a call shape wins.
-/

namespace Eligibility

/-- An operand taken apart. -/
inductive Condition where
  /-- A comparison; the literal has lost one layer of matching quotes. -/
  | compare (attr operator literal : String)
  /-- A call of a predicate; the arguments are opaque. -/
  | call (name arguments : String)
deriving DecidableEq, Repr

namespace Condition

def isQuote (c : Char) : Bool :=
  c == '"' || c == '\x27'

/-- The text before the first `mark` and the text after it, if there is one. -/
def splitAt? (mark : Char) (cs : List Char) : Option (List Char × List Char) :=
  match cs.dropWhile (· != mark) with
  | [] => none
  | _ :: rest => some (cs.takeWhile (· != mark), rest)

/-- The text without the character at its end, if that is `mark`. -/
def dropLast? (mark : Char) (cs : List Char) : Option (List Char) :=
  if cs.getLast? = some mark then some cs.dropLast else none

/-- A name of at least one character, and the text between the first `(` and a `)` at the very
end. -/
def splitCall? (cs : List Char) : Option (List Char × List Char) :=
  match splitAt? '(' cs with
  | none => none
  | some (name, rest) =>
    match dropLast? ')' rest with
    | none => none
    | some arguments =>
      if !name.isEmpty && name.all Text.isNameChar then some (name, arguments) else none

/-- The first two parts of a text that single spaces separate, neither of them empty, and all the
rest. -/
def splitCompare? (cs : List Char) : Option (List Char × List Char × List Char) :=
  match splitAt? ' ' cs with
  | none => none
  | some (attr, rest) =>
    match splitAt? ' ' rest with
    | none => none
    | some (operator, literal) =>
      if attr.isEmpty || operator.isEmpty then none else some (attr, operator, literal)

/-- A literal without one layer of matching quotes. -/
def unquote : List Char → List Char
  | [] => []
  | c :: rest => if isQuote c && rest.getLast? = some c then rest.dropLast else c :: rest

/-- The condition that a text spells, if it has the shape of a call or of a comparison. -/
def parse? (text : String) : Option Condition :=
  match splitCall? text.toList with
  | some (name, arguments) => some (call (String.ofList name) (String.ofList arguments))
  | none =>
    match splitCompare? text.toList with
    | some (attr, operator, literal) =>
      some (compare (String.ofList attr) (String.ofList operator)
        (String.ofList (unquote literal)))
    | none => none

end Condition
end Eligibility
