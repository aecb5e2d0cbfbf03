import Eligibility.Binary64.Shortest
import Eligibility.Binary64.Text

/-!
# Value — what records hold and literals denote

* `ValueType`, the declared type of an attribute;
* `Value`, a number or a string;
* `Comparator`, the six comparison operators and their spellings;
* `Value.order?`, the loose order between a record's value and a literal;
* `Value.compare`, the verdict of an operator under that order.

The order is loose because the record's value is first brought into the type of the literal: a
string is read as a number, a number is written out as a string.  A string that is no number has
no place in the order, so that only `!=` holds of it.
-/

namespace Eligibility

/-- The declared type of an attribute. -/
inductive ValueType where
  | number
  | string
deriving DecidableEq, Repr

namespace ValueType

def name : ValueType → String
  | number => "number"
  | string => "string"

def ofName? (text : String) : Option ValueType :=
  if text = "number" then some number
  else if text = "string" then some string
  else none

@[simp] theorem ofName?_name (ty : ValueType) : ofName? ty.name = some ty := by
  cases ty <;> decide

end ValueType

/-- A value of a record, or the value that a literal stands for. -/
inductive Value where
  | number (x : Binary64)
  | string (text : String)
deriving DecidableEq, Repr

/-- A comparison operator. -/
inductive Comparator where
  | eq
  | ne
  | gt
  | ge
  | lt
  | le
deriving DecidableEq, Repr

namespace Comparator

def all : List Comparator :=
  [eq, ne, gt, ge, lt, le]

def symbol : Comparator → String
  | eq => "="
  | ne => "!="
  | gt => ">"
  | ge => ">="
  | lt => "<"
  | le => "<="

/-- The operator that a text stands for. -/
def ofSymbol? (text : String) : Option Comparator :=
  if text = "=" then some eq
  else if text = "!=" then some ne
  else if text = ">" then some gt
  else if text = ">=" then some ge
  else if text = "<" then some lt
  else if text = "<=" then some le
  else none

@[simp] theorem ofSymbol?_symbol (op : Comparator) : ofSymbol? op.symbol = some op := by
  cases op <;> decide

/-- Reading and writing agree: an operator is read from its own symbol only. -/
theorem ofSymbol?_eq_some_iff {text : String} {op : Comparator} :
    ofSymbol? text = some op ↔ op.symbol = text := by
  constructor
  · fun_cases ofSymbol? text with
    | case1 | case2 | case3 | case4 | case5 | case6 =>
      rintro ⟨⟩
      symm
      assumption
    | case7 =>
      intro h
      cases h
  · rintro rfl
    exact ofSymbol?_symbol op

/-- Just the symbols of the six operators are read as one. -/
theorem isSome_ofSymbol?_iff {text : String} :
    (ofSymbol? text).isSome = true ↔ text ∈ all.map symbol := by
  have hall (op : Comparator) : op ∈ all := by
    cases op <;> decide
  simp [Option.isSome_iff_exists, ofSymbol?_eq_some_iff, hall]

/-- Does the operator hold between two things whose order is known, or unknown? -/
def holds : Comparator → Option Ordering → Bool
  | eq, order => order == some .eq
  | ne, order => order != some .eq
  | gt, order => order == some .gt
  | ge, order => order == some .gt || order == some .eq
  | lt, order => order == some .lt
  | le, order => order == some .lt || order == some .eq

end Comparator

namespace Value

/-- The type that a value has of itself. -/
def type : Value → ValueType
  | number _ => .number
  | string _ => .string

/-- The value of a literal at a declared type; a number has to be finite. -/
def ofLiteral? : ValueType → String → Option Value
  | .number, text => (Binary64.ofLiteral? text).map number
  | .string, text => some (string text)

/-- The order between a record's value and a literal, if they have one.  Strings are ordered by
code points. -/
def order? : Value → Value → Option Ordering
  | number x, number y => x.compare? y
  | string s, string t => some (compare s t)
  | string s, number y => (Binary64.ofLiteral? s).bind fun x => x.compare? y
  | number x, string t => some (compare x.toText t)

/-- The verdict of an operator between a record's value and a literal. -/
def compare (actual : Value) (op : Comparator) (literal : Value) : Bool :=
  op.holds (actual.order? literal)

/-- The written form: a number plainly, a string between quotes and unescaped. -/
def display : Value → String
  | number x => x.toText
  | string text => "\"" ++ text ++ "\""

end Value
end Eligibility
