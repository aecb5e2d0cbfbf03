import Eligibility.Json.Basic

/-!
# Reader — the document of a text

* `Json.readString` — the rest of a string, with its escapes;
* `Json.readNumeral?` — a number;
* `Json.readValue` — a value, followed by `Json.read` for a whole text.

Each reader returns what it leaves unread; after damage it leaves nothing.
-/

namespace Eligibility
namespace Json

/-- The blanks between the parts of a document. -/
def isBlank (c : Char) : Bool :=
  c == ' ' || c == '\n' || c == '\t' || c == '\r'

def skipBlanks (cs : List Char) : List Char :=
  cs.dropWhile isBlank

/-! ## Strings -/

/-- The value of a hexadecimal digit. -/
def hexValue? (c : Char) : Option Nat :=
  if c.isDigit then some (c.toNat - '0'.toNat)
  else if 'a' ≤ c ∧ c ≤ 'f' then some (c.toNat - 'a'.toNat + 10)
  else if 'A' ≤ c ∧ c ≤ 'F' then some (c.toNat - 'A'.toNat + 10)
  else none

/-- The value of four hexadecimal digits. -/
def hexValue4? (a b c d : Char) : Option Nat :=
  match hexValue? a, hexValue? b, hexValue? c, hexValue? d with
  | some a, some b, some c, some d => some (((a * 16 + b) * 16 + c) * 16 + d)
  | _, _, _, _ => none

/-- The character of a one-letter escape. -/
def escaped? (c : Char) : Option Char :=
  if c = '"' ∨ c = '\\' ∨ c = '/' then some c
  else if c = 'b' then some '\x08'
  else if c = 'f' then some '\x0c'
  else if c = 'n' then some '\n'
  else if c = 'r' then some '\r'
  else if c = 't' then some '\t'
  else none

/-- One more code unit before what was read. -/
def consUnit (unit : Nat) : Option (List Nat × List Char) → Option (List Nat × List Char)
  | none => none
  | some (units, rest) => some (unit :: units, rest)

/-- The code units of a string up to its closing quote, and the rest.  An escape of four digits is
one unit, any other character is one too. -/
def readUnits : List Char → Option (List Nat × List Char)
  | [] => none
  | c :: rest =>
    if c = '"' then some ([], rest)
    else if c = '\\' then
      match rest with
      | [] => none
      | kind :: rest =>
        if kind = 'u' then
          match rest with
          | a :: b :: c :: d :: rest =>
            match hexValue4? a b c d with
            | none => none
            | some unit => consUnit unit (readUnits rest)
          | _ => none
        else
          match escaped? kind with
          | none => none
          | some c => consUnit c.toNat (readUnits rest)
    else if c.toNat < 0x20 then none
    else consUnit c.toNat (readUnits rest)

def isHighSurrogate (unit : Nat) : Bool :=
  0xD800 ≤ unit && unit < 0xDC00

def isLowSurrogate (unit : Nat) : Bool :=
  0xDC00 ≤ unit && unit < 0xE000

/-- The characters of code units, unless one of them is half a surrogate pair. -/
def joinUnits : List Nat → Option (List Char)
  | [] => some []
  | high :: low :: rest =>
    if isHighSurrogate high then
      if isLowSurrogate low then
        (joinUnits rest).map
          (Char.ofNat (0x10000 + (high - 0xD800) * 0x400 + (low - 0xDC00)) :: ·)
      else none
    else if isLowSurrogate high then none
    else (joinUnits (low :: rest)).map (Char.ofNat high :: ·)
  | [unit] =>
    if isHighSurrogate unit || isLowSurrogate unit then none else some [Char.ofNat unit]

/-- The text of a string after its opening quote, and the rest. -/
def readString (cs : List Char) : Option (Option String × List Char) :=
  (readUnits cs).map fun r => ((joinUnits r.1).map String.ofList, r.2)

/-! ## Numbers -/

/-- The digits before the point: one zero, or digits that start with another digit. -/
def readWhole? (cs : List Char) : Option (List Nat × List Char) :=
  match Numeral.digits cs with
  | ([], _) => none
  | (0 :: _ :: _, _) => none
  | (ds, rest) => some (ds, rest)

/-- Nothing, or a point and at least one digit. -/
def readFraction? : List Char → Option (List Nat × List Char)
  | '.' :: rest =>
    match Numeral.digits rest with
    | ([], _) => none
    | (ds, rest) => some (ds, rest)
  | cs => some ([], cs)

/-- Nothing, or a mark, an optional sign and at least one digit. -/
def readPower? : List Char → Option (Int × List Char)
  | [] => some (0, [])
  | c :: rest =>
    if c = 'e' ∨ c = 'E' then
      let (negative, unsigned) := Binary64.readSign rest
      match Numeral.digits unsigned with
      | ([], _) => none
      | (ds, rest) =>
        let power : Int := Numeral.ofDigits ds
        some (if negative then -power else power, rest)
    else some (0, c :: rest)

/-- A number without its sign. -/
def readUnsigned? (negative : Bool) (cs : List Char) : Option (Numeral × List Char) :=
  match readWhole? cs with
  | none => none
  | some (whole, rest) =>
    match readFraction? rest with
    | none => none
    | some (fraction, rest) =>
      match readPower? rest with
      | none => none
      | some (power, rest) => some (⟨negative, whole, fraction, power⟩, rest)

def readNumeral? : List Char → Option (Numeral × List Char)
  | '-' :: rest => readUnsigned? true rest
  | cs => readUnsigned? false cs

/-! ## Values -/

/-- What follows a keyword, if the text starts with it. -/
def afterKeyword? : List Char → List Char → Option (List Char)
  | [], rest => some rest
  | _ :: _, [] => none
  | k :: keyword, c :: rest => if k = c then afterKeyword? keyword rest else none

/-- A keyword for a value. -/
def readKeyword (keyword : String) (value : Json) (cs : List Char) : Json × List Char :=
  match afterKeyword? keyword.toList cs with
  | none => (broken, [])
  | some rest => (value, rest)

/-- A value that holds no other: a string, a number or a keyword. -/
def readScalar (cs : List Char) : Json × List Char :=
  match cs with
  | '"' :: rest =>
    match readString rest with
    | none => (broken, [])
    | some (text, rest) => (string text, rest)
  | 'n' :: _ => readKeyword "null" null cs
  | 't' :: _ => readKeyword "true" (bool true) cs
  | 'f' :: _ => readKeyword "false" (bool false) cs
  | _ =>
    match readNumeral? cs with
    | none => (broken, [])
    | some (numeral, rest) => (number numeral, rest)

/-- The key of a member, which has to be a string, and the rest. -/
def readKey? (cs : List Char) : Option (Option String × List Char) :=
  match skipBlanks cs with
  | '"' :: rest => readString rest
  | _ => none

mutual

/-- The value at the head of a text, and the rest.  The fuel bounds the number of parts. -/
def readValue : Nat → List Char → Json × List Char
  | 0, _ => (broken, [])
  | fuel + 1, cs =>
    match skipBlanks cs with
    | '[' :: rest =>
      let r := readItems fuel rest
      (array r.1, r.2)
    | '{' :: rest =>
      let r := readMembers fuel rest
      (object r.1, r.2)
    | cs => readScalar cs

/-- An array after its opening bracket. -/
def readItems : Nat → List Char → Items × List Char
  | 0, _ => (.broken, [])
  | fuel + 1, cs =>
    match skipBlanks cs with
    | ']' :: rest => (.done, rest)
    | cs => readItem fuel cs

/-- An item and the rest of its array. -/
def readItem : Nat → List Char → Items × List Char
  | 0, _ => (.broken, [])
  | fuel + 1, cs =>
    let head := readValue fuel cs
    match skipBlanks head.2 with
    | ',' :: rest =>
      let tail := readItem fuel rest
      (.item head.1 tail.1, tail.2)
    | ']' :: rest => (.item head.1 .done, rest)
    | _ => (.item head.1 .broken, [])

/-- An object after its opening brace. -/
def readMembers : Nat → List Char → Members × List Char
  | 0, _ => (.broken, [])
  | fuel + 1, cs =>
    match skipBlanks cs with
    | '}' :: rest => (.done, rest)
    | cs => readMember fuel cs

/-- A member and the rest of its object. -/
def readMember : Nat → List Char → Members × List Char
  | 0, _ => (.broken, [])
  | fuel + 1, cs =>
    match readKey? cs with
    | none => (.broken, [])
    | some (key, rest) =>
      match skipBlanks rest with
      | ':' :: rest =>
        let value := readValue fuel rest
        match skipBlanks value.2 with
        | ',' :: rest =>
          let tail := readMember fuel rest
          (.member key value.1 tail.1, tail.2)
        | '}' :: rest => (.member key value.1 .done, rest)
        | _ => (.member key value.1 .broken, [])
      | _ => (.stray key, [])

end

/-- The document of a text, and what follows it. -/
def read (cs : List Char) : Json × List Char :=
  readValue (3 * cs.length + 3) cs

end Json
end Eligibility
