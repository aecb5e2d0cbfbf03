import Eligibility.Json.Basic

/-!
# Writer — the compact text of a document

No blanks, members in their order, and the shortest escapes: quotes, backslashes and control
characters are escaped, everything else stands for itself.

* `Json.escape` — a character inside a string;
* `Json.writeOnto` — the text of a document before a given text;
* `Json.text` — the text of a document.
-/

namespace Eligibility
namespace Json

/-- A digit in lower-case hexadecimal. -/
def hexDigit (n : Nat) : Char :=
  Nat.digitChar n

/-- A character as a string holds it. -/
def escape (c : Char) : List Char :=
  if c = '"' ∨ c = '\\' then ['\\', c]
  else if c = '\x08' then ['\\', 'b']
  else if c = '\x0c' then ['\\', 'f']
  else if c = '\n' then ['\\', 'n']
  else if c = '\r' then ['\\', 'r']
  else if c = '\t' then ['\\', 't']
  else if c.toNat < 0x20 then
    ['\\', 'u', '0', '0', hexDigit (c.toNat / 16), hexDigit (c.toNat % 16)]
  else [c]

/-- The characters of a string and its closing quote, before `rest`. -/
def writeCharsOnto : List Char → List Char → List Char
  | [], rest => '"' :: rest
  | c :: cs, rest => escape c ++ writeCharsOnto cs rest

def writeStringOnto (text : String) (rest : List Char) : List Char :=
  '"' :: writeCharsOnto text.toList rest

/-- Digits before `rest`. -/
def writeDigitsOnto (ds : List Nat) (rest : List Char) : List Char :=
  ds.map Nat.digitChar ++ rest

def writePowerOnto (power : Int) (rest : List Char) : List Char :=
  if power = 0 then rest
  else
    let digits := Nat.toDigits 10 power.natAbs ++ rest
    if power < 0 then 'e' :: '-' :: digits else 'e' :: digits

def writeNumeralOnto (numeral : Numeral) (rest : List Char) : List Char :=
  let power := writePowerOnto numeral.exponent rest
  let fraction :=
    if numeral.fraction.isEmpty then power else '.' :: writeDigitsOnto numeral.fraction power
  let whole := writeDigitsOnto numeral.whole fraction
  if numeral.negative then '-' :: whole else whole

mutual

/-- The text of a document, before `rest`.  Damage has no text. -/
def writeOnto : Json → List Char → List Char
  | broken, rest => rest
  | null, rest => "null".toList ++ rest
  | bool b, rest => (toString b).toList ++ rest
  | number numeral, rest => writeNumeralOnto numeral rest
  | string none, rest => rest
  | string (some text), rest => writeStringOnto text rest
  | array (.item head tail), rest => '[' :: head.writeOnto (tail.writeOnto rest)
  | array _, rest => '[' :: ']' :: rest
  | object (.member (some key) value tail), rest =>
    '{' :: writeStringOnto key (':' :: value.writeOnto (tail.writeOnto rest))
  | object _, rest => '{' :: '}' :: rest

/-- The text of an array after an item. -/
def Items.writeOnto : Items → List Char → List Char
  | .item head tail, rest => ',' :: head.writeOnto (tail.writeOnto rest)
  | _, rest => ']' :: rest

/-- The text of an object after a member. -/
def Members.writeOnto : Members → List Char → List Char
  | .member (some key) value tail, rest =>
    ',' :: writeStringOnto key (':' :: value.writeOnto (tail.writeOnto rest))
  | _, rest => '}' :: rest

end

/-- The text of a document. -/
def text (json : Json) : String :=
  String.ofList (json.writeOnto [])

/-! ## Building documents -/

def ofString (text : String) : Json :=
  string (some text)

def ofNat (n : Nat) : Json :=
  number ⟨false, (Nat.toDigits 10 n).map Numeral.digit, [], 0⟩

def ofList (items : List Json) : Json :=
  array (items.foldr Items.item .done)

/-- An object with the given members, in order. -/
def ofMembers (members : List (String × Json)) : Json :=
  object (members.foldr (fun m tail => .member (some m.1) m.2 tail) .done)

end Json
end Eligibility
