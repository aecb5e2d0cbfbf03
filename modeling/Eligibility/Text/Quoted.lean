import Eligibility.Text.Hidden

/-!
# Quoted — names in a listing

A listing shows each name between double quotes, with every character that would not show
unchanged escaped: some by a letter, the others by their code point.

* `Text.shown` — a character in a listing;
* `Text.quoted` — a name in a listing.
-/

namespace Eligibility
namespace Text

/-- The escape of a code point: its lower-case hexadecimal digits between braces. -/
def codePointEscape (c : Char) : List Char :=
  '\\' :: 'u' :: '\x7b' :: (Nat.toDigits 16 c.toNat ++ ['\x7d'])

/-- A character as a listing shows it. -/
def shown (c : Char) : List Char :=
  if c = '\x00' then ['\\', '0']
  else if c = '\t' then ['\\', 't']
  else if c = '\r' then ['\\', 'r']
  else if c = '\n' then ['\\', 'n']
  else if c = '\\' || c = '"' then ['\\', c]
  else if isHidden c then codePointEscape c
  else [c]

/-- A name as a listing shows it. -/
def quoted (name : String) : String :=
  String.ofList ('"' :: name.toList.flatMap shown ++ ['"'])

end Text
end Eligibility
