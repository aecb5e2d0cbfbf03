/-!
# Name — the characters of identifiers, and letter case

* `Text.isNameChar`, the characters that the name of a predicate may hold;
* `Text.lower`, a text in lower case.  Only ASCII letters have case here, as keywords are ASCII.
-/

namespace Eligibility
namespace Text

/-- ASCII letters and digits, the underscore and the point. -/
def isNameChar (c : Char) : Bool :=
  c.isAlphanum || c == '_' || c == '.'

/-- The text with every ASCII letter in lower case. -/
def lower (cs : List Char) : List Char :=
  cs.map Char.toLower

end Text
end Eligibility
