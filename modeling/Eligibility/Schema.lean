import Eligibility.Table
import Eligibility.Value

/-!
# Schema — the declared attributes

A schema gives every attribute that rules may name its type.  `Schema.listing` is its view in the
order of names.
-/

namespace Eligibility

/-- The declared attributes and their types. -/
abbrev Schema :=
  Table ValueType

namespace Schema

/-- The attributes with their types, ordered by name. -/
def listing (schema : Schema) : List (String × ValueType) :=
  schema.entries.mergeSort fun a b => decide (a.1 ≤ b.1)

end Schema
end Eligibility
