import Eligibility.Table
import Eligibility.Value

/-!
# Record — the data that rules are evaluated on

A record gives attributes values.  An attribute may be absent, and a value need not have the type
that a schema declares.
-/

namespace Eligibility

/-- The values of attributes. -/
abbrev Record :=
  Table Value

end Eligibility
