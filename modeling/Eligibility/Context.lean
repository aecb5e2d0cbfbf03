import Eligibility.Predicates
import Eligibility.Schema

/-!
# Context — what a rule is read against

A context holds the declared attributes and the predicates that conditions refer to.
-/

namespace Eligibility

/-- The declared attributes and the predicates that rules refer to. -/
structure Context where
  schema : Schema
  predicates : Predicates

end Eligibility
