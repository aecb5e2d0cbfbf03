import Eligibility.Combination
import Eligibility.Evaluation
import Eligibility.Formula.Error
import Eligibility.Loading.Schema
import Eligibility.Store

/-!
# Error — every reason for refusal

The errors of all parts of the library in one type, for operations that go through several of
them.

* `Error.message?` — the wording, where there is one;
* `Error.isBadInput` — the text or the trees of the caller are at fault;
* `Error.isNotFound` — a rule is missing.
-/

namespace Eligibility

/-- A reason why an operation is refused. -/
inductive Error where
  | formula (e : Formula.Error)
  | validation (defect : Tree.Defect)
  | evaluation (failure : Evaluation.Failure)
  | combination (e : Combination.Error)
  | store (e : Store.Error)
  | schema (e : Schema.Error)
  | snapshot (e : Snapshot.Error)
deriving DecidableEq, Repr

namespace Error

def message? : Error → Option String
  | formula e => some e.message
  | validation defect => some defect.message
  | evaluation failure => some failure.message
  | combination e => some e.message
  | store e => some e.message
  | schema (.loading e) => e.message?
  | schema .unreadable => none
  | snapshot e => e.message?

/-- Is the text or a tree of the caller at fault? -/
def isBadInput : Error → Bool
  | formula _ => true
  | validation _ => true
  | combination _ => true
  | _ => false

/-- Is a rule missing? -/
def isNotFound : Error → Bool
  | store (.notFound _) => true
  | store (.missingRules _) => true
  | _ => false

end Error
end Eligibility
