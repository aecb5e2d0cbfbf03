import Mathlib.Control.Monad.Basic
import Eligibility.Proofs.Combination
import Eligibility.Proofs.Formula.Operands

/-!
# Printing — the text of a tree stands for that tree

The text of a tree puts every branch between parentheses, so that its tokens are a term of the
grammar whatever the shape of the tree, and reading it back needs no more depth than the tree has.

* `exists_tokens_of_operandOf` — the text of an operand, read back;
* `exists_tokens_of_leaves` — the text of a tree, by induction on the tree;
* `compile_text_of_isRule` — a tree that rule text can stand for is what its own text stands for;
* `Produced`, `compile_text_of_produced` — so are the trees that compiling and combining produce.
-/

namespace Eligibility
namespace Formula

open Reduction

/-! ## Reading a text back -/

theorem exists_tokens_of_operandOf {condition : String} (h : OperandOf IsToken condition) :
    ∃ tokens, HasTokens condition tokens ∧ Derives .term tokens (.operand condition) := by
  cases h with
  | call htoken hcall =>
    -- a call is one token, spaces and all
    exact ⟨[condition], htoken, .call hcall⟩
  | @comparison attr operator value hattr hoperator hvalue hword hoperator' hvalue' =>
    have htokens :
        HasTokens (conditionText attr operator value) ([attr] ++ [operator] ++ [value]) :=
      hasTokens_spaced (hasTokens_spaced hattr hoperator) hvalue
    exact ⟨_, htokens, .comparison hword hoperator' hvalue'⟩

/-- The text of a tree reads as a term, each branch as a group of its own. -/
theorem exists_tokens_of_leaves {tree : Tree}
    (h : ∀ condition ∈ tree.leaves, OperandOf IsToken condition) :
    ∃ tokens, HasTokens tree.text tokens ∧ Derives .term tokens tree := by
  induction tree with
  | operand condition => exact exists_tokens_of_operandOf (h condition (by simp [Tree.leaves]))
  | branch op left right ihLeft ihRight =>
    rcases ihLeft (fun c hc => h c (by simp [Tree.leaves, hc])) with ⟨lefts, hlefts, hleft⟩
    rcases ihRight (fun c hc => h c (by simp [Tree.leaves, hc])) with ⟨rights, hrights, hright⟩
    have hkeyword := Connective.ofWord?_keyword op
    -- both sides are terms, so that the connective joins just these two
    have hsentence := Derives.chain (.single hleft) hkeyword hright
    have hinner := hasTokens_spaced (hasTokens_spaced hlefts (hasTokens_keyword op)) hrights
    refine ⟨_, ?_, .group hsentence⟩
    -- the text puts its parts together in another order than the lemmas do
    have hgroup := hasTokens_group hinner
    simpa [Tree.text, String.append_assoc] using hgroup

/-- A tree made of operands that rule text can hold is the one that its text stands for. -/
theorem compile_text_of_isRule {tree : Tree} (h : IsRule tree) : compile tree.text = .ok tree := by
  rcases exists_tokens_of_leaves h.operands with ⟨tokens, htokens, hterm⟩
  have hread := compile_of_derives htokens (.single hterm)
  rwa [if_pos h.height_le] at hread

/-! ## Trees of compiled and combined rules -/

/-- The trees that compiling texts and combining such trees, over and over, produce. -/
inductive Produced : Tree → Prop where
  | compiled {text : String} {tree : Tree} (h : compile text = .ok tree) : Produced tree
  | combined {parts : List (String × Tree)} {combination : Combination}
      (hparts : ∀ part ∈ parts, Produced part.2)
      (h : Combination.ofParts parts = .ok combination) : Produced combination.tree

theorem isRule_of_ofParts {parts : List (String × Tree)} {combination : Combination}
    (hparts : ∀ part ∈ parts, IsRule part.2) (h : Combination.ofParts parts = .ok combination) :
    IsRule combination.tree := by
  rcases Combination.ofParts_eq_ok h fun part hpart => (hparts part hpart).height_le with
    ⟨_, hheight, hleaves⟩
  refine ⟨hheight, ?_⟩
  intro condition hcondition
  rw [hleaves, List.mem_flatMap] at hcondition
  rcases hcondition with ⟨part, hpart, hmem⟩
  exact (hparts part hpart).operands condition hmem

theorem isRule_of_produced {tree : Tree} (h : Produced tree) : IsRule tree := by
  induction h with
  | compiled h => exact isRule_of_compile h
  | combined _ h ih => exact isRule_of_ofParts ih h

/-- Compiling undoes printing on every tree that compiling and combining produce. -/
theorem compile_text_of_produced {tree : Tree} (h : Produced tree) :
    compile tree.text = .ok tree :=
  compile_text_of_isRule (isRule_of_produced h)

/-- Quoted segments within words, a keyword for an operator, a call for a value, and a right side
that is a branch of its own, twice in a combination. -/
theorem compile_text_of_produced_segments :
    let tree : Tree :=
      .branch .and (.operand "a\"b (c\"='d' OR \"and)\"")
        (.branch .or (.operand "is_vip(gold, 2)") (.operand "y = f(z)"))
    Produced (.branch .or tree tree) ∧
      compile (Tree.branch .or tree tree).text = .ok (.branch .or tree tree) := by
  intro tree
  have hcompile :
      compile "a\"b (c\"='d' OR \"and)\" AND (is_vip(gold, 2) or y = f(z))" = .ok tree := by
    decide +kernel
  have hcombine : Combination.ofParts [("first", tree), ("second", tree)] =
      .ok ⟨"Combined: first + second", .branch .or tree tree⟩ := by
    decide +kernel
  have hproduced : Produced (.branch .or tree tree) := by
    refine .combined ?_ hcombine
    intro part hpart
    simp only [List.mem_cons, List.not_mem_nil, or_false] at hpart
    rcases hpart with rfl | rfl
    · exact .compiled hcompile
    · exact .compiled hcompile
  exact ⟨hproduced, compile_text_of_produced hproduced⟩

end Formula
end Eligibility
