import Mathlib.Control.Monad.Basic
import Eligibility.Formula.Reduction
import Eligibility.Proofs.Formula.Lexing

/-!
# Spacing — a text is its tokens with blanks between them

Reading tokens leaves out nothing but the blanks around them, and which blanks these are makes no
difference: the tokens joined by single spaces are read as the same tokens again.

* `Spaced` — the texts made of given tokens and of blanks;
* `Token.spaced_of_tokens` — a text is made of its own tokens;
* `visible`, `Spaced.visible_eq` — the characters that are not blank;
* `hasTokens_intercalate` — tokens joined by single spaces;
* `spaced_of_tokenize` — both of these, and what they make of the tree of a text.
-/

namespace Eligibility
namespace Formula

/-- A text made of tokens in their order, with nothing but blanks before, between and behind them. -/
inductive Spaced : List (List Char) → List Char → Prop where
  | blanks {gap : List Char} (hgap : ∀ c ∈ gap, Text.isBlank c = true) : Spaced [] gap
  | token {gap token cs : List Char} {tokens : List (List Char)}
      (hgap : ∀ c ∈ gap, Text.isBlank c = true) (hrest : Spaced tokens cs) :
      Spaced (token :: tokens) (gap ++ token ++ cs)

/-- The characters of a text that are not blank. -/
def visible (cs : List Char) : List Char :=
  cs.filter fun c => !Text.isBlank c

namespace Spaced

variable {tokens : List (List Char)} {cs : List Char}

/-- A blank in front of a text makes its first gap wider. -/
theorem cons_blank {c : Char} (hc : Text.isBlank c = true) (h : Spaced tokens cs) :
    Spaced tokens (c :: cs) := by
  cases h with
  | blanks hgap => exact .blanks (List.forall_mem_cons.2 ⟨hc, hgap⟩)
  | @token gap token cs tokens hgap hrest =>
    have hwider : ∀ c' ∈ c :: gap, Text.isBlank c' = true := List.forall_mem_cons.2 ⟨hc, hgap⟩
    exact .token hwider hrest

/-- A token with nothing in front of it. -/
theorem cons_token (token : List Char) (h : Spaced tokens cs) :
    Spaced (token :: tokens) (token ++ cs) := by
  have hnone : ∀ c ∈ ([] : List Char), Text.isBlank c = true := by simp
  exact .token hnone h

theorem visible_eq (h : Spaced tokens cs) : visible cs = tokens.flatMap visible := by
  have hnone : ∀ gap : List Char, (∀ c ∈ gap, Text.isBlank c = true) → visible gap = [] := by
    intro gap hgap
    simpa [visible] using hgap
  induction h with
  | @blanks gap hgap => exact hnone gap hgap
  | @token gap token cs tokens hgap hrest ih =>
    calc
      visible (gap ++ token ++ cs) = visible gap ++ visible token ++ visible cs := by
        simp [visible]
      _ = visible token ++ tokens.flatMap visible := by rw [hnone gap hgap, ih, List.nil_append]
      _ = (token :: tokens).flatMap visible := List.flatMap_cons.symm

end Spaced

/-- Reading goes through the text token by token and passes over blanks only. -/
theorem Token.spaced_of_tokens {cs : List Char} {ts : List (List Char)}
    (h : Token.tokens cs = .ok ts) : Spaced ts cs := by
  fun_induction Token.tokens cs generalizing ts with
  | case1 =>
    cases h
    exact .blanks (by simp)
  | case2 c cs hblank ih => exact (ih h).cons_blank hblank
  | case3 c cs hblank hparen ih =>
    rcases prepend_eq_ok_iff.1 h with ⟨later, hlater, rfl⟩
    exact (ih hlater).cons_token [c]
  | case4 c cs hblank hparen fault hword => cases h
  | case5 c cs hblank hparen taken rest hword ih =>
    rcases prepend_eq_ok_iff.1 h with ⟨later, hlater, rfl⟩
    rw [word_append hword]
    exact (ih hlater).cons_token taken

/-! ## Tokens joined by spaces -/

theorem hasTokens_intercalate {tokens : List String}
    (h : ∀ token ∈ tokens, HasTokens token [token]) :
    HasTokens (" ".intercalate tokens) tokens := by
  induction tokens with
  | nil => exact Token.tokens.eq_1
  | cons token rest ih =>
    rw [List.forall_mem_cons] at h
    cases rest with
    | nil => exact h.1
    | cons next rest =>
      rw [String.intercalate_cons_of_ne_nil (List.cons_ne_nil next rest)]
      exact hasTokens_spaced h.1 (ih h.2)

/-- A text is its tokens with blanks around them, so that all other characters are in the tokens,
in their order.  Each token is the one token of itself, and the tokens joined by single spaces are
read as the same tokens, hence as the same tree or with the same error. -/
theorem spaced_of_tokenize {text : String} {tokens : List String}
    (h : tokenize text = .ok tokens) :
    Spaced (tokens.map String.toList) text.toList ∧
      visible text.toList = (tokens.map String.toList).flatMap visible ∧
      (∀ token ∈ tokens, tokenize token = .ok [token]) ∧
      tokenize (" ".intercalate tokens) = .ok tokens ∧
      compile (" ".intercalate tokens) = compile text := by
  have hread := hasTokens_of_tokenize h
  have hspaced : Spaced (tokens.map String.toList) text.toList := Token.spaced_of_tokens hread
  have hself : ∀ token ∈ tokens, HasTokens token [token] :=
    fun token htoken => Token.tokens_of_mem hread (List.mem_map_of_mem htoken)
  have hjoined := tokenize_of_hasTokens (hasTokens_intercalate hself)
  refine ⟨hspaced, hspaced.visible_eq, ?_, hjoined, ?_⟩
  · intro token htoken
    exact tokenize_of_hasTokens (hself token htoken)
  · rw [compile, compile, hjoined, h]

/-- Blanks of several kinds, a quoted segment and arguments that hold some of them, tokens without a
gap, and a name that a gap keeps from taking arguments. -/
theorem spaced_of_tokenize_glued :
    let text := "\t(f(a  b)x=' y)'\u2003 g (\u00a0z)\n"
    let tokens := ["(", "f(a  b)", "x=' y)'", "g", "(", "z", ")"]
    tokenize text = .ok tokens ∧
      Spaced (tokens.map String.toList) text.toList ∧
      visible text.toList = "(f(ab)x='y)'g(z)".toList ∧
      tokenize "x=' y)'" = .ok ["x=' y)'"] ∧
      tokenize "( f(a  b) x=' y)' g ( z )" = .ok tokens := by
  intro text tokens
  have htokens : tokenize text = .ok tokens := by decide +kernel
  rcases spaced_of_tokenize htokens with ⟨hspaced, hvisible, hself, hjoined, _⟩
  refine ⟨htokens, hspaced, ?_, hself _ (by decide), hjoined⟩
  rw [hvisible]
  decide +kernel

end Formula
end Eligibility
