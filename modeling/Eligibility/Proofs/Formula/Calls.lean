import Mathlib.Control.Monad.Basic
import Eligibility.Proofs.Formula.Readback
import Eligibility.Proofs.Formula.Rounds

/-!
# Calls — one notion of a call from the text to the condition

Three readers meet calls.  The reader of tokens takes arguments behind the name of a predicate, the
reader of stacks looks at the ends of a token, and the condition of an operand is cut at its first
`(`.  They agree on every token, and none of them sees a call in three words joined by spaces.

* `Token.Takes` — the tokens of a text, each with the way in which it was taken;
* `Token.exists_takes`, `Token.tokens_of_takes` — every text that has tokens is taken in such a way,
  and only its tokens are taken;
* `Token.TakenAs`, `Token.takenAs_of_takes` — what the way tells of the token;
* `Token.TakenAs.isCall_iff`, `Token.TakenAs.parse?_eq_call_iff` — the calls of the other two
  readers;
* `parse?_conditionText_ne_call`, `parse?_eq_call_iff_of_operandOf` — joined words, and the operands
  that are made of tokens;
* `calls_of_tokenize` — the agreement, on the tokens of a text and on every operand that is made of
  them.
-/

namespace Eligibility
namespace Formula

open Reduction
open Loop (Passes)

namespace Token

/-- The way in which a token was taken from a text. -/
inductive Origin where
  | parenthesis
  | run
  | call (name args : List Char)
deriving DecidableEq, Repr

/-- The tokens that a text is taken apart into. -/
inductive Takes : List Char → List (List Char × Origin) → Prop where
  | nil : Takes [] []
  | blank {c : Char} {cs : List Char} {taken : List (List Char × Origin)}
      (hblank : Text.isBlank c = true) (h : Takes cs taken) : Takes (c :: cs) taken
  | parenthesis {c : Char} {cs : List Char} {taken : List (List Char × Origin)}
      (hparen : c = '(' ∨ c = ')') (h : Takes cs taken) :
      Takes (c :: cs) (([c], .parenthesis) :: taken)
  | run {c : Char} {cs token rest : List Char} {taken : List (List Char × Origin)}
      (hc : StartsWord c) (hrun : Token.run none (c :: cs) = .ok (token, rest))
      (hplain : ∀ inner, rest = '(' :: inner → isCallName token = false) (h : Takes rest taken) :
      Takes (c :: cs) ((token, .run) :: taken)
  | call {c : Char} {cs name inner args rest : List Char} {taken : List (List Char × Origin)}
      (hc : StartsWord c) (hrun : Token.run none (c :: cs) = .ok (name, '(' :: inner))
      (hname : isCallName name = true) (hargs : arguments inner = .ok (args ++ [')'], rest))
      (h : Takes rest taken) :
      Takes (c :: cs) ((name ++ '(' :: (args ++ [')']), .call name args) :: taken)

theorem exists_takes {cs : List Char} {ts : List (List Char)} (h : tokens cs = .ok ts) :
    ∃ taken, Takes cs taken := by
  -- the reader has one case for both kinds of words
  fun_induction tokens cs generalizing ts with
  | case1 => exact ⟨[], .nil⟩
  | case2 c cs hblank ih =>
    rcases ih h with ⟨taken, htaken⟩
    exact ⟨taken, .blank hblank htaken⟩
  | case3 c cs hblank hparen ih =>
    rcases prepend_eq_ok_iff.1 h with ⟨ts', hts', rfl⟩
    rcases ih hts' with ⟨taken, htaken⟩
    exact ⟨_, .parenthesis hparen htaken⟩
  | case4 c cs hblank hparen fault hword => cases h
  | case5 c cs hblank hparen token rest hword ih =>
    rcases prepend_eq_ok_iff.1 h with ⟨ts', hts', rfl⟩
    rcases ih hts' with ⟨taken, htaken⟩
    have hc := startsWord_of_not hblank hparen
    rcases word_cases hword with ⟨hrun, hplain⟩ | ⟨name, inner, args, hrun, hname, hargs, rfl⟩
    · exact ⟨_, .run hc hrun hplain htaken⟩
    · rcases exists_of_arguments hargs with ⟨args, rfl, _, _⟩
      exact ⟨_, .call hc hrun hname hargs htaken⟩

theorem tokens_of_takes {cs : List Char} {taken : List (List Char × Origin)}
    (h : Takes cs taken) : tokens cs = .ok (taken.map Prod.fst) := by
  induction h with
  | nil =>
    rw [tokens]
    rfl
  | blank hblank h ih => rw [tokens_blank hblank, ih]
  | parenthesis hparen h ih =>
    rw [tokens_parenthesis hparen, ih]
    rfl
  | run hc hrun hplain h ih =>
    rw [tokens_word hc (word_of_run hrun hplain), ih]
    rfl
  | call hc hrun hname hargs h ih =>
    rw [tokens_word hc (word_of_call hrun hname hargs), ih]
    rfl

/-- The characters of a token that was taken in a certain way. -/
inductive TakenAs : List Char → Origin → Prop where
  | parenthesis {c : Char} (hparen : c = '(' ∨ c = ')') : TakenAs [c] .parenthesis
  | run {cs : List Char} (hrun : Token.run none cs = .ok (cs, [])) : TakenAs cs .run
  | call {name args : List Char} (hne : name ≠ []) (hname : isCallName name = true)
      (hopen : '(' ∉ args) (hclose : ')' ∉ args) :
      TakenAs (name ++ '(' :: (args ++ [')'])) (.call name args)

theorem takenAs_of_takes {cs : List Char} {taken : List (List Char × Origin)}
    (h : Takes cs taken) : ∀ entry ∈ taken, TakenAs entry.1 entry.2 := by
  induction h with
  | nil => exact List.forall_mem_nil _
  | blank hblank h ih => exact ih
  | parenthesis hparen h ih => exact List.forall_mem_cons.2 ⟨.parenthesis hparen, ih⟩
  | run hc hrun hplain h ih => exact List.forall_mem_cons.2 ⟨.run (run_taken hrun), ih⟩
  | call hc hrun hname hargs h ih =>
    rcases exists_of_arguments hargs with ⟨args', heq, hopen, hclose⟩
    -- both lists are what stands before the `)`
    obtain rfl := List.append_cancel_right heq
    have hne := run_ne_nil hc.quote_or_bare hrun
    exact List.forall_mem_cons.2 ⟨.call hne hname hopen hclose, ih⟩

variable {token : List Char} {origin : Origin}

theorem TakenAs.isCall_iff (h : TakenAs token origin) :
    Reduction.isCall token = true ↔ ∃ name args, origin = .call name args := by
  cases h with
  | parenthesis hparen =>
    rcases hparen with rfl | rfl
    · simp [Reduction.isCall]
    · simp [Reduction.isCall]
  | run hrun => simp [isCall_of_run hrun]
  | @call name args hne hname hopen hclose => simp [isCall_of_arguments]

theorem TakenAs.parts_of_call {name args : List Char} (h : TakenAs token (.call name args)) :
    token = name ++ '(' :: (args ++ [')']) ∧ '(' ∉ name ∧ '(' ∉ args ∧ ')' ∉ args := by
  cases h with
  | call hne hname hopen hclose =>
    exact ⟨rfl, not_mem_of_isCallName hname (by decide), hopen, hclose⟩

end Token

/-- Whatever is cut like a call has the ends of a call. -/
theorem isCall_of_parse? {text name args : String}
    (h : Condition.parse? text = some (.call name args)) : isCall text.toList = true := by
  unfold Condition.parse? at h
  split at h
  · next name' args' hsplit =>
    rw [Condition.eq_append_of_splitCall? hsplit]
    exact Token.isCall_of_arguments name' args'
  · split at h
    · cases h
    · cases h

theorem Token.TakenAs.parse?_eq_call_iff {token : List Char} {origin : Origin}
    (h : TakenAs token origin) (name args : String) :
    Condition.parse? (String.ofList token) = some (.call name args) ↔
      origin = .call name.toList args.toList := by
  -- only a call has the ends of one, and its name reaches up to its first parenthesis
  have hends : Condition.parse? (String.ofList token) = some (.call name args) →
      ∃ name args, origin = .call name args := by
    intro hparse
    have hcall := isCall_of_parse? hparse
    rw [String.toList_ofList] at hcall
    exact h.isCall_iff.1 hcall
  cases h with
  | parenthesis hparen => simpa using hends
  | run hrun => simpa using hends
  | @call name' args' hne hname hopen hclose =>
    have hnames : name'.all Text.isNameChar = true := (Bool.and_eq_true_iff.1 hname).2
    rw [Condition.parse?, String.toList_ofList, Condition.splitCall?_call hne hnames]
    constructor
    · intro hparse
      cases hparse
      rw [String.toList_ofList, String.toList_ofList]
    · rintro ⟨⟩
      simp only [String.ofList_toList]

/-- Three words joined by spaces are no call, when the first of them could begin a comparison. -/
theorem parse?_conditionText_ne_call {attr : String} (hshape : Token.Shape attr.toList)
    (hkind : kind attr = .word) (operator value name args : String) :
    Condition.parse? (conditionText attr operator value) ≠ some (.call name args) := by
  have hsplit := splitCall?_conditionText (run_of_kind_word hshape hkind) operator value
  intro hparse
  simp only [Condition.parse?, hsplit] at hparse
  split at hparse
  · cases hparse
  · cases hparse

/-- Of the operands that are made of the tokens of a text, the calls among the tokens are the only
ones that are read as calls. -/
theorem parse?_eq_call_iff_of_operandOf {text : String} {tokens : List String}
    (h : HasTokens text tokens) {condition : String}
    (hcondition : OperandOf (· ∈ tokens) condition) :
    (∃ name args, Condition.parse? condition = some (.call name args)) ↔
      condition ∈ tokens ∧ isCall condition.toList = true := by
  have hshapes : ∀ token ∈ tokens, Token.Shape token.toList := fun token htoken =>
    Token.shape_of_mem h (List.mem_map_of_mem htoken)
  constructor
  · rintro ⟨name, args, hparse⟩
    cases hcondition with
    | call htoken hcall => exact ⟨htoken, isCall_of_parse? hparse⟩
    | comparison hattr _ _ hword _ _ =>
      exact absurd hparse (parse?_conditionText_ne_call (hshapes _ hattr) hword _ _ name args)
  · rintro ⟨htoken, hcall⟩
    rcases exists_parse?_of_call (hshapes _ htoken) (kind_eq_call_iff.2 hcall) with
      ⟨name, args, _, _, _, _, hparse⟩
    exact ⟨name, args, hparse⟩

/-- A token is a call to all three readers or to none of them, and they agree about its name and its
arguments.  Joined words are a call to none of them, wherever the stacks come to join them, and the
operands on the stacks are calls where they are tokens that are calls. -/
theorem calls_of_tokenize {text : String} {tokens : List String} (h : tokenize text = .ok tokens) :
    (∃ taken, Token.Takes text.toList taken) ∧
    (∀ taken, Token.Takes text.toList taken →
      taken.map Prod.fst = tokens.map String.toList ∧
      ∀ (token : String) (origin : Token.Origin), (token.toList, origin) ∈ taken →
        ((∃ name args, origin = .call name args) ↔ isCall token.toList = true) ∧
        (isCall token.toList = true ↔
          ∃ name args, Condition.parse? token = some (.call name args)) ∧
        ∀ name args, Condition.parse? token = some (.call name args) →
          origin = .call name.toList args.toList ∧ token = name ++ "(" ++ args ++ ")" ∧
            '(' ∉ name.toList ∧ '(' ∉ args.toList ∧ ')' ∉ args.toList) ∧
    ∀ s rest, Passes round (.initial, tokens) (s, rest) →
      (∀ attr operator value more, rest = attr :: operator :: value :: more → kind attr = .word →
        ∀ name args,
          Condition.parse? (conditionText attr operator value) ≠ some (.call name args)) ∧
      ∀ entry ∈ s.built, ∀ condition ∈ entry.1.leaves,
        OperandOf (· ∈ tokens) condition ∧
        ((∃ name args, Condition.parse? condition = some (.call name args)) ↔
          condition ∈ tokens ∧ isCall condition.toList = true) := by
  have htokens := hasTokens_of_tokenize h
  refine ⟨Token.exists_takes htokens, ?tokens, ?operands⟩
  case tokens =>
    intro taken htaken
    have hsame := Except.ok.inj ((Token.tokens_of_takes htaken).symm.trans htokens)
    refine ⟨hsame, ?_⟩
    intro token origin hmem
    have hway : Token.TakenAs token.toList origin := Token.takenAs_of_takes htaken _ hmem
    have hparts : ∀ name args, Condition.parse? token = some (.call name args) ↔
        origin = .call name.toList args.toList := by
      intro name args
      have hparse := hway.parse?_eq_call_iff name args
      rwa [String.ofList_toList] at hparse
    refine ⟨hway.isCall_iff.symm, ?_, ?_⟩
    · rw [hway.isCall_iff]
      constructor
      · rintro ⟨name, args, rfl⟩
        refine ⟨String.ofList name, String.ofList args, (hparts _ _).2 ?_⟩
        rw [String.toList_ofList, String.toList_ofList]
      · rintro ⟨name, args, hparse⟩
        exact ⟨name.toList, args.toList, (hparts name args).1 hparse⟩
    · intro name args hparse
      obtain rfl := (hparts name args).1 hparse
      rcases hway.parts_of_call with ⟨htoken, hopen, hopens, hcloses⟩
      refine ⟨rfl, ?_, hopen, hopens, hcloses⟩
      apply String.toList_injective
      simp [htoken]
  case operands =>
    intro s rest hpasses
    have hintact : Intact (· ∈ tokens) (s, rest) := intact_of_passes hpasses fun _ hmem => hmem
    refine ⟨?_, ?_⟩
    · rintro attr operator value more rfl hkind name args
      have hattr : attr ∈ tokens := hintact.rest attr List.mem_cons_self
      have hshape := Token.shape_of_mem htokens (List.mem_map_of_mem hattr)
      exact parse?_conditionText_ne_call hshape hkind operator value name args
    · intro entry hentry condition hcondition
      have hoperand := (hintact.built entry hentry).operands condition hcondition
      exact ⟨hoperand, parse?_eq_call_iff_of_operandOf htokens hoperand⟩

/-- A call in quotes, a keyword before a parenthesis, a quote among arguments, and a name that does
not stand right before its parenthesis. -/
theorem calls_of_tokenize_quotes :
    let text := "team = 'f(x)' AND(is_vip(it's)OR f ( g.h() ))"
    let tokens :=
      ["team", "=", "'f(x)'", "AND", "(", "is_vip(it's)", "OR", "f", "(", "g.h()", ")", ")"]
    tokenize text = .ok tokens ∧
    (∃ taken, Token.Takes text.toList taken ∧ taken.map Prod.fst = tokens.map String.toList ∧
      (∀ origin, ("is_vip(it's)".toList, origin) ∈ taken →
        origin = .call "is_vip".toList "it's".toList) ∧
      ∀ origin, ("'f(x)'".toList, origin) ∈ taken → ∀ name args, origin ≠ .call name args) ∧
    (∀ name args, Condition.parse? "team = 'f(x)'" ≠ some (.call name args)) ∧
    ∃ name args, Condition.parse? "is_vip(it's)" = some (.call name args) := by
  intro text tokens
  have htokens : tokenize text = .ok tokens := by decide +kernel
  rcases calls_of_tokenize htokens with ⟨⟨taken, htaken⟩, htakens, hstates⟩
  rcases htakens taken htaken with ⟨hsame, hreaders⟩
  have hquoted : isCall "'f(x)'".toList = false := by decide
  have hparse : Condition.parse? "is_vip(it's)" = some (.call "is_vip" "it's") := by decide +kernel
  have hrun : run .initial (tokens.take 6) = .ok ⟨[.group, .connective .and],
      [(.operand "is_vip(it's)", 0), (.operand "team = 'f(x)'", 0)]⟩ := by
    decide +kernel
  have hleaves := (hstates _ _ (passes_of_run .first hrun)).2
  refine ⟨htokens, ⟨taken, htaken, hsame, ?_, ?_⟩, ?_, ?_⟩
  · intro origin hmem
    exact ((hreaders _ origin hmem).2.2 _ _ hparse).1
  · rintro origin hmem name args rfl
    have hcall := (hreaders _ _ hmem).1.1 ⟨name, args, rfl⟩
    rw [hquoted] at hcall
    cases hcall
  · exact (hstates _ _ .first).1 "team" "=" "'f(x)'" _ rfl (by decide +kernel)
  · have hleaf := hleaves (.operand "is_vip(it's)", 0) List.mem_cons_self _ List.mem_cons_self
    exact hleaf.2.2 ⟨by decide, by decide⟩

end Formula
end Eligibility
