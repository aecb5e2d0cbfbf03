import Eligibility.Proofs.Formula.Operands
import Eligibility.Proofs.Loop

/-!
# Rounds — the reading of tokens, one move of the stacks at a time

Reading takes a token or completes one connective in each round, until it ends with a tree or with
an error.  A connective is completed before the token that makes it due is taken, and at the end of
the tokens, so that these rounds pass through every state of the two stacks.

* `Reduction.round` — one round;
* `Reduction.Move`, `Reduction.move_of_round` — what a round does that is not the last;
* `Reduction.load_lt_of_move`, `Reduction.result_round` — every round makes the state lighter and
  leaves what lies ahead as it is;
* `Reduction.exists_ends_ofTokens` — the rounds are over, with the tree or the error of the tokens;
* `Reduction.passes_of_run` — they pass through every state that `Reduction.run` comes to;
* `Reduction.intact_of_passes` — in every state, each tree on the stack is kept with its depth and
  made of the tokens.
-/

namespace Eligibility
namespace Formula
namespace Reduction

open Loop (Round Passes Ends)

/-- The end of a round in which a connective is completed. -/
def complete (op : Connective) (s : State) (rest : List String) :
    Round (State × List String) (Except Error Tree) :=
  match join op s.built with
  | .error e => .done (.error e)
  | .ok built => .next (⟨s.waiting, built⟩, rest)

/-- One round of the reading. -/
def round : State × List String → Round (State × List String) (Except Error Tree)
  | (⟨.connective op :: waiting, built⟩, []) => complete op ⟨waiting, built⟩ []
  | (⟨.group :: _, _⟩, []) => .done (.error .unbalancedParentheses)
  | (⟨[], [(tree, _)]⟩, []) => .done (.ok tree)
  | (⟨[], built⟩, []) => .done (.error (.disconnected built.length))
  | (s, token :: rest) =>
    match kind token with
    | .openGroup => .next (⟨.group :: s.waiting, s.built⟩, rest)
    | .closeGroup =>
      match s.waiting with
      | .connective op :: waiting => complete op ⟨waiting, s.built⟩ (token :: rest)
      | .group :: waiting => .next (⟨waiting, s.built⟩, rest)
      | [] => .done (.error .unbalancedParentheses)
    | .connective op =>
      match s.waiting with
      | .connective op' :: waiting => complete op' ⟨waiting, s.built⟩ (token :: rest)
      | waiting => .next (⟨.connective op :: waiting, s.built⟩, rest)
    | .call => .next (s.push token, rest)
    | .word =>
      match rest with
      | operator :: value :: rest =>
        if isParenthesis operator || isParenthesis value then
          .done (.error (.incompleteCondition token))
        else .next (s.push (conditionText token operator value), rest)
      | _ => .done (.error (.incompleteCondition token))

/-! ## Moves -/

/-- What a round does that is not the last. -/
inductive Move : State × List String → State × List String → Prop where
  | complete {op : Connective} {waiting : List Waiting} {built built' : List (Tree × Nat)}
      {rest : List String} (hjoin : join op built = .ok built') :
      Move (⟨.connective op :: waiting, built⟩, rest) (⟨waiting, built'⟩, rest)
  | openGroup {s : State} {token : String} {rest : List String}
      (hkind : kind token = .openGroup) :
      Move (s, token :: rest) (⟨.group :: s.waiting, s.built⟩, rest)
  | closeGroup {waiting : List Waiting} {built : List (Tree × Nat)} {token : String}
      {rest : List String} (hkind : kind token = .closeGroup) :
      Move (⟨.group :: waiting, built⟩, token :: rest) (⟨waiting, built⟩, rest)
  | connective {s : State} {token : String} {op : Connective} {rest : List String}
      (hkind : kind token = .connective op) :
      Move (s, token :: rest) (⟨.connective op :: s.waiting, s.built⟩, rest)
  | call {s : State} {token : String} {rest : List String} (hkind : kind token = .call) :
      Move (s, token :: rest) (s.push token, rest)
  | comparison {s : State} {attr operator value : String} {rest : List String}
      (hkind : kind attr = .word)
      (hparen : (isParenthesis operator || isParenthesis value) = false) :
      Move (s, attr :: operator :: value :: rest)
        (s.push (conditionText attr operator value), rest)

theorem move_of_complete {op : Connective} {waiting : List Waiting} {built : List (Tree × Nat)}
    {rest : List String} {point : State × List String}
    (h : complete op ⟨waiting, built⟩ rest = .next point) :
    Move (⟨.connective op :: waiting, built⟩, rest) point := by
  unfold complete at h
  cases hjoin : join op built with
  | error e => simp [hjoin] at h
  | ok built' =>
    simp only [hjoin, Round.next.injEq] at h
    exact h ▸ .complete hjoin

theorem move_of_round {point point' : State × List String} (h : round point = .next point') :
    Move point point' := by
  -- the cases are the branches of a round; where it is the last one, `h` is impossible
  revert h
  fun_cases round point with
  | case1 op waiting built => exact move_of_complete
  | case5 s token rest hkind =>
    rintro ⟨⟩
    exact .openGroup hkind
  | case6 s token rest hkind op waiting hwaiting =>
    rcases s with ⟨_, built⟩
    cases hwaiting
    exact move_of_complete
  | case7 s token rest hkind waiting hwaiting =>
    rcases s with ⟨_, built⟩
    cases hwaiting
    rintro ⟨⟩
    exact .closeGroup hkind
  | case9 s token rest op hkind op' waiting hwaiting =>
    rcases s with ⟨_, built⟩
    cases hwaiting
    exact move_of_complete
  | case10 s token rest op hkind hwaiting =>
    rintro ⟨⟩
    exact .connective hkind
  | case11 s token rest hkind =>
    rintro ⟨⟩
    exact .call hkind
  | case13 s attr hkind operator value rest hparen =>
    rintro ⟨⟩
    exact .comparison hkind (Bool.eq_false_iff.2 hparen)
  | _ => exact nofun

/-- The weight of a state.  A token weighs more than the connective or the group that it leaves
waiting. -/
def load (point : State × List String) : Nat :=
  2 * point.2.length + point.1.waiting.length

theorem load_lt_of_move {point point' : State × List String} (h : Move point point') :
    load point' < load point := by
  cases h with
  | complete | openGroup | closeGroup | connective =>
    simp only [load, List.length_cons]
    omega
  | call | comparison =>
    simp only [load, State.push, List.length_cons]
    omega

/-! ## Connectives that are due -/

theorem isSettled_iff {waiting : List Waiting} :
    IsSettled waiting ↔ ∀ op more, waiting = .connective op :: more → False := by
  constructor
  · rintro h op more rfl
    cases h []
  · intro h built
    rw [settle.eq_def]
    split
    · next op more => exact absurd rfl (h op more)
    · rfl

theorem isSettled_of_settle {waiting : List Waiting} {built : List (Tree × Nat)} {s : State}
    (h : settle waiting built = .ok s) : IsSettled s.waiting := by
  fun_induction settle waiting built with
  | case1 built op waiting e hjoin => cases h
  | case2 built op waiting built' hjoin ih => exact ih h
  | case3 waiting built hwaiting =>
    cases h
    exact isSettled_iff.2 hwaiting

/-- A connective is due when no token is left, or before a `)` or another connective. -/
def IsDue (rest : List String) : Prop :=
  ∀ token more, rest = token :: more →
    kind token = .closeGroup ∨ ∃ op, kind token = .connective op

theorem isDue_nil : IsDue [] :=
  nofun

theorem isDue_cons {token : String} {rest : List String}
    (h : kind token = .closeGroup ∨ ∃ op, kind token = .connective op) :
    IsDue (token :: rest) := by
  rintro _ _ ⟨⟩
  exact h

theorem round_due {op : Connective} {waiting : List Waiting} {built : List (Tree × Nat)}
    {rest : List String} (hdue : IsDue rest) :
    round (⟨.connective op :: waiting, built⟩, rest) = complete op ⟨waiting, built⟩ rest := by
  cases rest with
  | nil => rfl
  | cons token more =>
    rcases hdue token more rfl with hkind | ⟨op', hkind⟩
    · simp only [round, hkind]
    · simp only [round, hkind]

theorem round_connective {s : State} {token : String} {op : Connective} {rest : List String}
    (hkind : kind token = .connective op) (hsettled : IsSettled s.waiting) :
    round (s, token :: rest) = .next (⟨.connective op :: s.waiting, s.built⟩, rest) := by
  simp only [round, hkind]
  split
  · next op' more hwaiting => exact absurd hwaiting (isSettled_iff.1 hsettled op' more)
  · rfl

/-! ## What lies ahead -/

/-- What comes of the stacks and the tokens that are left. -/
def ahead : State × List String → Except Error Tree
  | (s, rest) =>
    match run s rest with
    | .error e => .error e
    | .ok s => finish s

theorem result_complete {op : Connective} {waiting : List Waiting} {built : List (Tree × Nat)}
    {rest : List String} (hdue : IsDue rest) :
    (complete op ⟨waiting, built⟩ rest).result ahead =
      ahead (⟨.connective op :: waiting, built⟩, rest) := by
  -- whatever makes the connective due, completing all connectives starts with this one
  unfold complete ahead
  cases hjoin : join op built with
  | error e =>
    cases rest with
    | nil => simp [Round.result, run, finish, settle, hjoin]
    | cons token more =>
      rcases hdue token more rfl with hkind | ⟨op', hkind⟩
      · simp [Round.result, run_closeGroup hkind, closeGroup, settle, hjoin]
      · simp [Round.result, run_connective hkind, pushConnective, settle, hjoin]
  | ok built' =>
    cases rest with
    | nil => simp [Round.result, run, finish, settle, hjoin]
    | cons token more =>
      rcases hdue token more rfl with hkind | ⟨op', hkind⟩
      · simp [Round.result, run_closeGroup hkind, closeGroup, settle, hjoin]
      · simp [Round.result, run_connective hkind, pushConnective, settle, hjoin]

/-- No round changes what lies ahead. -/
theorem result_round (point : State × List String) : (round point).result ahead = ahead point := by
  fun_cases round point with
  | case1 op waiting built => exact result_complete isDue_nil
  | case2 waiting built => rfl
  | case3 tree depth => rfl
  | case4 built hbuilt => simp only [Round.result, ahead, run, finish, settle]
  | case5 s token rest hkind => simp only [Round.result, ahead, run_openGroup hkind]
  | case6 s token rest hkind op waiting hwaiting =>
    rcases s with ⟨_, built⟩
    cases hwaiting
    exact result_complete (isDue_cons (.inl hkind))
  | case7 s token rest hkind waiting hwaiting =>
    simp only [Round.result, ahead, run_closeGroup hkind, closeGroup, settle, hwaiting]
  | case8 s token rest hkind hwaiting =>
    simp only [Round.result, ahead, run_closeGroup hkind, closeGroup, settle, hwaiting]
  | case9 s token rest op hkind op' waiting hwaiting =>
    rcases s with ⟨_, built⟩
    cases hwaiting
    exact result_complete (isDue_cons (.inr ⟨op, hkind⟩))
  | case10 s token rest op hkind hwaiting =>
    have hsettle := isSettled_iff.2 hwaiting s.built
    simp only [Round.result, ahead, run_connective hkind, pushConnective, hsettle]
  | case11 s token rest hkind => simp only [Round.result, ahead, run_call hkind]
  | case12 s attr hkind operator value rest hparen =>
    simp [Round.result, ahead, run.eq_def, hkind, hparen]
  | case13 s attr hkind operator value rest hparen =>
    simp only [Round.result, ahead, run_comparison hkind (Bool.eq_false_iff.2 hparen)]
  | case14 s attr rest hkind hshort =>
    simp only [Round.result, ahead]
    rw [run.eq_def]
    simp only [hkind]

/-! ## Rounds -/

/-- The rounds are over, with what the two stacks come to. -/
theorem exists_ends_ofTokens {tokens : List String} (h : tokens ≠ []) :
    ∃ rounds, rounds ≤ 2 * tokens.length ∧
      Ends round rounds (.initial, tokens) (ofTokens tokens) := by
  have hends := Loop.exists_ends result_round
    (fun _ _ hround => load_lt_of_move (move_of_round hround)) (State.initial, tokens)
  have hresult : ahead (.initial, tokens) = ofTokens tokens := by
    rw [ofTokens, List.isEmpty_eq_false_iff.2 h]
    rfl
  rwa [hresult] at hends

section Passing

variable {first : State × List String}

theorem passes_of_settle {waiting : List Waiting} {built : List (Tree × Nat)} {s : State}
    {rest : List String} (h : Passes round first (⟨waiting, built⟩, rest)) (hdue : IsDue rest)
    (hsettle : settle waiting built = .ok s) : Passes round first (s, rest) := by
  fun_induction settle waiting built with
  | case1 built op waiting e hjoin => cases hsettle
  | case2 built op waiting built' hjoin ih =>
    refine ih (h.next ?_) hsettle
    rw [round_due hdue, complete, hjoin]
  | case3 waiting built hwaiting =>
    cases hsettle
    exact h

/-- The states that reading comes to between two tokens are among those that the rounds pass
through. -/
theorem passes_of_run {s s' : State} {tokens rest : List String}
    (h : Passes round first (s, tokens ++ rest)) (hrun : run s tokens = .ok s') :
    Passes round first (s', rest) := by
  -- a `)` and a connective are taken once the connectives before them are completed
  fun_induction run s tokens with
  | case1 s =>
    cases hrun
    exact h
  | case2 s token tokens hkind ih =>
    refine ih (h.next ?_) hrun
    simp [round, hkind]
  | case3 s token tokens hkind e hclose => cases hrun
  | case4 s token tokens hkind s₁ hclose ih =>
    have hsettled := passes_of_settle h (isDue_cons (.inl hkind)) (closeGroup_eq_ok_iff.1 hclose)
    refine ih (hsettled.next ?_) hrun
    simp [round, hkind]
  | case5 s token tokens op hkind e hpush => cases hrun
  | case6 s token tokens op hkind s₁ hpush ih =>
    rcases pushConnective_eq_ok_iff.1 hpush with ⟨settled, hsettle, rfl⟩
    have hsettled := passes_of_settle h (isDue_cons (.inr ⟨op, hkind⟩)) hsettle
    refine ih (hsettled.next ?_) hrun
    exact round_connective hkind (isSettled_of_settle hsettle)
  | case7 s token tokens hkind ih =>
    refine ih (h.next ?_) hrun
    simp [round, hkind]
  | case8 s attr hkind operator value tokens hparen => cases hrun
  | case9 s attr hkind operator value tokens hparen ih =>
    refine ih (h.next ?_) hrun
    simp [round, hkind, hparen]
  | case10 s attr tokens hkind hshort => cases hrun

end Passing

/-- What holds of the stacks and of the tokens that are left, however far the reading has come. -/
structure Intact (Allowed : String → Prop) (point : State × List String) : Prop where
  built : ∀ entry ∈ point.1.built, EntryOf Allowed entry
  rest : ∀ token ∈ point.2, Allowed token

theorem Intact.of_move {Allowed : String → Prop} {point point' : State × List String}
    (h : Intact Allowed point) (hmove : Move point point') : Intact Allowed point' := by
  rcases h with ⟨hbuilt, hrest⟩
  cases hmove with
  | complete hjoin => exact ⟨entryOf_of_join hjoin hbuilt, hrest⟩
  | openGroup hkind => exact ⟨hbuilt, (List.forall_mem_cons.1 hrest).2⟩
  | closeGroup hkind => exact ⟨hbuilt, (List.forall_mem_cons.1 hrest).2⟩
  | connective hkind => exact ⟨hbuilt, (List.forall_mem_cons.1 hrest).2⟩
  | call hkind =>
    rcases List.forall_mem_cons.1 hrest with ⟨htoken, hrest⟩
    exact ⟨entryOf_of_push (.call htoken hkind) hbuilt, hrest⟩
  | comparison hkind hparen =>
    simp only [List.forall_mem_cons] at hrest
    rcases hrest with ⟨hattr, hoperator, hvalue, hrest⟩
    rcases Bool.or_eq_false_iff.1 hparen with ⟨hparenOperator, hparenValue⟩
    have hoperand := OperandOf.comparison hattr hoperator hvalue hkind hparenOperator hparenValue
    exact ⟨entryOf_of_push hoperand hbuilt, hrest⟩

/-- In every state that the reading passes through, each tree is kept with its depth and made of
the tokens. -/
theorem intact_of_passes {Allowed : String → Prop} {tokens : List String}
    {point : State × List String} (h : Passes round (.initial, tokens) point)
    (htokens : ∀ token ∈ tokens, Allowed token) : Intact Allowed point := by
  induction h with
  | first => exact ⟨List.forall_mem_nil _, htokens⟩
  | next hpasses hround ih => exact ih.of_move (move_of_round hround)

end Reduction
end Formula
end Eligibility
