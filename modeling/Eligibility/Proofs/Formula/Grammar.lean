import Eligibility.Formula.Reduction
import Eligibility.Proofs.Formula.Lexing

/-!
# Grammar — the infix rules and how the two stacks read them

A rule is a sentence: terms joined by connectives, where every connective binds its right term to
all that stands before it.  A term is a call, a comparison of three words or a sentence between
parentheses.

* `Derives` — the tokens of a sentence or a term, with the tree that they stand for;
* `Reduction.State.pushTree` — the stacks with one more tree, if it keeps the limit of depth;
* `Reduction.Reads` — what it is that tokens are read as a tree, and how such tokens are put
  together;
* `Reduction.reads_of_derives` — reading a phrase pushes its tree;
* `ofTokens_of_reads`, `compile_of_reads` — the tree of what is read as a sentence, or the refusal
  of one that is too deep; `ofTokens_of_derives`, `compile_of_derives` for phrases.

A sentence leaves its last connective waiting, so that its tree is on the stack only once the
connectives of its group are completed; `Reduction.runSettled` is the reading with that last move.
-/

namespace Eligibility
namespace Formula

open Reduction

/-- The two kinds of phrases. -/
inductive Phrase where
  | sentence
  | term

/-- The phrases of rule text: their tokens and their trees. -/
inductive Derives : Phrase → List String → Tree → Prop where
  | call {token : String} (hcall : kind token = .call) :
      Derives .term [token] (.operand token)
  | comparison {attr operator value : String} (hattr : kind attr = .word)
      (hoperator : isParenthesis operator = false) (hvalue : isParenthesis value = false) :
      Derives .term [attr, operator, value] (.operand (conditionText attr operator value))
  | group {tokens : List String} {tree : Tree} (h : Derives .sentence tokens tree) :
      Derives .term ("(" :: (tokens ++ [")"])) tree
  | single {tokens : List String} {tree : Tree} (h : Derives .term tokens tree) :
      Derives .sentence tokens tree
  | chain {lefts rights : List String} {left right : Tree} {keyword : String} {op : Connective}
      (hleft : Derives .sentence lefts left)
      (hkeyword : Connective.ofWord? keyword.toList = some op)
      (hright : Derives .term rights right) :
      Derives .sentence (lefts ++ keyword :: rights) (.branch op left right)

theorem Derives.tokens_ne_nil {phrase : Phrase} {tokens : List String} {tree : Tree}
    (h : Derives phrase tokens tree) : tokens ≠ [] := by
  cases h with
  | call | comparison | group | chain => simp
  | single h =>
    cases h with
    | call | comparison | group => simp

namespace Reduction

theorem kind_keyword {keyword : String} {op : Connective}
    (h : Connective.ofWord? keyword.toList = some op) : kind keyword = .connective op := by
  have hopen : keyword ≠ "(" := by
    rintro rfl
    exact absurd h (by cases op <;> decide)
  have hclose : keyword ≠ ")" := by
    rintro rfl
    exact absurd h (by cases op <;> decide)
  simp [kind, hopen, hclose, h]

/-! ## One token at a time -/

theorem run_openGroup {token : String} (h : kind token = .openGroup) (s : State)
    (rest : List String) : run s (token :: rest) = run ⟨.group :: s.waiting, s.built⟩ rest := by
  rw [run.eq_def]
  simp [h]

theorem run_closeGroup {token : String} (h : kind token = .closeGroup) (s : State)
    (rest : List String) :
    run s (token :: rest) =
      match closeGroup s with
      | .error e => .error e
      | .ok s => run s rest := by
  rw [run.eq_def]
  cases closeGroup s with
  | error e => simp only [h]
  | ok s' => simp only [h]

theorem run_connective {token : String} {op : Connective} (h : kind token = .connective op)
    (s : State) (rest : List String) :
    run s (token :: rest) =
      match pushConnective op s with
      | .error e => .error e
      | .ok s => run s rest := by
  rw [run.eq_def]
  cases hpush : pushConnective op s with
  | error e => simp only [h, hpush]
  | ok s' => simp only [h, hpush]

theorem run_call {token : String} (h : kind token = .call) (s : State) (rest : List String) :
    run s (token :: rest) = run (s.push token) rest := by
  rw [run.eq_def]
  simp [h]

theorem run_comparison {attr operator value : String} (h : kind attr = .word)
    (hparen : (isParenthesis operator || isParenthesis value) = false) (s : State)
    (rest : List String) :
    run s (attr :: operator :: value :: rest) =
      run (s.push (conditionText attr operator value)) rest := by
  rw [run.eq_def]
  simp [h, hparen]

/-- A run goes on with further tokens from the state that it has reached, unless it stopped in the
middle of a comparison, which the further tokens may complete. -/
theorem run_append {s : State} {tokens : List String}
    (h : ∀ attr, run s tokens ≠ .error (.incompleteCondition attr)) (rest : List String) :
    run s (tokens ++ rest) =
      match run s tokens with
      | .error e => .error e
      | .ok s' => run s' rest := by
  -- the cases are those of one token: a stop is ruled out only in the middle of a comparison
  fun_induction run s tokens with
  | case1 s => rfl
  | case2 s token tokens hkind ih =>
    rw [List.cons_append, run_openGroup hkind, ih h]
  | case3 s token tokens hkind e hclose =>
    rw [List.cons_append, run_closeGroup hkind, hclose]
  | case4 s token tokens hkind s' hclose ih =>
    rw [List.cons_append, run_closeGroup hkind, hclose]
    exact ih h
  | case5 s token tokens op hkind e hpush =>
    rw [List.cons_append, run_connective hkind, hpush]
  | case6 s token tokens op hkind s' hpush ih =>
    rw [List.cons_append, run_connective hkind, hpush]
    exact ih h
  | case7 s token tokens hkind ih =>
    rw [List.cons_append, run_call hkind, ih h]
  | case8 s token hkind operator value tokens hparen =>
    exact absurd rfl (h token)
  | case9 s token hkind operator value tokens hparen ih =>
    have hparen' : (isParenthesis operator || isParenthesis value) = false := by simpa using hparen
    rw [List.cons_append, List.cons_append, List.cons_append, run_comparison hkind hparen', ih h]
  | case10 s token tokens hkind hshort =>
    exact absurd rfl (h token)

/-! ## Phrases -/

/-- The run over some tokens, with the connectives of the innermost group completed. -/
def runSettled (s : State) (tokens : List String) : Except Error State :=
  match run s tokens with
  | .error e => .error e
  | .ok s => settle s.waiting s.built

/-- The stacks with one more tree, which has to keep the limit of depth. -/
def State.pushTree (s : State) (tree : Tree) : Except Error State :=
  if tree.height ≤ Tree.maxDepth then .ok ⟨s.waiting, (tree, tree.height) :: s.built⟩
  else .error .tooDeep

theorem State.pushTree_of_le (s : State) {tree : Tree} (h : tree.height ≤ Tree.maxDepth) :
    s.pushTree tree = .ok ⟨s.waiting, (tree, tree.height) :: s.built⟩ :=
  if_pos h

theorem State.pushTree_of_not_le (s : State) {tree : Tree} (h : ¬ tree.height ≤ Tree.maxDepth) :
    s.pushTree tree = .error .tooDeep :=
  if_neg h

/-- There is no connective to complete before the innermost open group. -/
def IsSettled (waiting : List Waiting) : Prop :=
  ∀ built, settle waiting built = .ok ⟨waiting, built⟩

theorem isSettled_nil : IsSettled [] :=
  fun _ => rfl

theorem isSettled_group (waiting : List Waiting) : IsSettled (.group :: waiting) :=
  fun _ => rfl

/-- What it means that the stacks read a phrase as a tree. -/
def Reads (tokens : List String) (tree : Tree) : Phrase → Prop
  | .term => ∀ s, run s tokens = s.pushTree tree
  | .sentence => ∀ s, IsSettled s.waiting → runSettled s tokens = s.pushTree tree

theorem run_ne_incomplete {s s' : State} {tokens : List String} {tree : Tree}
    (h : runSettled s tokens = s'.pushTree tree) (attr : String) :
    run s tokens ≠ .error (.incompleteCondition attr) := by
  intro hrun
  rw [runSettled, hrun] at h
  by_cases hheight : tree.height ≤ Tree.maxDepth
  · rw [s'.pushTree_of_le hheight] at h
    cases h
  · rw [s'.pushTree_of_not_le hheight] at h
    cases h

/-- A connective after a sentence finds the tree of the sentence on the stack. -/
theorem run_append_connective {s : State} {tokens : List String} {tree : Tree} {keyword : String}
    {op : Connective} (h : runSettled s tokens = s.pushTree tree)
    (hkeyword : Connective.ofWord? keyword.toList = some op) (rest : List String) :
    run s (tokens ++ keyword :: rest) =
      match s.pushTree tree with
      | .error e => .error e
      | .ok s => run ⟨.connective op :: s.waiting, s.built⟩ rest := by
  rw [run_append (run_ne_incomplete h), ← h, runSettled]
  cases run s tokens with
  | error e => rfl
  | ok s' =>
    simp only [run_connective (kind_keyword hkeyword), pushConnective]
    cases settle s'.waiting s'.built with
    | error e => rfl
    | ok settled => rfl

/-- The end of a group finds it there too, and takes the group away. -/
theorem run_append_close {s : State} {tokens : List String} {tree : Tree}
    (h : runSettled ⟨.group :: s.waiting, s.built⟩ tokens =
      State.pushTree ⟨.group :: s.waiting, s.built⟩ tree) :
    run ⟨.group :: s.waiting, s.built⟩ (tokens ++ [")"]) = s.pushTree tree := by
  have hkind : kind ")" = .closeGroup := by decide
  rw [run_append (run_ne_incomplete h)]
  -- closing completes the connectives first, which is what `runSettled` did
  rw [runSettled] at h
  by_cases hheight : tree.height ≤ Tree.maxDepth
  · rw [State.pushTree_of_le _ hheight] at h ⊢
    cases hrun : run ⟨.group :: s.waiting, s.built⟩ tokens with
    | error e =>
      rw [hrun] at h
      cases h
    | ok s' =>
      simp only [hrun] at h
      simp only [run_closeGroup hkind, closeGroup, h, run]
  · rw [State.pushTree_of_not_le _ hheight] at h ⊢
    cases hrun : run ⟨.group :: s.waiting, s.built⟩ tokens with
    | error e =>
      simpa only [hrun] using h
    | ok s' =>
      simp only [hrun] at h
      simp only [run_closeGroup hkind, closeGroup, h]

theorem reads_call {token : String} (h : kind token = .call) :
    Reads [token] (.operand token) .term := by
  intro s
  rw [run_call h, run]
  rfl

theorem reads_comparison {attr operator value : String} (hattr : kind attr = .word)
    (hoperator : isParenthesis operator = false) (hvalue : isParenthesis value = false) :
    Reads [attr, operator, value] (.operand (conditionText attr operator value)) .term := by
  intro s
  have hparen := Bool.or_eq_false_iff.2 ⟨hoperator, hvalue⟩
  rw [run_comparison hattr hparen, run]
  rfl

namespace Reads

variable {tokens lefts rights : List String} {tree left right : Tree}

theorem group (h : Reads tokens tree .sentence) :
    Reads ("(" :: (tokens ++ [")"])) tree .term := by
  intro s
  have hkind : kind "(" = .openGroup := by decide
  rw [run_openGroup hkind]
  exact run_append_close (h _ (isSettled_group _))

theorem single (h : Reads tokens tree .term) : Reads tokens tree .sentence := by
  intro s hs
  have hrun : run s tokens = s.pushTree tree := h s
  rw [runSettled, hrun]
  by_cases hheight : tree.height ≤ Tree.maxDepth
  · rw [s.pushTree_of_le hheight]
    exact hs _
  · rw [s.pushTree_of_not_le hheight]

theorem chain {keyword : String} {op : Connective} (hleft : Reads lefts left .sentence)
    (hkeyword : Connective.ofWord? keyword.toList = some op) (hright : Reads rights right .term) :
    Reads (lefts ++ keyword :: rights) (.branch op left right) .sentence := by
  intro s hs
  have hrun : ∀ s, run s rights = s.pushTree right := hright
  -- the left sentence is complete before the connective waits, and the right term comes after it
  rw [runSettled, run_append_connective (hleft s hs) hkeyword]
  by_cases hdepth : (Tree.branch op left right).height ≤ Tree.maxDepth
  · have hdepth' : max left.height right.height + 1 ≤ Tree.maxDepth := hdepth
    have hl : left.height ≤ Tree.maxDepth := by omega
    have hr : right.height ≤ Tree.maxDepth := by omega
    have hjoin : ¬ Tree.maxDepth < max left.height right.height + 1 := Nat.not_lt.2 hdepth
    rw [State.pushTree_of_le _ hdepth, State.pushTree_of_le _ hl]
    simp only [hrun, State.pushTree_of_le _ hr, settle, join, hjoin, if_false]
    -- nothing waits below the new branch
    exact hs _
  · rw [State.pushTree_of_not_le _ hdepth]
    by_cases hl : left.height ≤ Tree.maxDepth
    · rw [State.pushTree_of_le _ hl]
      by_cases hr : right.height ≤ Tree.maxDepth
      · -- both sides fit, so that the depth is found out when the two are joined
        have hjoin : Tree.maxDepth < max left.height right.height + 1 := Nat.lt_of_not_le hdepth
        simp only [hrun, State.pushTree_of_le _ hr, settle, join, hjoin, if_true]
      · simp only [hrun, State.pushTree_of_not_le _ hr]
    · -- the left side was refused before the connective came
      rw [State.pushTree_of_not_le _ hl]

theorem tokens_ne_nil (h : Reads tokens tree .sentence) : tokens ≠ [] := by
  rintro rfl
  have hread := h .initial isSettled_nil
  by_cases hheight : tree.height ≤ Tree.maxDepth
  · rw [State.pushTree_of_le _ hheight] at hread
    cases hread
  · rw [State.pushTree_of_not_le _ hheight] at hread
    cases hread

end Reads

theorem reads_of_derives {phrase : Phrase} {tokens : List String} {tree : Tree}
    (h : Derives phrase tokens tree) : Reads tokens tree phrase := by
  -- a term is on the stack at once, a sentence only with its last connective completed
  induction h with
  | call hcall => exact reads_call hcall
  | comparison hattr hoperator hvalue => exact reads_comparison hattr hoperator hvalue
  | group h ih => exact ih.group
  | single h ih => exact ih.single
  | chain hleft hkeyword hright ihLeft ihRight => exact ihLeft.chain hkeyword ihRight

end Reduction

/-- Tokens that are read as a sentence give its tree, unless it is too deep. -/
theorem ofTokens_of_reads {tokens : List String} {tree : Tree}
    (h : Reads tokens tree .sentence) :
    ofTokens tokens = if tree.height ≤ Tree.maxDepth then .ok tree else .error .tooDeep := by
  have hne : tokens.isEmpty = false := by
    simpa using h.tokens_ne_nil
  have hreads : runSettled .initial tokens = State.initial.pushTree tree :=
    h .initial isSettled_nil
  simp only [ofTokens, hne, Bool.false_eq_true, if_false]
  rw [runSettled] at hreads
  by_cases hheight : tree.height ≤ Tree.maxDepth
  · rw [State.pushTree_of_le _ hheight] at hreads
    cases hrun : run .initial tokens with
    | error e =>
      rw [hrun] at hreads
      cases hreads
    | ok s =>
      simp only [hrun] at hreads
      simp only [finish, hreads, hheight, if_true]
      rfl
  · rw [State.pushTree_of_not_le _ hheight] at hreads
    cases hrun : run .initial tokens with
    | error e =>
      simp only [hrun] at hreads
      simpa [hheight] using hreads
    | ok s =>
      simp only [hrun] at hreads
      simp only [finish, hreads, hheight, if_false]

theorem compile_of_reads {text : String} {tokens : List String} {tree : Tree}
    (htokens : HasTokens text tokens) (h : Reads tokens tree .sentence) :
    compile text = if tree.height ≤ Tree.maxDepth then .ok tree else .error .tooDeep := by
  rw [compile, tokenize_of_hasTokens htokens]
  exact ofTokens_of_reads h

theorem compile_of_derives {text : String} {tokens : List String} {tree : Tree}
    (htokens : HasTokens text tokens) (h : Derives .sentence tokens tree) :
    compile text = if tree.height ≤ Tree.maxDepth then .ok tree else .error .tooDeep :=
  compile_of_reads htokens (reads_of_derives h)

end Formula
end Eligibility
