import Mathlib.Control.Monad.Basic
import Eligibility.Proofs.Combination
import Eligibility.Proofs.Formula.Operands

/-!
# Disjunction — combining trees is compiling the disjunction of their texts

A text in parentheses is read on top of whatever the stacks hold before it.  What is accepted from
empty stacks, whatever it looks like, takes nothing from below and leaves just its tree, so that it
is read there as it is read alone.  The combination of compiled trees is then the tree of their
texts, each between parentheses, joined by `OR`: both are folded from the left, and both are refused
where the joined tree is too deep.

* `Reduction.State.onTop` — stacks on top of others, and the moves that do not reach below;
* `Reduction.runItems_onTop` — nor does a run;
* `reads_of_ofTokens` — accepted tokens are read as their tree on any stacks;
* `Compiled`, `disjunction`, `compile_disjunction_eq` — texts that compile, and the tree of the
  joined texts;
* `compile_disjunction` — the same as the combination.
-/

namespace Eligibility
namespace Formula

namespace Reduction

variable {s s' base : State}

/-- Stacks on top of others. -/
def State.onTop (s base : State) : State :=
  ⟨s.waiting ++ base.waiting, s.built ++ base.built⟩

/-! ## Moves on top of other stacks -/

theorem join_append {op : Connective} {built built' : List (Tree × Nat)}
    (h : join op built = .ok built') (below : List (Tree × Nat)) :
    join op (built ++ below) = .ok (built' ++ below) := by
  rcases join_eq_ok_iff.1 h with ⟨left, right, rest, rfl, hdepth, rfl⟩
  exact join_eq_ok_iff.2 ⟨left, right, rest ++ below, rfl, hdepth, rfl⟩

/-- Completing connectives goes on to the stacks below only where no group is open, and finds none
to complete there. -/
theorem settle_onTop (hbase : IsSettled base.waiting) {waiting : List Waiting}
    {built : List (Tree × Nat)} {settled : State} (h : settle waiting built = .ok settled) :
    settle (waiting ++ base.waiting) (built ++ base.built) = .ok (settled.onTop base) := by
  fun_induction settle waiting built with
  | case1 built op waiting e hjoin => cases h
  | case2 built op waiting built' hjoin ih =>
    rw [List.cons_append, settle, join_append hjoin]
    exact ih h
  | case3 waiting built hwaiting =>
    cases h
    cases waiting with
    | nil => exact hbase (built ++ base.built)
    | cons first waiting =>
      cases first with
      | group => rfl
      | connective op => exact absurd rfl (hwaiting op waiting)

theorem closeGroup_onTop (hbase : IsSettled base.waiting) (h : closeGroup s = .ok s') :
    closeGroup (s.onTop base) = .ok (s'.onTop base) := by
  have hsettle := settle_onTop hbase (closeGroup_eq_ok_iff.1 h)
  exact closeGroup_eq_ok_iff.2 hsettle

theorem pushConnective_onTop (hbase : IsSettled base.waiting) {op : Connective}
    (h : pushConnective op s = .ok s') :
    pushConnective op (s.onTop base) = .ok (s'.onTop base) := by
  rcases pushConnective_eq_ok_iff.1 h with ⟨settled, hsettle, rfl⟩
  exact pushConnective_eq_ok_iff.2 ⟨settled.onTop base, settle_onTop hbase hsettle, rfl⟩

theorem step_onTop (hbase : IsSettled base.waiting) {item : Item} (h : s.step item = .ok s') :
    (s.onTop base).step item = .ok (s'.onTop base) := by
  cases item with
  | openGroup =>
    cases h
    rfl
  | closeGroup => exact closeGroup_onTop hbase h
  | connective keyword op => exact pushConnective_onTop hbase h
  | call token =>
    cases h
    rfl
  | comparison attr operator value =>
    cases h
    rfl

/-- A run that succeeds does the same on top of other stacks. -/
theorem runItems_onTop (hbase : IsSettled base.waiting) {read : List Item}
    (h : runItems s read = .ok s') : runItems (s.onTop base) read = .ok (s'.onTop base) := by
  induction read generalizing s with
  | nil =>
    cases h
    rfl
  | cons item rest ih =>
    rcases runItems_cons_eq_ok_iff.1 h with ⟨s₁, hstep, hrest⟩
    exact runItems_cons_eq_ok_iff.2 ⟨s₁.onTop base, step_onTop hbase hstep, ih hrest⟩

end Reduction

open Reduction

/-! ## Accepted tokens on top of other stacks -/

/-- Tokens that are accepted alone are read as their tree wherever a sentence may stand, grammatical
or not. -/
theorem reads_of_ofTokens {tokens : List String} {tree : Tree} (h : ofTokens tokens = .ok tree) :
    Reads tokens tree .sentence := by
  intro base hbase
  rcases ofTokens_eq_ok_iff.1 h with ⟨read, s, hread, hitems, hfinish⟩
  rcases finish_eq_ok_iff.1 hfinish with ⟨depth, hsettle⟩
  have hrun : run base tokens = .ok (s.onTop base) :=
    run_eq_ok_iff.2 ⟨read, hread, runItems_onTop hbase hitems⟩
  have hsettle' := settle_onTop hbase hsettle
  -- the depth beside the tree is its height
  have hentry : EntryOf (fun _ => True) (tree, depth) := by
    have hinitial : run .initial tokens = .ok s := run_eq_ok_iff.2 ⟨read, hread, hitems⟩
    have hbuilt : ∀ entry ∈ s.built, EntryOf (fun _ => True) entry :=
      entryOf_of_run hinitial (fun _ _ => trivial) (by simp [State.initial])
    exact entryOf_of_settle hsettle hbuilt (tree, depth) (by simp)
  calc
    runSettled base tokens
        = settle (s.waiting ++ base.waiting) (s.built ++ base.built) := by
          rw [runSettled, hrun]
          rfl
    _ = .ok ⟨base.waiting, (tree, depth) :: base.built⟩ := hsettle'
    _ = base.pushTree tree := by
          have hdepth : depth = tree.height := hentry.depth_eq
          rw [base.pushTree_of_le hentry.height_le, hdepth]

theorem exists_tokens_of_compile {text : String} {tree : Tree} (h : compile text = .ok tree) :
    ∃ tokens, HasTokens text tokens ∧ Reads tokens tree .sentence := by
  rcases compile_eq_ok_iff.1 h with ⟨tokens, htokens, htree⟩
  exact ⟨tokens, hasTokens_of_tokenize htokens, reads_of_ofTokens htree⟩

/-! ## Texts joined by `OR` -/

/-- A text that compiles, with its tree and a name for it. -/
structure Compiled where
  name : String
  text : String
  tree : Tree
  compile_eq : compile text = .ok tree

/-- What such a text gives to a combination. -/
def Compiled.part (source : Compiled) : String × Tree :=
  (source.name, source.tree)

def parenthesized (text : String) : String :=
  "(" ++ text ++ ")"

/-- The text that joins texts by `OR`, each between parentheses. -/
def disjunction (texts : List String) : String :=
  " OR ".intercalate (texts.map parenthesized)

/-- Joining goes on from the first two texts joined. -/
theorem intercalate_or_cons_cons (text text' : String) (rest : List String) :
    " OR ".intercalate (text :: text' :: rest) =
      " OR ".intercalate ((text ++ " " ++ Connective.or.keyword ++ " " ++ text') :: rest) := by
  have hjoin : text ++ " OR " ++ text' = text ++ " " ++ Connective.or.keyword ++ " " ++ text' := by
    simp [Connective.keyword, String.append_assoc]
  rw [← hjoin]
  rfl

/-- A further text between parentheses joins a sentence from the right, as its tree joins the
tree. -/
theorem exists_tokens_joined {text text' keyword : String} {tokens : List String}
    {tree tree' : Tree} {op : Connective} (htokens : HasTokens text tokens)
    (hreads : Reads tokens tree .sentence)
    (hkeyword : Connective.ofWord? keyword.toList = some op) (h' : compile text' = .ok tree') :
    ∃ tokens', HasTokens (text ++ " " ++ keyword ++ " " ++ parenthesized text') tokens' ∧
      Reads tokens' (.branch op tree tree') .sentence := by
  rcases exists_tokens_of_compile h' with ⟨rights, hrights, hright⟩
  have hor := hasTokens_spaced htokens (hasTokens_of_ofWord? hkeyword)
  have hjoined := hasTokens_spaced hor (hasTokens_group hrights)
  rw [List.append_assoc] at hjoined
  exact ⟨_, hjoined, hreads.chain hkeyword hright.group⟩

/-- So do further texts joined by `OR`. -/
theorem exists_tokens_of_rest {text : String} {tokens : List String} {tree : Tree}
    (htokens : HasTokens text tokens) (hreads : Reads tokens tree .sentence)
    (rest : List Compiled) :
    ∃ tokens',
      HasTokens (" OR ".intercalate (text :: (rest.map Compiled.text).map parenthesized)) tokens' ∧
        Reads tokens' (tree.orAll (rest.map Compiled.tree)) .sentence := by
  induction rest generalizing text tokens tree with
  | nil => exact ⟨tokens, htokens, hreads⟩
  | cons next rest ih =>
    have hkeyword := Connective.ofWord?_keyword .or
    rcases exists_tokens_joined htokens hreads hkeyword next.compile_eq with
      ⟨joined, hjoined, hsentence⟩
    rw [List.map_cons, List.map_cons, intercalate_or_cons_cons]
    exact ih hjoined hsentence

/-- Compiled texts compile together to their trees joined from the left, unless that is too
deep. -/
theorem compile_disjunction_eq (first : Compiled) (rest : List Compiled) :
    compile (disjunction ((first :: rest).map Compiled.text)) =
      if (first.tree.orAll (rest.map Compiled.tree)).height ≤ Tree.maxDepth then
        .ok (first.tree.orAll (rest.map Compiled.tree))
      else .error .tooDeep := by
  rcases exists_tokens_of_compile first.compile_eq with ⟨tokens, htokens, hreads⟩
  rcases exists_tokens_of_rest (hasTokens_group htokens) hreads.group.single rest with
    ⟨tokens', htokens', hreads'⟩
  exact compile_of_reads htokens' hreads'

/-- For texts that compile, in any number but none, the disjunction of the texts and the combination
of the trees, under any names, are one tree, or both are refused as too deep. -/
theorem compile_disjunction {sources : List Compiled} (hne : sources ≠ []) :
    (∃ tree, compile (disjunction (sources.map Compiled.text)) = .ok tree ∧
      Combination.ofParts (sources.map Compiled.part) =
        .ok ⟨Combination.nameOf (sources.map Compiled.name), tree⟩) ∨
    (compile (disjunction (sources.map Compiled.text)) = .error .tooDeep ∧
      Combination.ofParts (sources.map Compiled.part) = .error .tooDeep) := by
  cases sources with
  | nil => exact absurd rfl hne
  | cons first rest =>
    -- a compiled tree is within the limit, so that a single one needs no check
    have hheight : first.tree.height ≤ Tree.maxDepth :=
      (isRule_of_compile first.compile_eq).height_le
    have hsingle : rest.map Compiled.part = [] → first.part.2.height ≤ Tree.maxDepth :=
      fun _ => hheight
    have htrees : (rest.map Compiled.part).map Prod.snd = rest.map Compiled.tree :=
      List.map_map
    have hnames : ((first :: rest).map Compiled.part).map Prod.fst =
        (first :: rest).map Compiled.name := List.map_map
    have hcombine := Combination.ofParts_eq hsingle
    rw [htrees, ← List.map_cons, hnames] at hcombine
    rw [compile_disjunction_eq, hcombine]
    by_cases hfits : (first.tree.orAll (rest.map Compiled.tree)).height ≤ Tree.maxDepth
    · rw [if_pos hfits]
      exact .inl ⟨_, rfl, if_pos hfits⟩
    · rw [if_neg hfits]
      exact .inr ⟨rfl, if_neg hfits⟩

/-- Texts outside the grammar, a keyword in quotes among them, and so many texts that they are too
deep together. -/
theorem compile_disjunction_misplaced :
    let mixed : Tree := .branch .and (.operand "a = 1") (.operand "b = 2")
    let parts : List (String × Tree) :=
      [("odd", mixed), ("quoted", .operand "c = 'OR)'"), ("odd", mixed)]
    let many : List (String × Tree) := List.replicate 66 ("leaf", .operand "a = 1")
    (∃ tree, compile "(a = 1 b = 2 AND) OR (() c = 'OR)') OR (AND a = 1 b = 2)" = .ok tree ∧
      Combination.ofParts parts = .ok ⟨"Combined: odd + quoted + odd", tree⟩) ∧
      compile (disjunction (List.replicate 66 "a = 1")) = .error .tooDeep ∧
      Combination.ofParts many = .error .tooDeep := by
  intro mixed parts many
  let sources : List Compiled :=
    [⟨"odd", "a = 1 b = 2 AND", mixed, by decide +kernel⟩,
      ⟨"quoted", "() c = 'OR)'", .operand "c = 'OR)'", by decide +kernel⟩,
      ⟨"odd", "AND a = 1 b = 2", mixed, by decide +kernel⟩]
  let leaf : Compiled := ⟨"leaf", "a = 1", .operand "a = 1", by decide +kernel⟩
  have hname : Combination.nameOf (parts.map Prod.fst) = "Combined: odd + quoted + odd" := by decide
  refine ⟨?_, ?_⟩
  · have hne : sources ≠ [] := List.cons_ne_nil _ _
    rcases compile_disjunction hne with ⟨tree, hcompile, hcombine⟩ | ⟨_, hdeep⟩
    · rw [← hname]
      exact ⟨tree, hcompile, hcombine⟩
    · have hok : Combination.ofParts parts ≠ .error .tooDeep := by decide +kernel
      exact absurd hdeep hok
  · have hne : List.replicate 66 leaf ≠ [] := List.cons_ne_nil _ _
    rcases compile_disjunction hne with ⟨tree, _, hcombine⟩ | ⟨htext, hdeep⟩
    · have herror : Combination.ofParts many = .error .tooDeep := by decide +kernel
      rw [List.map_replicate] at hcombine
      exact absurd (herror.symm.trans hcombine) (by simp)
    · rw [List.map_replicate] at htext hdeep
      exact ⟨htext, hdeep⟩

end Formula
end Eligibility
