import Mathlib.Control.Monad.Basic
import Eligibility.Proofs.Formula.Items

/-!
# Alternation — which accepted texts are sentences

The stacks only count: a connective takes the two topmost trees, wherever they come from, and in the
end one tree has to be left.  A text in which two misplaced items make up for each other, such as
two adjacent conditions and a connective behind them, is therefore accepted although it is no
sentence.  What the stacks do not look at is the order of operands and connectives, and nothing
else is missing: an accepted text is a sentence exactly when they alternate.

* `Reduction.alternates` — operands and connectives in turns, groups counted as operands;
* `alternates_of_derives` — the items of a sentence alternate;
* `Reduction.Stands` — what the stacks hold in the middle of a sentence, kept by alternating items
  (`Reduction.stands_of_run`);
* `derives_iff_alternates_of_compile` — the sentences among the accepted texts.
-/

namespace Eligibility
namespace Formula

open Reduction

namespace Reduction

/-- Do operands and connectives alternate, up to an operand at the end?  The flag says whether an
operand is due. -/
def alternates : Bool → List Item → Bool
  | true, .openGroup :: rest => alternates true rest
  | true, .call _ :: rest => alternates false rest
  | true, .comparison _ _ _ :: rest => alternates false rest
  | false, .closeGroup :: rest => alternates false rest
  | false, .connective _ _ :: rest => alternates true rest
  | false, [] => true
  | _, _ => false

end Reduction

/-! ## Sentences alternate -/

theorem alternates_of_derives {phrase : Phrase} {tokens : List String} {tree : Tree}
    (h : Derives phrase tokens tree) :
    ∃ read, read.flatMap Item.tokens = tokens ∧ (∀ item ∈ read, item.IsFormed) ∧
      ∀ rest, alternates true (read ++ rest) = alternates false rest := by
  induction h with
  | @call token hcall =>
    exact ⟨[.call token], rfl, by simpa [Item.IsFormed] using hcall, fun _ => rfl⟩
  | @comparison attr operator value hattr hoperator hvalue =>
    exact ⟨[.comparison attr operator value], rfl,
      by simp [Item.IsFormed, hattr, hoperator, hvalue], fun _ => rfl⟩
  | @group tokens tree h ih =>
    rcases ih with ⟨read, rfl, hformed, halternates⟩
    refine ⟨.openGroup :: (read ++ [.closeGroup]), ?_, ?_, ?_⟩
    · simp [Item.tokens]
    · simpa [Item.IsFormed, or_imp, forall_and] using hformed
    · intro rest
      calc
        alternates true (.openGroup :: (read ++ [.closeGroup]) ++ rest)
            = alternates true (read ++ .closeGroup :: rest) := by simp [alternates]
        _ = alternates false (.closeGroup :: rest) := halternates _
        _ = alternates false rest := rfl
  | single h ih => exact ih
  | @chain lefts rights left right keyword op hleft hkeyword hright ihLeft ihRight =>
    rcases ihLeft with ⟨readLeft, rfl, hformedLeft, halternatesLeft⟩
    rcases ihRight with ⟨readRight, rfl, hformedRight, halternatesRight⟩
    refine ⟨readLeft ++ .connective keyword op :: readRight, ?_, ?_, ?_⟩
    · simp [Item.tokens]
    · intro item hitem
      rcases List.mem_append.1 hitem with hmem | hmem
      · exact hformedLeft item hmem
      · rcases List.mem_cons.1 hmem with rfl | hmem
        · exact kind_keyword hkeyword
        · exact hformedRight item hmem
    · intro rest
      calc
        alternates true (readLeft ++ .connective keyword op :: readRight ++ rest)
            = alternates true (readLeft ++ .connective keyword op :: (readRight ++ rest)) := by simp
        _ = alternates false (.connective keyword op :: (readRight ++ rest)) := halternatesLeft _
        _ = alternates true (readRight ++ rest) := rfl
        _ = alternates false rest := halternatesRight rest

/-! ## Alternating items make sentences -/

namespace Reduction

/-- The places in the middle of a sentence. -/
inductive Stage where
  /-- At the start of a group or of the text. -/
  | opened
  /-- Before an operand. -/
  | due
  /-- Behind an operand. -/
  | complete

/-- What the stacks hold in the middle of a sentence, behind certain tokens: each open group is left
alone until it is closed, and in the innermost one a sentence is complete up to a connective that
waits for its right side or has just got it. -/
inductive Stands : Stage → List String → State → Prop where
  | start : Stands .opened [] .initial
  | group {tokens : List String} {s : State} (h : Stands .due tokens s) :
      Stands .opened (tokens ++ ["("]) ⟨.group :: s.waiting, s.built⟩
  | opened {tokens : List String} {s : State} (h : Stands .opened tokens s) : Stands .due tokens s
  | connective {before lefts : List String} {s : State} {left : Tree} {keyword : String}
      {op : Connective} (h : Stands .opened before s) (hleft : Derives .sentence lefts left)
      (hkeyword : Connective.ofWord? keyword.toList = some op) (depth : Nat) :
      Stands .due (before ++ (lefts ++ [keyword]))
        ⟨.connective op :: s.waiting, (left, depth) :: s.built⟩
  | first {before tokens : List String} {s : State} {tree : Tree} (h : Stands .opened before s)
      (hsentence : Derives .sentence tokens tree) (depth : Nat) :
      Stands .complete (before ++ tokens) ⟨s.waiting, (tree, depth) :: s.built⟩
  | further {before lefts rights : List String} {s : State} {left right : Tree} {keyword : String}
      {op : Connective} (h : Stands .opened before s) (hleft : Derives .sentence lefts left)
      (hkeyword : Connective.ofWord? keyword.toList = some op) (hright : Derives .term rights right)
      (leftDepth rightDepth : Nat) :
      Stands .complete (before ++ (lefts ++ keyword :: rights))
        ⟨.connective op :: s.waiting, (right, rightDepth) :: (left, leftDepth) :: s.built⟩

namespace Stands

theorem isSettled {tokens : List String} {s : State} (h : Stands .opened tokens s) :
    IsSettled s.waiting := by
  cases h with
  | start => exact isSettled_nil
  | group h => exact isSettled_group _

theorem term {before tokens : List String} {s : State} {tree : Tree} (h : Stands .due before s)
    (hterm : Derives .term tokens tree) (depth : Nat) :
    Stands .complete (before ++ tokens) ⟨s.waiting, (tree, depth) :: s.built⟩ := by
  cases h with
  | opened h => exact .first h (.single hterm) depth
  | connective h hleft hkeyword leftDepth =>
    have hfurther := Stands.further h hleft hkeyword hterm leftDepth depth
    simpa using hfurther

/-- With its last connective completed, the sentence of the innermost group is one tree. -/
theorem settle {tokens : List String} {s s' : State} (h : Stands .complete tokens s)
    (hsettle : settle s.waiting s.built = .ok s') :
    ∃ before sentence tree depth base, tokens = before ++ sentence ∧
      Stands .opened before ⟨s'.waiting, base⟩ ∧ Derives .sentence sentence tree ∧
      s'.built = (tree, depth) :: base := by
  cases h with
  | @first before sentence s tree h hsentence depth =>
    rw [h.isSettled] at hsettle
    cases hsettle
    exact ⟨before, sentence, tree, depth, s.built, rfl, h, hsentence, rfl⟩
  | @further before lefts rights s left right keyword op h hleft hkeyword hright ld rd =>
    simp only [Reduction.settle] at hsettle
    cases hjoin : join op ((right, rd) :: (left, ld) :: s.built) with
    | error e =>
      rw [hjoin] at hsettle
      cases hsettle
    | ok built =>
      obtain ⟨_, _, _, heq, _, rfl⟩ := join_eq_ok_iff.1 hjoin
      cases heq
      simp only [hjoin, h.isSettled _] at hsettle
      cases hsettle
      exact ⟨before, _, _, _, s.built, rfl, h, .chain hleft hkeyword hright, rfl⟩

/-- A closed group is a term of the group around it. -/
theorem closeGroup {tokens : List String} {s s' : State} (h : Stands .complete tokens s)
    (hclose : closeGroup s = .ok s') : Stands .complete (tokens ++ [")"]) s' := by
  rcases h.settle (closeGroup_eq_ok_iff.1 hclose) with
    ⟨before, sentence, tree, depth, base, rfl, hopened, hsentence, hbuilt⟩
  rcases s' with ⟨waiting, built⟩
  cases hbuilt
  cases hopened with
  | @group outer s hdue =>
    have hterm := hdue.term (.group hsentence) depth
    simpa using hterm

theorem pushConnective {tokens : List String} {s s' : State} {keyword : String} {op : Connective}
    (h : Stands .complete tokens s) (hkeyword : Connective.ofWord? keyword.toList = some op)
    (hpush : pushConnective op s = .ok s') : Stands .due (tokens ++ [keyword]) s' := by
  obtain ⟨settled, hsettle, rfl⟩ := pushConnective_eq_ok_iff.1 hpush
  rcases h.settle hsettle with
    ⟨before, sentence, tree, depth, base, rfl, hopened, hsentence, hbuilt⟩
  have hdue := Stands.connective hopened hsentence hkeyword depth
  rw [hbuilt]
  simpa using hdue

end Stands

/-- The stage that is told by whether an operand is due. -/
def Stage.ofDue (operandDue : Bool) : Stage :=
  if operandDue then .due else .complete

theorem stands_of_run {read : List Item} {operandDue : Bool} {before : List String} {s s' : State}
    (h : Stands (.ofDue operandDue) before s) (hformed : ∀ item ∈ read, item.IsFormed)
    (halternates : alternates operandDue read = true) (hrun : runItems s read = .ok s') :
    Stands .complete (before ++ read.flatMap Item.tokens) s' := by
  induction read generalizing operandDue before s with
  | nil =>
    cases hrun
    cases operandDue with
    | true => cases halternates
    | false =>
      rw [List.flatMap_nil, List.append_nil]
      exact h
  | cons item read ih =>
    rcases runItems_cons_eq_ok_iff.1 hrun with ⟨s₁, hstep, hrest⟩
    have hitem := hformed item (by simp)
    have hread := fun other hother => hformed other (List.mem_cons_of_mem item hother)
    rw [List.flatMap_cons, ← List.append_assoc]
    cases operandDue with
    | true =>
      cases item with
      | openGroup =>
        cases hstep
        have hnext : Stands (.ofDue true) _ _ := .opened (.group h)
        exact ih hnext hread halternates hrest
      | call token =>
        cases hstep
        have hnext : Stands (.ofDue false) _ _ := h.term (.call hitem) 0
        exact ih hnext hread halternates hrest
      | comparison attr operator value =>
        cases hstep
        have hterm := Derives.comparison hitem.1 hitem.2.1 hitem.2.2
        have hnext : Stands (.ofDue false) _ _ := h.term hterm 0
        exact ih hnext hread halternates hrest
      | closeGroup | connective => cases halternates
    | false =>
      cases item with
      | closeGroup =>
        have hnext : Stands (.ofDue false) _ _ := h.closeGroup hstep
        exact ih hnext hread halternates hrest
      | connective keyword op =>
        have hkeyword := kind_eq_connective_iff.1 hitem
        have hnext : Stands (.ofDue true) _ _ := h.pushConnective hkeyword hstep
        exact ih hnext hread halternates hrest
      | openGroup | call | comparison => cases halternates

end Reduction

theorem derives_of_alternates {tokens : List String} {read : List Item} {tree : Tree}
    (h : ofTokens tokens = .ok tree) (hread : items tokens = some read)
    (halternates : alternates true read = true) : Derives .sentence tokens tree := by
  rcases ofTokens_eq_ok_iff.1 h with ⟨read', s, hread', hrun, hfinish⟩
  rw [hread, Option.some.injEq] at hread'
  subst hread'
  rcases finish_eq_ok_iff.1 hfinish with ⟨depth, hsettle⟩
  rcases items_eq_some_iff.1 hread with ⟨htokens, hformed⟩
  have hstart : Stands (.ofDue true) [] .initial := .opened .start
  have hcomplete := stands_of_run hstart hformed halternates hrun
  rw [List.nil_append, htokens] at hcomplete
  rcases hcomplete.settle hsettle with
    ⟨before, sentence, tree', depth', base, rfl, hopened, hsentence, hbuilt⟩
  cases hbuilt
  -- nothing waits, so that the sentence starts where the text starts
  cases hopened with
  | start => exact hsentence

/-- An accepted text is a sentence with the tree that was built exactly when its operands and
connectives alternate. -/
theorem derives_iff_alternates_of_compile {text : String} {tree : Tree}
    (h : compile text = .ok tree) :
    ∃ tokens read, tokenize text = .ok tokens ∧ items tokens = some read ∧
      (Derives .sentence tokens tree ↔ alternates true read = true) := by
  unfold compile at h
  cases htokens : tokenize text with
  | error e =>
    rw [htokens] at h
    cases h
  | ok tokens =>
    simp only [htokens] at h
    rcases ofTokens_eq_ok_iff.1 h with ⟨read, s, hread, _, _⟩
    refine ⟨tokens, read, rfl, hread, ?_, derives_of_alternates h hread⟩
    intro hderives
    rcases alternates_of_derives hderives with ⟨read', hflat, hformed, halternates⟩
    have hread' := items_eq_some_iff.2 ⟨hflat, hformed⟩
    rw [hread, Option.some.injEq] at hread'
    subst hread'
    have hend := halternates []
    rwa [List.append_nil] at hend

/-- A group on the right and a keyword for a value. -/
theorem derives_iff_alternates_of_compile_group :
    let text := "a = AND or (f(x) AND b > 2)"
    let tree : Tree :=
      .branch .or (.operand "a = AND") (.branch .and (.operand "f(x)") (.operand "b > 2"))
    compile text = .ok tree ∧
      ∃ tokens, tokenize text = .ok tokens ∧ Derives .sentence tokens tree := by
  intro text tree
  have htree : compile text = .ok tree := by decide +kernel
  rcases derives_iff_alternates_of_compile htree with ⟨tokens, read, htokens, hread, hiff⟩
  have hgrouped : (tokenize text).toOption.bind items = some
      [.comparison "a" "=" "AND", .connective "or" .or, .openGroup, .call "f(x)",
        .connective "AND" .and, .comparison "b" ">" "2", .closeGroup] := by
    decide +kernel
  simp only [htokens, Except.toOption, Option.bind_some, hread, Option.some.injEq] at hgrouped
  subst hgrouped
  exact ⟨htree, tokens, htokens, hiff.2 (by decide)⟩

/-- Two conditions side by side and a connective behind them: the text is accepted, as if the
connective stood between them, and is no sentence. -/
theorem compile_adjacent_conditions :
    compile "a = 1 b = 2 AND" = .ok (.branch .and (.operand "a = 1") (.operand "b = 2")) ∧
      ∀ tokens tree, tokenize "a = 1 b = 2 AND" = .ok tokens → ¬ Derives .sentence tokens tree := by
  refine ⟨by decide +kernel, ?_⟩
  intro tokens tree htokens hderives
  have hgrouped : (tokenize "a = 1 b = 2 AND").toOption.bind items = some
      [.comparison "a" "=" "1", .comparison "b" "=" "2", .connective "AND" .and] := by
    decide +kernel
  rcases alternates_of_derives hderives with ⟨read, hflat, hformed, halternates⟩
  have hread := items_eq_some_iff.2 ⟨hflat, hformed⟩
  simp only [htokens, Except.toOption, Option.bind_some, hread, Option.some.injEq] at hgrouped
  subst hgrouped
  have hend := halternates []
  exact absurd hend (by decide)

end Formula
end Eligibility
