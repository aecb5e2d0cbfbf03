import Mathlib.Control.Monad.Basic
import Eligibility.Proofs.Formula.Items
import Eligibility.Proofs.Formula.Operands
import Eligibility.Proofs.Tree.Count
import Eligibility.Proofs.Tree.Height

/-!
# Conservation — nothing is lost on the way from the tokens to the tree

Whatever the order of the tokens, the trees on the stack have, from the bottom to the top, the
operands of all items read so far in their order.  Every connective is either a branch of one of
these trees or still waits, and every open group was opened by an item and is closed by one.

* `Reduction.operandsOf`, `Reduction.branchesOf` — what the trees on the stack hold together;
* `Reduction.Holds` — the joint invariant of the two stacks, kept by every step (`Holds.step`) and
  so by every run (`Holds.run`);
* `leaves_of_ofTokens` — what the one tree holds that is left in the end.
-/

namespace Eligibility
namespace Formula
namespace Reduction

/-- The operands of the trees on the stack, from the bottom to the top. -/
def operandsOf (built : List (Tree × Nat)) : List String :=
  built.reverse.flatMap fun entry => entry.1.leaves

/-- The branches of a connective in the trees on the stack. -/
def branchesOf (op : Connective) (built : List (Tree × Nat)) : Nat :=
  (built.map fun entry => entry.1.branchCount op).sum

@[simp] theorem operandsOf_cons (entry : Tree × Nat) (built : List (Tree × Nat)) :
    operandsOf (entry :: built) = operandsOf built ++ entry.1.leaves := by
  simp [operandsOf]

@[simp] theorem branchesOf_cons (op : Connective) (entry : Tree × Nat)
    (built : List (Tree × Nat)) :
    branchesOf op (entry :: built) = entry.1.branchCount op + branchesOf op built := by
  simp [branchesOf]

/-- What the two stacks hold once some items are read. -/
structure Holds (read : List Item) (s : State) : Prop where
  operands : operandsOf s.built = read.filterMap Item.operand?
  connectives : ∀ op, branchesOf op s.built + s.waiting.count (.connective op) =
    (read.filterMap Item.connective?).count op
  groups : s.waiting.count .group + read.count .closeGroup = read.count .openGroup

theorem holds_initial : Holds [] .initial where
  operands := rfl
  connectives := fun _ => rfl
  groups := rfl

/-! ## One step -/

/-- A connective that is completed turns from one that waits into a branch. -/
theorem Holds.settle {read : List Item} {waiting : List Waiting} {built : List (Tree × Nat)}
    {s : State} (h : Holds read ⟨waiting, built⟩) (hsettle : settle waiting built = .ok s) :
    Holds read s := by
  fun_induction Reduction.settle waiting built with
  | case1 built op waiting e hjoin => cases hsettle
  | case2 built op waiting built' hjoin ih =>
    obtain ⟨left, right, rest, rfl, _, rfl⟩ := join_eq_ok_iff.1 hjoin
    refine ih ⟨?_, ?_, ?_⟩ hsettle
    · simpa [Tree.leaves] using h.operands
    · intro other
      have hother := h.connectives other
      simp only [branchesOf_cons, List.count_cons, beq_iff_eq, Waiting.connective.injEq] at hother
      simp only [branchesOf_cons, Tree.branchCount]
      omega
    · simpa using h.groups
  | case3 waiting built hwaiting =>
    cases hsettle
    exact h

/-- A condition that is read goes on top of the trees. -/
theorem Holds.push {read : List Item} {s : State} {item : Item} {condition : String}
    (h : Holds read s) (hitem : item.operand? = some condition) :
    Holds (read ++ [item]) (s.push condition) := by
  have hconnective : item.connective? = none := by
    cases item with
    | connective keyword op => cases hitem
    | _ => rfl
  have hopen : item ≠ .openGroup := by
    rintro rfl
    cases hitem
  have hclose : item ≠ .closeGroup := by
    rintro rfl
    cases hitem
  refine ⟨?_, ?_, ?_⟩
  · simpa [State.push, hitem, Tree.leaves] using h.operands
  · simpa [State.push, hconnective, Tree.branchCount] using h.connectives
  · simpa [State.push, List.count_singleton, hopen, hclose] using h.groups

theorem Holds.step {read : List Item} {s s' : State} {item : Item} (h : Holds read s)
    (hstep : s.step item = .ok s') : Holds (read ++ [item]) s' := by
  cases item with
  | openGroup =>
    cases hstep
    refine ⟨?_, ?_, ?_⟩
    · simpa [List.filterMap_cons, Item.operand?] using h.operands
    · simpa [List.filterMap_cons, Item.connective?] using h.connectives
    · have hgroups := h.groups
      simp only [List.count_append, List.count_cons, List.count_nil, beq_self_eq_true, if_true,
        reduceCtorEq, beq_iff_eq, if_false]
      omega
  | closeGroup =>
    have hsettled := h.settle (closeGroup_eq_ok_iff.1 hstep)
    refine ⟨?_, ?_, ?_⟩
    · simpa [List.filterMap_cons, Item.operand?] using hsettled.operands
    · simpa [List.filterMap_cons, Item.connective?] using hsettled.connectives
    · -- the group that is taken away makes up for the item that closes it
      have hgroups := hsettled.groups
      simp only [List.count_cons, beq_self_eq_true, if_true] at hgroups
      simp only [List.count_append, List.count_cons, List.count_nil, beq_self_eq_true, if_true,
        reduceCtorEq, beq_iff_eq, if_false]
      omega
  | connective keyword op =>
    obtain ⟨settled, hsettle, rfl⟩ := pushConnective_eq_ok_iff.1 hstep
    have hsettled := h.settle hsettle
    refine ⟨?_, ?_, ?_⟩
    · simpa [List.filterMap_cons, Item.operand?] using hsettled.operands
    · intro other
      have hother := hsettled.connectives other
      simp only [List.filterMap_append, List.filterMap_cons, Item.connective?, List.filterMap_nil,
        List.count_append, List.count_cons, List.count_nil, beq_iff_eq,
        Waiting.connective.injEq]
      omega
    · simpa using hsettled.groups
  | call token =>
    cases hstep
    exact h.push rfl
  | comparison attr operator value =>
    cases hstep
    exact h.push rfl

/-! ## Runs -/

theorem Holds.run {read more : List Item} {s s' : State} (h : Holds read s)
    (hrun : runItems s more = .ok s') : Holds (read ++ more) s' := by
  induction more generalizing read s with
  | nil =>
    cases hrun
    rwa [List.append_nil]
  | cons item more ih =>
    rcases runItems_cons_eq_ok_iff.1 hrun with ⟨s₁, hstep, hmore⟩
    have hread := ih (h.step hstep) hmore
    rwa [List.append_assoc] at hread

/-- No part of a run closes more groups than it has opened. -/
theorem count_closeGroup_le_of_run {before after : List Item} {s : State}
    (hrun : runItems .initial (before ++ after) = .ok s) :
    before.count .closeGroup ≤ before.count .openGroup := by
  rcases runItems_append_eq_ok_iff.1 hrun with ⟨s₁, hbefore, _⟩
  have hgroups := (holds_initial.run hbefore).groups
  rw [List.nil_append] at hgroups
  omega

end Reduction

open Reduction

theorem length_eq_count_add_count (ops : List Connective) :
    ops.length = ops.count .and + ops.count .or := by
  induction ops with
  | nil => rfl
  | cons op ops ih =>
    cases op with
    | and =>
      simp [ih]
      omega
    | or =>
      simp [ih]
      omega

/-- A tree of tokens has the conditions of the tokens as its leaves, in their order, and their
connectives as its branches; the groups of the tokens are balanced, and the tree keeps the limit of
depth. -/
theorem leaves_of_ofTokens {tokens : List String} {tree : Tree} (h : ofTokens tokens = .ok tree) :
    ∃ read, items tokens = some read ∧ read.flatMap Item.tokens = tokens ∧
      tree.leaves = read.filterMap Item.operand? ∧
      (∀ op, tree.branchCount op = (read.filterMap Item.connective?).count op) ∧
      tree.leafCount = (read.filterMap Item.connective?).length + 1 ∧
      (∀ before after, read = before ++ after →
        before.count .closeGroup ≤ before.count .openGroup) ∧
      read.count .closeGroup = read.count .openGroup ∧
      tree.depth ≤ Tree.maxDepth := by
  rcases ofTokens_eq_ok_iff.1 h with ⟨read, s, hread, hrun, hfinish⟩
  rcases finish_eq_ok_iff.1 hfinish with ⟨depth, hsettle⟩
  -- in the end nothing waits and one tree is on the stack
  have hend : Holds read ⟨[], [(tree, depth)]⟩ := (holds_initial.run hrun).settle hsettle
  have hleaves : tree.leaves = read.filterMap Item.operand? := by
    simpa [operandsOf] using hend.operands
  have hbranches : ∀ op, tree.branchCount op = (read.filterMap Item.connective?).count op := by
    simpa [branchesOf] using hend.connectives
  have hcount : tree.leafCount = (read.filterMap Item.connective?).length + 1 := by
    rw [tree.leafCount_eq_length_leaves, tree.length_leaves, hbranches, hbranches,
      length_eq_count_add_count]
  have hbefore : ∀ before after, read = before ++ after →
      before.count .closeGroup ≤ before.count .openGroup := by
    rintro before after rfl
    exact count_closeGroup_le_of_run hrun
  have hgroups : read.count .closeGroup = read.count .openGroup := by
    simpa using hend.groups
  obtain ⟨_, hentry⟩ : ∃ depth, EntryOf (fun _ => True) (tree, depth) :=
    entryOf_of_ofTokens h fun _ _ => trivial
  have hdepth : tree.depth ≤ Tree.maxDepth := tree.depth_eq_height ▸ hentry.height_le
  exact ⟨read, hread, (items_eq_some_iff.1 hread).1, hleaves, hbranches, hcount, hbefore,
    hgroups, hdepth⟩

/-- An empty group, two conditions side by side, and a connective that takes both its sides from
before its own group. -/
theorem leaves_of_ofTokens_misplaced :
    let tokens :=
      ["(", ")", "a", "=", "1", "f(x)", "and", "(", "b", "OR", "c", "or", ")"]
    let tree : Tree :=
      .branch .and (.operand "a = 1") (.branch .or (.operand "f(x)") (.operand "b OR c"))
    ofTokens tokens = .ok tree ∧
      ∃ read, items tokens = some read ∧ read.flatMap Item.tokens = tokens ∧
        tree.leaves = read.filterMap Item.operand? ∧
        tree.leafCount = (read.filterMap Item.connective?).length + 1 ∧
        read.count .closeGroup = 2 := by
  intro tokens tree
  have htree : ofTokens tokens = .ok tree := by decide +kernel
  rcases leaves_of_ofTokens htree with ⟨read, hread, htokens, hleaves, _, hcount, _, _, _⟩
  have hitems : items tokens = some
      [.openGroup, .closeGroup, .comparison "a" "=" "1", .call "f(x)", .connective "and" .and,
        .openGroup, .comparison "b" "OR" "c", .connective "or" .or, .closeGroup] := by
    decide +kernel
  refine ⟨htree, read, hread, htokens, hleaves, hcount, ?_⟩
  rw [hread, Option.some.injEq] at hitems
  rw [hitems]
  decide

end Formula
end Eligibility
