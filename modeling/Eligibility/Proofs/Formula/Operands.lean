import Eligibility.Proofs.Formula.Items

/-!
# Operands — what the trees of rule text are made of

The two stacks hold, at every moment of a run, trees with their exact depths, within the limit, and
with operands that are calls or comparisons put together from tokens.

* `OperandOf` — the operand texts that can be put together from given tokens;
* `EntryOf` — what holds of every tree on the stack, kept by every move (`entryOf_of_run`);
* `IsToken` — a text that is its own only token;
* `IsRule` — the trees that this makes, and `isRule_of_compile`.
-/

namespace Eligibility
namespace Formula

open Reduction

/-- The texts of the operands that are put together from certain tokens. -/
inductive OperandOf (Allowed : String → Prop) : String → Prop where
  | call {token : String} (htoken : Allowed token) (hcall : kind token = .call) :
      OperandOf Allowed token
  | comparison {attr operator value : String} (hattr : Allowed attr) (hoperator : Allowed operator)
      (hvalue : Allowed value) (hword : kind attr = .word)
      (hoperator' : isParenthesis operator = false) (hvalue' : isParenthesis value = false) :
      OperandOf Allowed (conditionText attr operator value)

/-- A tree on the stack: it is kept with its depth and made of certain tokens. -/
structure EntryOf (Allowed : String → Prop) (entry : Tree × Nat) : Prop where
  depth_eq : entry.2 = entry.1.height
  height_le : entry.1.height ≤ Tree.maxDepth
  operands : ∀ condition ∈ entry.1.leaves, OperandOf Allowed condition

namespace Reduction

variable {Allowed : String → Prop}

theorem entryOf_operand {condition : String} (h : OperandOf Allowed condition) :
    EntryOf Allowed (.operand condition, 0) where
  depth_eq := rfl
  height_le := Nat.zero_le _
  operands := by
    intro c hc
    rw [Tree.leaves, List.mem_singleton] at hc
    exact hc ▸ h

theorem entryOf_branch {op : Connective} {left right : Tree × Nat} (hleft : EntryOf Allowed left)
    (hright : EntryOf Allowed right) (hdepth : max left.2 right.2 + 1 ≤ Tree.maxDepth) :
    EntryOf Allowed (.branch op left.1 right.1, max left.2 right.2 + 1) := by
  -- the depth that is carried on is the height of the new branch
  have heq : max left.2 right.2 + 1 = (Tree.branch op left.1 right.1).height := by
    rw [hleft.depth_eq, hright.depth_eq, Tree.height]
  refine ⟨heq, heq ▸ hdepth, ?_⟩
  intro c hc
  rw [Tree.leaves, List.mem_append] at hc
  exact hc.elim (hleft.operands c) (hright.operands c)

/-! ## Moves of the stacks -/

theorem entryOf_of_join {op : Connective} {built built' : List (Tree × Nat)}
    (h : join op built = .ok built') (hbuilt : ∀ entry ∈ built, EntryOf Allowed entry) :
    ∀ entry ∈ built', EntryOf Allowed entry := by
  rcases join_eq_ok_iff.1 h with ⟨left, right, rest, rfl, hdepth, rfl⟩
  have hleft := hbuilt left (by simp)
  have hright := hbuilt right (by simp)
  intro entry hentry
  rcases List.mem_cons.1 hentry with rfl | hrest
  · exact entryOf_branch hleft hright hdepth
  · exact hbuilt entry (by simp [hrest])

theorem entryOf_of_settle {waiting : List Waiting} {built : List (Tree × Nat)} {s : State}
    (h : settle waiting built = .ok s) (hbuilt : ∀ entry ∈ built, EntryOf Allowed entry) :
    ∀ entry ∈ s.built, EntryOf Allowed entry := by
  -- each round joins the two topmost trees and goes on with one connective less
  fun_induction settle waiting built with
  | case1 built op waiting e hjoin => cases h
  | case2 built op waiting built' hjoin ih => exact ih h (entryOf_of_join hjoin hbuilt)
  | case3 waiting built hwaiting =>
    cases h
    exact hbuilt

theorem entryOf_of_push {s : State} {condition : String} (h : OperandOf Allowed condition)
    (hbuilt : ∀ entry ∈ s.built, EntryOf Allowed entry) :
    ∀ entry ∈ (s.push condition).built, EntryOf Allowed entry := by
  intro entry hentry
  rcases List.mem_cons.1 hentry with rfl | hrest
  · exact entryOf_operand h
  · exact hbuilt entry hrest

theorem entryOf_of_closeGroup {s s' : State} (h : closeGroup s = .ok s')
    (hbuilt : ∀ entry ∈ s.built, EntryOf Allowed entry) :
    ∀ entry ∈ s'.built, EntryOf Allowed entry := by
  have hsettled := entryOf_of_settle (closeGroup_eq_ok_iff.1 h) hbuilt
  exact hsettled

theorem entryOf_of_pushConnective {s s' : State} {op : Connective}
    (h : pushConnective op s = .ok s') (hbuilt : ∀ entry ∈ s.built, EntryOf Allowed entry) :
    ∀ entry ∈ s'.built, EntryOf Allowed entry := by
  rcases pushConnective_eq_ok_iff.1 h with ⟨settled, hsettle, rfl⟩
  have hsettled := entryOf_of_settle hsettle hbuilt
  exact hsettled

theorem entryOf_of_run {s s' : State} {tokens : List String} (h : run s tokens = .ok s')
    (htokens : ∀ token ∈ tokens, Allowed token)
    (hbuilt : ∀ entry ∈ s.built, EntryOf Allowed entry) :
    ∀ entry ∈ s'.built, EntryOf Allowed entry := by
  -- every kind of token makes one move, and the rest of the tokens is read after it
  fun_induction run s tokens with
  | case1 s =>
    cases h
    exact hbuilt
  | case2 s token rest hkind ih =>
    exact ih h (fun t ht => htokens t (by simp [ht])) hbuilt
  | case3 s token rest hkind e hclose => cases h
  | case4 s token rest hkind s₁ hclose ih =>
    exact ih h (fun t ht => htokens t (by simp [ht])) (entryOf_of_closeGroup hclose hbuilt)
  | case5 s token rest op hkind e hpush => cases h
  | case6 s token rest op hkind s₁ hpush ih =>
    exact ih h (fun t ht => htokens t (by simp [ht])) (entryOf_of_pushConnective hpush hbuilt)
  | case7 s token rest hkind ih =>
    have hcall := OperandOf.call (htokens token (by simp)) hkind
    exact ih h (fun t ht => htokens t (by simp [ht])) (entryOf_of_push hcall hbuilt)
  | case8 s attr hkind operator value rest hparen => cases h
  | case9 s attr hkind operator value rest hparen ih =>
    -- operator and value are taken whatever they are, parentheses excepted
    have hparen' := Bool.or_eq_false_iff.1 (Bool.eq_false_iff.2 hparen)
    have hcomparison := OperandOf.comparison (htokens attr (by simp)) (htokens operator (by simp))
      (htokens value (by simp)) hkind hparen'.1 hparen'.2
    exact ih h (fun t ht => htokens t (by simp [ht])) (entryOf_of_push hcomparison hbuilt)
  | case10 s attr rest hkind hshort => cases h

theorem entryOf_of_finish {s : State} {tree : Tree} (h : finish s = .ok tree)
    (hbuilt : ∀ entry ∈ s.built, EntryOf Allowed entry) :
    ∃ depth, EntryOf Allowed (tree, depth) := by
  rcases finish_eq_ok_iff.1 h with ⟨depth, hsettle⟩
  exact ⟨depth, entryOf_of_settle hsettle hbuilt (tree, depth) (by simp)⟩

end Reduction

/-! ## Trees of rule text -/

/-- A text that is its own only token. -/
def IsToken (token : String) : Prop :=
  HasTokens token [token]

/-- The trees that rule text can stand for. -/
structure IsRule (tree : Tree) : Prop where
  height_le : tree.height ≤ Tree.maxDepth
  operands : ∀ condition ∈ tree.leaves, OperandOf IsToken condition

theorem isToken_of_tokenize {text : String} {tokens : List String}
    (h : tokenize text = .ok tokens) : ∀ token ∈ tokens, IsToken token := by
  intro token htoken
  exact Token.tokens_of_mem (hasTokens_of_tokenize h) (List.mem_map_of_mem htoken)

theorem entryOf_of_ofTokens {Allowed : String → Prop} {tokens : List String} {tree : Tree}
    (h : ofTokens tokens = .ok tree) (htokens : ∀ token ∈ tokens, Allowed token) :
    ∃ depth, EntryOf Allowed (tree, depth) := by
  unfold ofTokens at h
  split at h
  · cases h
  · cases hrun : run .initial tokens with
    | error e => simp [hrun] at h
    | ok s =>
      simp only [hrun] at h
      exact entryOf_of_finish h (entryOf_of_run hrun htokens (by simp [State.initial]))

theorem isRule_of_compile {text : String} {tree : Tree} (h : compile text = .ok tree) :
    IsRule tree := by
  rcases compile_eq_ok_iff.1 h with ⟨tokens, htokens, htree⟩
  rcases entryOf_of_ofTokens htree (isToken_of_tokenize htokens) with ⟨depth, hentry⟩
  exact ⟨hentry.height_le, hentry.operands⟩

end Formula
end Eligibility
