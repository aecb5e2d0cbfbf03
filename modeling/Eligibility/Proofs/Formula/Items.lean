import Eligibility.Proofs.Formula.Grammar

/-!
# Items — the tokens grouped as they are read

Reading takes the tokens in groups of one or three: a parenthesis, a connective, a call, or the
words of a comparison.  Only this grouping depends on what stands behind a token; after it, reading
is one step of the two stacks for each item.

* `Reduction.kind_cases` — what a token is, told from its characters;
* `Reduction.Item`, with the tokens that an item is made of and what it adds to a tree;
* `Reduction.items` — the grouping of a list of tokens, if every comparison has its words;
* `Reduction.items_eq_some_iff` — the grouping is the one way to put the tokens together from items;
* `Reduction.State.step`, `Reduction.runItems` — the stacks after some items;
* `Reduction.run_eq_ok_iff` — a run over tokens is the run over their items;
* `ofTokens_eq_ok_iff` — the trees of lists of tokens in these terms;
* `compile_eq_ok_iff` — the trees of texts in terms of their tokens.
-/

namespace Eligibility
namespace Formula
namespace Reduction

/-! ## The kinds of tokens -/

theorem kind_cases (token : String) :
    (token = "(" ∧ kind token = .openGroup) ∨ (token = ")" ∧ kind token = .closeGroup) ∨
      (isParenthesis token = false ∧
        ((∃ op, Connective.ofWord? token.toList = some op ∧ kind token = .connective op) ∨
          (Connective.ofWord? token.toList = none ∧
            ((isCall token.toList = true ∧ kind token = .call) ∨
              (isCall token.toList = false ∧ kind token = .word))))) := by
  by_cases hopen : token = "("
  · exact .inl ⟨hopen, by simp [kind, hopen]⟩
  · by_cases hclose : token = ")"
    · exact .inr (.inl ⟨hclose, by simp [kind, hclose]⟩)
    · refine .inr (.inr ⟨by simp [isParenthesis, hopen, hclose], ?_⟩)
      cases hword : Connective.ofWord? token.toList with
      | some op => exact .inl ⟨op, rfl, by simp [kind, hopen, hclose, hword]⟩
      | none =>
        refine .inr ⟨rfl, ?_⟩
        cases hcall : isCall token.toList with
        | true => exact .inl ⟨rfl, by simp [kind, hopen, hclose, hword, hcall]⟩
        | false => exact .inr ⟨rfl, by simp [kind, hopen, hclose, hword, hcall]⟩

theorem kind_eq_openGroup_iff {token : String} : kind token = .openGroup ↔ token = "(" := by
  rcases kind_cases token with ⟨rfl, h⟩ | ⟨rfl, h⟩ | ⟨hparen, h⟩
  · simp [h]
  · simp [h]
  · have hne : token ≠ "(" := by
      rintro rfl
      cases hparen
    rcases h with ⟨op, _, h⟩ | ⟨_, ⟨_, h⟩ | ⟨_, h⟩⟩
    · simp [h, hne]
    · simp [h, hne]
    · simp [h, hne]

theorem kind_eq_closeGroup_iff {token : String} : kind token = .closeGroup ↔ token = ")" := by
  rcases kind_cases token with ⟨rfl, h⟩ | ⟨rfl, h⟩ | ⟨hparen, h⟩
  · simp [h]
  · simp [h]
  · have hne : token ≠ ")" := by
      rintro rfl
      cases hparen
    rcases h with ⟨op, _, h⟩ | ⟨_, ⟨_, h⟩ | ⟨_, h⟩⟩
    · simp [h, hne]
    · simp [h, hne]
    · simp [h, hne]

theorem kind_eq_connective_iff {token : String} {op : Connective} :
    kind token = .connective op ↔ Connective.ofWord? token.toList = some op := by
  rcases kind_cases token with ⟨rfl, h⟩ | ⟨rfl, h⟩ | ⟨_, ⟨op', hword, h⟩ | ⟨hword, ⟨_, h⟩ | ⟨_, h⟩⟩⟩
  · rw [h]
    cases op <;> decide
  · rw [h]
    cases op <;> decide
  · simp [h, hword]
  · simp [h, hword]
  · simp [h, hword]

/-- A call ends in `)`, which no keyword does. -/
theorem isCall_of_ofWord? {cs : List Char} {op : Connective}
    (h : Connective.ofWord? cs = some op) : isCall cs = false := by
  cases hlast : cs.getLast? == some ')' with
  | false => simp [isCall, hlast]
  | true =>
    have hlower : (Text.lower cs).getLast? = some ')' := by
      simp [Text.lower, List.getLast?_map, beq_iff_eq.1 hlast]
    unfold Connective.ofWord? at h
    split at h
    · rename_i heq
      rw [heq] at hlower
      cases hlower
    · split at h
      · rename_i heq
        rw [heq] at hlower
        cases hlower
      · cases h

theorem kind_eq_call_iff {token : String} : kind token = .call ↔ isCall token.toList = true := by
  rcases kind_cases token with
    ⟨rfl, h⟩ | ⟨rfl, h⟩ | ⟨_, ⟨op, hword, h⟩ | ⟨_, ⟨hcall, h⟩ | ⟨hcall, h⟩⟩⟩
  · rw [h]
    decide
  · rw [h]
    decide
  · simp [h, isCall_of_ofWord? hword]
  · simp [h, hcall]
  · simp [h, hcall]

/-! ## Items -/

/-- What is read in one step. -/
inductive Item where
  | openGroup
  | closeGroup
  | connective (keyword : String) (op : Connective)
  | call (token : String)
  | comparison (attr operator value : String)
deriving DecidableEq, Repr

namespace Item

/-- The tokens of an item. -/
def tokens : Item → List String
  | openGroup => ["("]
  | closeGroup => [")"]
  | connective keyword _ => [keyword]
  | call token => [token]
  | comparison attr operator value => [attr, operator, value]

/-- The text of the operand that an item stands for. -/
def operand? : Item → Option String
  | call token => some token
  | comparison attr operator value => some (conditionText attr operator value)
  | _ => none

/-- The connective that an item stands for. -/
def connective? : Item → Option Connective
  | connective _ op => some op
  | _ => none

/-- The tokens of an item are read as that item. -/
def IsFormed : Item → Prop
  | openGroup => True
  | closeGroup => True
  | connective keyword op => kind keyword = .connective op
  | call token => kind token = .call
  | comparison attr operator value =>
    kind attr = .word ∧ isParenthesis operator = false ∧ isParenthesis value = false

end Item

/-- The tokens in the groups in which they are read, unless a comparison lacks a word. -/
def items : List String → Option (List Item)
  | [] => some []
  | token :: rest =>
    match kind token with
    | .openGroup => (items rest).map (.openGroup :: ·)
    | .closeGroup => (items rest).map (.closeGroup :: ·)
    | .connective op => (items rest).map (.connective token op :: ·)
    | .call => (items rest).map (.call token :: ·)
    | .word =>
      match rest with
      | operator :: value :: rest =>
        if isParenthesis operator || isParenthesis value then none
        else (items rest).map (.comparison token operator value :: ·)
      | _ => none

theorem items_tokens_append {item : Item} (h : item.IsFormed) (rest : List String) :
    items (item.tokens ++ rest) = (items rest).map (item :: ·) := by
  cases item with
  | openGroup =>
    have hkind : kind "(" = .openGroup := by decide
    rw [Item.tokens, List.singleton_append, items.eq_def]
    simp only [hkind]
  | closeGroup =>
    have hkind : kind ")" = .closeGroup := by decide
    rw [Item.tokens, List.singleton_append, items.eq_def]
    simp only [hkind]
  | connective keyword op =>
    have hkind : kind keyword = .connective op := h
    rw [Item.tokens, List.singleton_append, items.eq_def]
    simp only [hkind]
  | call token =>
    have hkind : kind token = .call := h
    rw [Item.tokens, List.singleton_append, items.eq_def]
    simp only [hkind]
  | comparison attr operator value =>
    rcases h with ⟨hkind, hoperator, hvalue⟩
    rw [Item.tokens, items.eq_def]
    simp [hkind, hoperator, hvalue]

theorem items_flatMap {read : List Item} (h : ∀ item ∈ read, item.IsFormed) :
    items (read.flatMap Item.tokens) = some read := by
  induction read with
  | nil => rfl
  | cons item read ih =>
    have hread := ih fun other hother => h other (by simp [hother])
    rw [List.flatMap_cons, items_tokens_append (h item (by simp)), hread]
    rfl

/-- The items hold all tokens in their order. -/
theorem flatMap_tokens_of_items {tokens : List String} {read : List Item}
    (h : items tokens = some read) :
    read.flatMap Item.tokens = tokens ∧ ∀ item ∈ read, item.IsFormed := by
  fun_induction items tokens generalizing read with
  | case1 =>
    cases h
    exact ⟨rfl, by simp⟩
  | case2 token rest hkind ih =>
    obtain ⟨read, hread, rfl⟩ := Option.map_eq_some_iff.1 h
    obtain rfl := kind_eq_openGroup_iff.1 hkind
    exact ⟨by simp [Item.tokens, (ih hread).1], by simpa [Item.IsFormed] using (ih hread).2⟩
  | case3 token rest hkind ih =>
    obtain ⟨read, hread, rfl⟩ := Option.map_eq_some_iff.1 h
    obtain rfl := kind_eq_closeGroup_iff.1 hkind
    exact ⟨by simp [Item.tokens, (ih hread).1], by simpa [Item.IsFormed] using (ih hread).2⟩
  | case4 token rest op hkind ih =>
    obtain ⟨read, hread, rfl⟩ := Option.map_eq_some_iff.1 h
    exact ⟨by simp [Item.tokens, (ih hread).1], by simpa [Item.IsFormed, hkind] using (ih hread).2⟩
  | case5 token rest hkind ih =>
    obtain ⟨read, hread, rfl⟩ := Option.map_eq_some_iff.1 h
    exact ⟨by simp [Item.tokens, (ih hread).1], by simpa [Item.IsFormed, hkind] using (ih hread).2⟩
  | case6 token hkind operator value rest hparen => cases h
  | case7 token hkind operator value rest hparen ih =>
    have hparen' := Bool.or_eq_false_iff.1 (Bool.eq_false_iff.2 hparen)
    obtain ⟨read, hread, rfl⟩ := Option.map_eq_some_iff.1 h
    exact ⟨by simp [Item.tokens, (ih hread).1],
      by simpa [Item.IsFormed, hkind, hparen'] using (ih hread).2⟩
  | case8 token rest hkind hshort => cases h

/-- The grouping is the one way to put the tokens together from items. -/
theorem items_eq_some_iff {tokens : List String} {read : List Item} :
    items tokens = some read ↔
      read.flatMap Item.tokens = tokens ∧ ∀ item ∈ read, item.IsFormed := by
  constructor
  · exact flatMap_tokens_of_items
  · rintro ⟨rfl, hformed⟩
    exact items_flatMap hformed

/-! ## Steps -/

/-- The stacks after one more item. -/
def State.step (s : State) : Item → Except Error State
  | .openGroup => .ok ⟨.group :: s.waiting, s.built⟩
  | .closeGroup => closeGroup s
  | .connective _ op => pushConnective op s
  | .call token => .ok (s.push token)
  | .comparison attr operator value => .ok (s.push (conditionText attr operator value))

/-- The stacks after some items. -/
def runItems (s : State) : List Item → Except Error State
  | [] => .ok s
  | item :: rest =>
    match s.step item with
    | .error e => .error e
    | .ok s => runItems s rest

theorem runItems_cons_eq_ok_iff {s s' : State} {item : Item} {rest : List Item} :
    runItems s (item :: rest) = .ok s' ↔
      ∃ s₁, s.step item = .ok s₁ ∧ runItems s₁ rest = .ok s' := by
  cases hstep : s.step item with
  | error e => simp [runItems, hstep]
  | ok s₁ => simp [runItems, hstep]

theorem runItems_append_eq_ok_iff {s s' : State} {before after : List Item} :
    runItems s (before ++ after) = .ok s' ↔
      ∃ s₁, runItems s before = .ok s₁ ∧ runItems s₁ after = .ok s' := by
  induction before generalizing s with
  | nil => simp [runItems]
  | cons item before ih =>
    simp only [List.cons_append, runItems_cons_eq_ok_iff, ih]
    constructor
    · rintro ⟨s₁, hstep, s₂, hbefore, hafter⟩
      exact ⟨s₂, ⟨s₁, hstep, hbefore⟩, hafter⟩
    · rintro ⟨s₂, ⟨s₁, hstep, hbefore⟩, hafter⟩
      exact ⟨s₁, hstep, s₂, hbefore, hafter⟩

theorem run_tokens_append {item : Item} (h : item.IsFormed) (s : State) (rest : List String) :
    run s (item.tokens ++ rest) =
      match s.step item with
      | .error e => .error e
      | .ok s => run s rest := by
  cases item with
  | openGroup => exact run_openGroup (by decide) s rest
  | closeGroup => exact run_closeGroup (by decide) s rest
  | connective keyword op => exact run_connective h s rest
  | call token => exact run_call h s rest
  | comparison attr operator value =>
    exact run_comparison h.1 (Bool.or_eq_false_iff.2 h.2) s rest

theorem run_flatMap {read : List Item} (h : ∀ item ∈ read, item.IsFormed) (s : State) :
    run s (read.flatMap Item.tokens) = runItems s read := by
  induction read generalizing s with
  | nil => rfl
  | cons item read ih =>
    rw [List.flatMap_cons, run_tokens_append (h item (by simp)), runItems]
    cases s.step item with
    | error e => rfl
    | ok s₁ => exact ih (fun other hother => h other (by simp [hother])) s₁

/-- A run does not get past a comparison that lacks a word. -/
theorem isSome_items_of_run {s s' : State} {tokens : List String} (h : run s tokens = .ok s') :
    (items tokens).isSome = true := by
  fun_induction run s tokens with
  | case1 s => rfl
  | case2 s token rest hkind ih =>
    rw [items.eq_def]
    simpa [hkind] using ih h
  | case3 s token rest hkind e hclose => cases h
  | case4 s token rest hkind s₁ hclose ih =>
    rw [items.eq_def]
    simpa [hkind] using ih h
  | case5 s token rest op hkind e hpush => cases h
  | case6 s token rest op hkind s₁ hpush ih =>
    rw [items.eq_def]
    simpa [hkind] using ih h
  | case7 s token rest hkind ih =>
    rw [items.eq_def]
    simpa [hkind] using ih h
  | case8 s token hkind operator value rest hparen => cases h
  | case9 s token hkind operator value rest hparen ih =>
    rw [items.eq_def]
    simpa [hkind, hparen] using ih h
  | case10 s token rest hkind hshort => cases h

theorem run_eq_ok_iff {s s' : State} {tokens : List String} :
    run s tokens = .ok s' ↔ ∃ read, items tokens = some read ∧ runItems s read = .ok s' := by
  constructor
  · intro h
    obtain ⟨read, hread⟩ := Option.isSome_iff_exists.1 (isSome_items_of_run h)
    rcases items_eq_some_iff.1 hread with ⟨rfl, hformed⟩
    exact ⟨read, hread, run_flatMap hformed s ▸ h⟩
  · rintro ⟨read, hread, h⟩
    rcases items_eq_some_iff.1 hread with ⟨rfl, hformed⟩
    rwa [run_flatMap hformed]

/-! ## Moves -/

theorem join_eq_ok_iff {op : Connective} {built built' : List (Tree × Nat)} :
    join op built = .ok built' ↔
      ∃ left right rest, built = right :: left :: rest ∧
        max left.2 right.2 + 1 ≤ Tree.maxDepth ∧
        built' = (.branch op left.1 right.1, max left.2 right.2 + 1) :: rest := by
  match built with
  | [] => simp [join]
  | [_] => simp [join]
  | right :: left :: rest =>
    by_cases hdepth : Tree.maxDepth < max left.2 right.2 + 1
    · have hnot : ¬ max left.2 right.2 + 1 ≤ Tree.maxDepth := Nat.not_le.2 hdepth
      simp only [join, hdepth, if_true, reduceCtorEq, false_iff]
      rintro ⟨left', right', rest', heq, hle, _⟩
      simp only [List.cons.injEq] at heq
      exact hnot (by rw [heq.1, heq.2.1]; exact hle)
    · simp only [join, hdepth, if_false, Except.ok.injEq]
      constructor
      · rintro rfl
        exact ⟨left, right, rest, rfl, Nat.not_lt.1 hdepth, rfl⟩
      · rintro ⟨left', right', rest', heq, _, rfl⟩
        simp only [List.cons.injEq] at heq
        rw [heq.1, heq.2.1, heq.2.2]

theorem closeGroup_eq_ok_iff {s s' : State} :
    closeGroup s = .ok s' ↔ settle s.waiting s.built = .ok ⟨.group :: s'.waiting, s'.built⟩ := by
  unfold closeGroup
  rcases settle s.waiting s.built with e | ⟨waiting, built⟩
  · simp
  · match waiting with
    | [] => simp
    | .connective op :: waiting => simp
    | .group :: waiting => cases s' with | mk waiting' built' => simp

theorem pushConnective_eq_ok_iff {op : Connective} {s s' : State} :
    pushConnective op s = .ok s' ↔
      ∃ settled, settle s.waiting s.built = .ok settled ∧
        s' = ⟨.connective op :: settled.waiting, settled.built⟩ := by
  unfold pushConnective
  cases settle s.waiting s.built with
  | error e => simp
  | ok settled => simp [eq_comm]

/-- In the end one tree is left and nothing waits. -/
theorem finish_eq_ok_iff {s : State} {tree : Tree} :
    finish s = .ok tree ↔ ∃ depth, settle s.waiting s.built = .ok ⟨[], [(tree, depth)]⟩ := by
  unfold finish
  split
  · rename_i e hsettle
    simp [hsettle]
  · rename_i tree' depth hsettle
    simp [hsettle]
  · rename_i built hone hsettle
    simp only [hsettle, reduceCtorEq, Except.ok.injEq, State.mk.injEq, true_and, false_iff]
    rintro ⟨depth, rfl⟩
    exact hone tree depth rfl
  · rename_i hsettle
    simp [hsettle]

end Reduction

open Reduction

theorem ofTokens_eq_ok_iff {tokens : List String} {tree : Tree} :
    ofTokens tokens = .ok tree ↔
      ∃ read s, items tokens = some read ∧ runItems .initial read = .ok s ∧
        finish s = .ok tree := by
  cases tokens with
  | nil =>
    -- nothing is left of nothing, which is why the empty list has an error of its own
    simp [ofTokens, items, runItems, finish, settle, State.initial]
  | cons token rest =>
    simp only [ofTokens, List.isEmpty_cons, Bool.false_eq_true, if_false]
    constructor
    · intro h
      cases hrun : run .initial (token :: rest) with
      | error e =>
        rw [hrun] at h
        cases h
      | ok s =>
        rw [hrun] at h
        rcases run_eq_ok_iff.1 hrun with ⟨read, hread, hitems⟩
        exact ⟨read, s, hread, hitems, h⟩
    · rintro ⟨read, s, hread, hitems, h⟩
      rw [run_eq_ok_iff.2 ⟨read, hread, hitems⟩]
      exact h

theorem compile_eq_ok_iff {text : String} {tree : Tree} :
    compile text = .ok tree ↔
      ∃ tokens, tokenize text = .ok tokens ∧ ofTokens tokens = .ok tree := by
  unfold compile
  cases tokenize text with
  | error e => simp
  | ok tokens => simp

end Formula
end Eligibility
