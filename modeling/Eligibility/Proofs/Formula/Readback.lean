import Mathlib.Control.Monad.Basic
import Eligibility.Proofs.Catalog
import Eligibility.Proofs.Condition
import Eligibility.Proofs.Formula.Conservation
import Eligibility.Proofs.Formula.Words
import Eligibility.Proofs.Validation

/-!
# Readback — a validated operand is read as it was written

An operand keeps the words of a comparison as one text, joined by spaces, and is later cut at its
first two spaces, although words may hold spaces of their own between quotes or among arguments.
Where such a space moves a cut, the part before it ends within a quote or within arguments, so that
it is no declared attribute and no operator: validation has refused the operand.

* `splitCall?_conditionText` — a comparison never looks like a call;
* `parse?_of_checkCondition` — an operand that passes its check is cut between its words;
* `exists_parse?_of_call` — a call is cut into its name and its arguments;
* `Context.conditions_of_compile` — so it is with every operand of a text that compiles in a
  context.
-/

namespace Eligibility
namespace Formula

open Reduction
open Condition (isQuote)

/-! ## Calls -/

/-- A call is taken apart into the name before its first `(` and the text up to its last
character. -/
theorem exists_parse?_of_call {token : String} (hshape : Token.Shape token.toList)
    (hcall : kind token = .call) :
    ∃ name args : String, token = name ++ "(" ++ args ++ ")" ∧ '(' ∉ name.toList ∧
      '(' ∉ args.toList ∧ ')' ∉ args.toList ∧ Condition.parse? token = some (.call name args) := by
  have hcall' := kind_eq_call_iff.1 hcall
  generalize htoken : token.toList = cs at hshape
  rw [htoken] at hcall'
  cases hshape with
  | openGroup | closeGroup => exact absurd hcall' (by decide)
  | plain hne hrun =>
    rw [Token.isCall_of_run hrun] at hcall'
    cases hcall'
  | @call name args hne hname hopen hclose =>
    have hnames : name.all Text.isNameChar = true := (Bool.and_eq_true_iff.1 hname).2
    refine ⟨String.ofList name, String.ofList args, ?_, ?_, ?_, ?_, ?_⟩
    · apply String.toList_injective
      simp [htoken]
    · rw [String.toList_ofList]
      exact Token.not_mem_of_isCallName hname (by decide)
    · rwa [String.toList_ofList]
    · rwa [String.toList_ofList]
    · rw [Condition.parse?, htoken, Condition.splitCall?_call hne hnames]

/-! ## Comparisons -/

theorem toList_conditionText (attr operator value : String) :
    (conditionText attr operator value).toList =
      attr.toList ++ ' ' :: (operator.toList ++ ' ' :: value.toList) := by
  simp [conditionText]

/-- A run of characters before a `(` is no name, be it within the first word or beyond it. -/
theorem splitCall?_conditionText {attr : String}
    (hrun : Token.run none attr.toList = .ok (attr.toList, [])) (operator value : String) :
    Condition.splitCall? (conditionText attr operator value).toList = none := by
  refine Condition.splitCall?_eq_none_of_not_name ?_
  intro before after htext
  have hnot : ∀ c ∈ before, Text.isNameChar c = false → before.all Text.isNameChar = false := by
    intro c hmem hc
    exact List.all_eq_false.2 ⟨c, hmem, by simp [hc]⟩
  rw [toList_conditionText] at htext
  rcases Condition.append_cons_cases htext with ⟨_, hmark, _⟩ | ⟨inner, hattr⟩ | ⟨inner, rfl⟩
  · exact absurd hmark (by decide)
  · -- the `(` stands in the first word, where a quote comes before it
    rcases Token.exists_quote_of_run hrun hattr (by decide) (by decide) with ⟨q, hmem, hq⟩
    rcases Token.isQuote_eq_true hq with rfl | rfl
    · exact hnot _ hmem (by decide)
    · exact hnot _ hmem (by decide)
  · -- the `(` stands behind the first space
    exact hnot ' ' (by simp) (by decide)

/-- An operator holds no character behind which a space may stand in a token. -/
theorem not_mark_of_ofSymbol? {operator : List Char} {op : Comparator}
    (h : Comparator.ofSymbol? (String.ofList operator) = some op) {mark : Char}
    (hmem : mark ∈ operator) : ¬ (isQuote mark = true ∨ mark = '(') := by
  have hsymbol : String.ofList operator ∈ Comparator.all.map Comparator.symbol :=
    Comparator.isSome_ofSymbol?_iff.1 (Option.isSome_iff_exists.2 ⟨op, h⟩)
  have hall : ∀ symbol ∈ Comparator.all.map Comparator.symbol,
      symbol.toList.all (fun c => !(isQuote c || c == '(')) = true := by decide
  have hmarks := hall _ hsymbol
  rw [String.toList_ofList] at hmarks
  simpa using List.all_eq_true.1 hmarks mark hmem

variable {ctx : Context}

/-- An operand that passes its check is cut at the spaces that joined its words. -/
theorem parse?_of_checkCondition {attr operator value : String}
    (hnames : ∀ name, ctx.schema.contains name = true → ∀ c ∈ name.toList, isQuote c = false)
    (hattr : Token.run none attr.toList = .ok (attr.toList, []))
    (hoperator : Token.Shape operator.toList)
    (hcheck : ctx.checkCondition (conditionText attr operator value) = .ok ()) :
    Condition.parse? (conditionText attr operator value) =
      some (.compare attr operator (String.ofList (Condition.unquote value.toList))) := by
  have hcall := splitCall?_conditionText hattr operator value
  cases hcut : Condition.splitCompare? (conditionText attr operator value).toList with
  | none =>
    rw [Context.checkCondition, Condition.parse?, hcall, hcut] at hcheck
    cases hcheck
  | some parts =>
    rcases parts with ⟨attr', operator', value'⟩
    have hparse : Condition.parse? (conditionText attr operator value) =
        some (.compare (String.ofList attr') (String.ofList operator')
          (String.ofList (Condition.unquote value'))) := by
      rw [Condition.parse?, hcall, hcut]
    -- the check has found the first two parts among the attributes and the operators
    rcases Context.checkCondition_eq_ok_iff.1 hcheck with
      ⟨_, _, hname, _⟩ | ⟨a, o, l, type, op, hcompare, htype, hop, _⟩
    · rw [hparse] at hname
      cases hname
    · rw [hparse, Option.some.injEq, Condition.compare.injEq] at hcompare
      rcases hcompare with ⟨rfl, rfl, _⟩
      rcases Condition.eq_append_of_splitCompare? hcut with ⟨htext, hattr', hoperator'⟩
      rw [toList_conditionText] at htext
      rcases Condition.append_cons_eq_append_cons htext hattr' with ⟨rfl, hrest⟩ | ⟨inner, hinner⟩
      · rcases Condition.append_cons_eq_append_cons hrest hoperator' with
          ⟨rfl, rfl⟩ | ⟨inner, hinner⟩
        · rw [hparse, String.ofList_toList, String.ofList_toList]
        · -- the second cut lies within the second word, behind a quote or the `(` of a call
          rcases hoperator.exists_mark_before_space hinner with ⟨mark, hmem, hmark⟩
          exact absurd hmark (not_mark_of_ofSymbol? hop hmem)
      · -- the first cut lies within the first word, behind a quote
        rcases Token.exists_quote_of_run hattr hinner (by decide) (by decide) with ⟨q, hmem, hq⟩
        have hdeclared : ctx.schema.contains (String.ofList attr') = true := by
          simp [Table.contains, htype]
        rw [hnames _ hdeclared q (by rwa [String.toList_ofList])] at hq
        cases hq

/-! ## Texts -/

/-- The three words of an item are tokens of the text. -/
theorem mem_tokens_of_mem_items {tokens : List String} {read : List Item} {item : Item}
    (hread : items tokens = some read) (hitem : item ∈ read) :
    item.IsFormed ∧ ∀ token ∈ item.tokens, token ∈ tokens := by
  rcases items_eq_some_iff.1 hread with ⟨rfl, hformed⟩
  refine ⟨hformed item hitem, ?_⟩
  intro token htoken
  exact List.mem_flatMap.2 ⟨item, hitem, htoken⟩

/-- The first word of a comparison is a run of characters. -/
theorem run_of_kind_word {token : String} (hshape : Token.Shape token.toList)
    (hkind : kind token = .word) : Token.run none token.toList = .ok (token.toList, []) := by
  have hcall : isCall token.toList = false := by
    rcases Bool.eq_false_or_eq_true (isCall token.toList) with h | h
    · rw [kind_eq_call_iff.2 h] at hkind
      cases hkind
    · exact h
  generalize htoken : token.toList = cs at hshape hcall
  cases hshape with
  | openGroup =>
    obtain rfl : token = "(" := String.toList_injective htoken
    exact absurd hkind (by decide)
  | closeGroup =>
    obtain rfl : token = ")" := String.toList_injective htoken
    exact absurd hkind (by decide)
  | plain hne hrun => exact hrun
  | @call name args hne hname hopen hclose =>
    rw [Token.isCall_of_arguments] at hcall
    cases hcall

end Formula

open Formula Formula.Reduction
open Condition (isQuote)

/-- In a context whose attributes hold no quotes, the operands of a text that compiles are taken
apart into what they were written with: a comparison into its three words, the third without its
quotes, and a call into its name and its arguments. -/
theorem Context.conditions_of_compile {ctx : Context} {text : String} {tree : Tree}
    (hnames : ∀ name, ctx.schema.contains name = true → ∀ c ∈ name.toList, isQuote c = false)
    (h : ctx.compile text = .ok tree) :
    ∃ tokens read, tokenize text = .ok tokens ∧ items tokens = some read ∧
      tree.leaves = read.filterMap Item.operand? ∧
      (∀ attr operator value, Item.comparison attr operator value ∈ read →
        ∃ literal, Condition.IsUnquoted value literal ∧
          Condition.parse? (conditionText attr operator value) =
            some (.compare attr operator literal)) ∧
      (∀ token, Item.call token ∈ read →
        ∃ name args : String, token = name ++ "(" ++ args ++ ")" ∧ '(' ∉ name.toList ∧
          '(' ∉ args.toList ∧ ')' ∉ args.toList ∧
          Condition.parse? token = some (.call name args)) := by
  rcases compile_eq_ok_iff.1 h with ⟨hcompile, hvalid⟩
  rcases Formula.compile_eq_ok_iff.1 hcompile with ⟨tokens, htokens, htree⟩
  rcases leaves_of_ofTokens htree with ⟨read, hread, _, hleaves, _⟩
  have hchecks := (validate_eq_ok_iff.1 hvalid).2
  -- every word of an item has the shape of a token
  have hshapes : ∀ item ∈ read, ∀ token ∈ item.tokens, Token.Shape token.toList := by
    intro item hitem token htoken
    have hmem := (mem_tokens_of_mem_items hread hitem).2 token htoken
    exact Token.shape_of_mem (hasTokens_of_tokenize htokens) (List.mem_map_of_mem hmem)
  refine ⟨tokens, read, htokens, hread, hleaves, ?_, ?_⟩
  · intro attr operator value hitem
    have hformed : kind attr = .word := ((mem_tokens_of_mem_items hread hitem).1).1
    have hwords := hshapes _ hitem
    simp only [Item.tokens, List.forall_mem_cons] at hwords
    have hleaf : conditionText attr operator value ∈ tree.leaves := by
      rw [hleaves]
      exact List.mem_filterMap.2 ⟨_, hitem, rfl⟩
    refine ⟨_, Condition.isUnquoted_unquote value, ?_⟩
    exact parse?_of_checkCondition hnames (run_of_kind_word hwords.1 hformed) hwords.2.1
      (hchecks _ hleaf)
  · intro token hitem
    have hformed : kind token = .call := (mem_tokens_of_mem_items hread hitem).1
    exact exists_parse?_of_call (hshapes _ hitem token List.mem_cons_self) hformed

/-- A literal that holds spaces, a parenthesis and a keyword between its quotes, and arguments that
hold spaces and a quote. -/
theorem Context.conditions_of_compile_spaces :
    let ctx : Context :=
      ⟨.ofList [("age", .number), ("team", .string)], .ofList [("f.g", .always true)]⟩
    let tree : Tree :=
      .branch .or (.branch .and (.operand "team != '(a  b) AND'") (.operand "f.g(x  ')"))
        (.operand "age >= \" 1 \"")
    (∀ name, ctx.schema.contains name = true → ∀ c ∈ name.toList, isQuote c = false) ∧
      ctx.compile "team != '(a  b) AND' AND f.g(x  ')OR age  >= \" 1 \"" = .ok tree ∧
      (∃ literal, Condition.IsUnquoted "'(a  b) AND'" literal ∧
        Condition.parse? "team != '(a  b) AND'" = some (.compare "team" "!=" literal)) ∧
      (∃ name args : String, "f.g(x  ')" = name ++ "(" ++ args ++ ")" ∧ '(' ∉ name.toList ∧
        Condition.parse? "f.g(x  ')" = some (.call name args)) := by
  intro ctx tree
  have hnames : ∀ name, ctx.schema.contains name = true →
      ∀ c ∈ name.toList, isQuote c = false := by
    have hall : ctx.schema.keys.all (fun name => name.toList.all fun c => !isQuote c) = true := by
      decide +kernel
    intro name hdeclared c hc
    have hname := List.all_eq_true.1 hall name (Table.mem_keys_iff.2 hdeclared)
    simpa using List.all_eq_true.1 hname c hc
  have hcompile : ctx.compile "team != '(a  b) AND' AND f.g(x  ')OR age  >= \" 1 \"" = .ok tree := by
    decide +kernel
  rcases conditions_of_compile hnames hcompile with
    ⟨tokens, read, htokens, hread, _, hcomparison, hcall⟩
  have hexpected : tokenize "team != '(a  b) AND' AND f.g(x  ')OR age  >= \" 1 \"" =
      .ok ["team", "!=", "'(a  b) AND'", "AND", "f.g(x  ')", "OR", "age", ">=", "\" 1 \""] := by
    decide +kernel
  obtain rfl := Except.ok.inj (htokens.symm.trans hexpected)
  have hitems : items
      ["team", "!=", "'(a  b) AND'", "AND", "f.g(x  ')", "OR", "age", ">=", "\" 1 \""] =
      some [.comparison "team" "!=" "'(a  b) AND'", .connective "AND" .and, .call "f.g(x  ')",
        .connective "OR" .or, .comparison "age" ">=" "\" 1 \""] := by
    decide +kernel
  obtain rfl := Option.some.inj (hread.symm.trans hitems)
  rcases hcall "f.g(x  ')" (by simp) with ⟨name, args, htext, hopen, _, _, hparse⟩
  exact ⟨hnames, hcompile, hcomparison "team" "!=" "'(a  b) AND'" (by simp),
    name, args, htext, hopen, hparse⟩

end Eligibility
