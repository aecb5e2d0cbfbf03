import Mathlib.Control.Monad.Basic
import Eligibility.Proofs.Condition
import Eligibility.Proofs.Evaluation
import Eligibility.Proofs.Formula.Alphabet
import Eligibility.Proofs.Formula.Grammar

/-!
# Meaning — what the text of an expression says

An expression joins comparisons by connectives.  Its text, read, split into operands, taken apart
and evaluated, has the truth value of the expression, whatever its literals hold between their
quotes.  The texts and the truth values of expressions are written out here, keyword by keyword and
operator by operator, and then tied to the tables of the reader and the evaluator.

* `Literal`, `Atom`, `Expression` — comparisons and what they make, with their texts;
* `Atom.Fits` — the comparisons that a schema has a meaning for;
* `Expression.truth` — the truth value on a record;
* `Atom.text_eq_conditionText`, `Expression.text_join`, `Expression.truth_join` — texts and truth
  values in the terms of the reader and the evaluator;
* `Expression.derives` — the text of an expression is a sentence that stands for its tree;
* `Expression.evaluate_text` — compiled, the text is valid and means what the expression means.
-/

namespace Eligibility
namespace Formula

/-- A literal as it is written: between quotes, or as a plain word. -/
inductive Literal where
  | quoted (quote : Char) (content : String)
  | bare (word : String)
deriving DecidableEq, Repr

/-- A comparison of an attribute with a literal. -/
structure Atom where
  attr : String
  op : Comparator
  literal : Literal
deriving DecidableEq, Repr

/-- Comparisons joined by connectives. -/
inductive Expression where
  | atom (comparison : Atom)
  | join (op : Connective) (left right : Expression)
deriving DecidableEq, Repr

namespace Literal

def text : Literal → String
  | quoted quote content => String.ofList (quote :: (content.toList ++ [quote]))
  | bare word => word

/-- What the literal stands for, as a text. -/
def content : Literal → String
  | quoted _ content => content
  | bare word => word

/-- A literal that stands for a value of a type.  Between quotes it holds anything but its quote,
and as a plain word it can only be a number. -/
def Fits : ValueType → Literal → Prop
  | .string, quoted quote content =>
    Alphabet.IsQuote quote ∧ quote ∉ content.toList ∧ content ≠ ""
  | .number, quoted quote content =>
    Alphabet.IsQuote quote ∧ quote ∉ content.toList ∧
      (Binary64.ofLiteral? content).isSome = true
  | .string, bare _ => False
  | .number, bare word =>
    word ≠ "" ∧ (∀ c ∈ word.toList, Alphabet.IsPlain c) ∧
      (Binary64.ofLiteral? word).isSome = true

instance (type : ValueType) (literal : Literal) : Decidable (literal.Fits type) :=
  match type, literal with
  | .string, quoted quote content =>
    inferInstanceAs (Decidable
      (Alphabet.IsQuote quote ∧ quote ∉ content.toList ∧ content ≠ ""))
  | .number, quoted quote content =>
    inferInstanceAs (Decidable
      (Alphabet.IsQuote quote ∧ quote ∉ content.toList ∧
        (Binary64.ofLiteral? content).isSome = true))
  | .string, bare _ => .isFalse id
  | .number, bare word =>
    -- character by character of the word, and not over all characters there are
    have := List.decidableBAll Alphabet.IsPlain word.toList
    inferInstanceAs (Decidable
      (word ≠ "" ∧ (∀ c ∈ word.toList, Alphabet.IsPlain c) ∧
        (Binary64.ofLiteral? word).isSome = true))

end Literal

namespace Atom

/-- The attribute, the operator and the literal, with a space on either side of the operator. -/
def text (atom : Atom) : String :=
  match atom.op with
  | .eq => atom.attr ++ " = " ++ atom.literal.text
  | .ne => atom.attr ++ " != " ++ atom.literal.text
  | .gt => atom.attr ++ " > " ++ atom.literal.text
  | .ge => atom.attr ++ " >= " ++ atom.literal.text
  | .lt => atom.attr ++ " < " ++ atom.literal.text
  | .le => atom.attr ++ " <= " ++ atom.literal.text

/-- A comparison of a declared attribute, whose name is a plain word and no keyword, with a literal
of its type. -/
structure Fits (schema : Schema) (atom : Atom) : Prop where
  name_ne : atom.attr ≠ ""
  name_plain : ∀ c ∈ atom.attr.toList, Alphabet.IsPlain c
  name_not_keyword : ¬ Alphabet.IsKeyword atom.attr.toList
  literal_fits : ∃ type, schema.get? atom.attr = some type ∧ atom.literal.Fits type

theorem fits_iff {schema : Schema} {atom : Atom} :
    atom.Fits schema ↔
      atom.attr ≠ "" ∧ (∀ c ∈ atom.attr.toList, Alphabet.IsPlain c) ∧
        ¬ Alphabet.IsKeyword atom.attr.toList ∧
        ∃ type ∈ schema.get? atom.attr, atom.literal.Fits type :=
  ⟨fun ⟨hne, hplain, hkeyword, hliteral⟩ => ⟨hne, hplain, hkeyword, hliteral⟩,
    fun ⟨hne, hplain, hkeyword, hliteral⟩ => ⟨hne, hplain, hkeyword, hliteral⟩⟩

instance (schema : Schema) (atom : Atom) : Decidable (atom.Fits schema) :=
  have := List.decidableBAll Alphabet.IsPlain atom.attr.toList
  decidable_of_iff _ fits_iff.symm

/-- Does the comparison hold between the record's value and that of the literal? -/
def holds (schema : Schema) (record : Record) (atom : Atom) : Bool :=
  match record.get? atom.attr,
    (schema.get? atom.attr).bind (Value.ofLiteral? · atom.literal.content) with
  | some actual, some expected => actual.compare atom.op expected
  | _, _ => false

/-- The text of a comparison is what the reader makes of its three words. -/
theorem text_eq_conditionText (atom : Atom) :
    atom.text = Reduction.conditionText atom.attr atom.op.symbol atom.literal.text := by
  apply String.toList_injective
  rcases atom with ⟨attr, op, literal⟩
  cases op with
  | eq | ne | gt | ge | lt | le => simp [text, Reduction.conditionText, Comparator.symbol]

end Atom

namespace Expression

def text : Expression → String
  | atom comparison => comparison.text
  | join .and left right => "(" ++ left.text ++ ") AND (" ++ right.text ++ ")"
  | join .or left right => "(" ++ left.text ++ ") OR (" ++ right.text ++ ")"

/-- The levels of connectives. -/
def height : Expression → Nat
  | atom _ => 0
  | join _ left right => max left.height right.height + 1

/-- The comparisons, from left to right. -/
def atoms : Expression → List Atom
  | atom comparison => [comparison]
  | join _ left right => left.atoms ++ right.atoms

def truth (schema : Schema) (record : Record) : Expression → Bool
  | atom comparison => comparison.holds schema record
  | join .and left right => left.truth schema record && right.truth schema record
  | join .or left right => left.truth schema record || right.truth schema record

def tree : Expression → Tree
  | atom comparison => .operand comparison.text
  | join op left right => .branch op left.tree right.tree

theorem text_join (op : Connective) (left right : Expression) :
    (join op left right).text =
      "(" ++ left.text ++ ") " ++ op.keyword ++ " (" ++ right.text ++ ")" := by
  apply String.toList_injective
  cases op with
  | and | or => simp [text, Connective.keyword]

theorem truth_join (schema : Schema) (record : Record) (op : Connective)
    (left right : Expression) :
    (join op left right).truth schema record =
      op.apply (left.truth schema record) (right.truth schema record) := by
  cases op with
  | and => rfl
  | or => rfl

@[simp] theorem height_tree (expression : Expression) :
    expression.tree.height = expression.height := by
  induction expression with
  | atom comparison => rfl
  | join op left right ihLeft ihRight => simp [tree, height, Tree.height, ihLeft, ihRight]

@[simp] theorem leaves_tree (expression : Expression) :
    expression.tree.leaves = expression.atoms.map Atom.text := by
  induction expression with
  | atom comparison => rfl
  | join op left right ihLeft ihRight => simp [tree, atoms, Tree.leaves, ihLeft, ihRight]

end Expression

/-! ## The tokens of an expression -/

/-- Either way of writing a literal, without regard to its type and as the reader sees it. -/
theorem Literal.Fits.shape {type : ValueType} {literal : Literal} (h : literal.Fits type) :
    (∃ quote content, literal = quoted quote content ∧ Condition.isQuote quote = true ∧
      quote ∉ content.toList) ∨
    (∃ word, literal = bare word ∧ word ≠ "" ∧ ∀ c ∈ word.toList, Token.isBare c = true) := by
  cases literal with
  | quoted quote content =>
    cases type with
    | number => exact .inl ⟨quote, content, rfl, Alphabet.isQuote_iff.2 h.1, h.2.1⟩
    | string => exact .inl ⟨quote, content, rfl, Alphabet.isQuote_iff.2 h.1, h.2.1⟩
  | bare word =>
    cases type with
    | number => exact .inr ⟨word, rfl, h.1, fun c hc => Alphabet.isBare_iff.2 (h.2.1 c hc)⟩
    | string => exact h.elim

theorem Literal.Fits.hasTokens {type : ValueType} {literal : Literal} (h : literal.Fits type) :
    HasTokens literal.text [literal.text] := by
  rcases h.shape with ⟨quote, content, rfl, hquote, hcontent⟩ | ⟨word, rfl, hne, hbare⟩
  · exact hasTokens_quoted hquote hcontent
  · exact hasTokens_bare hne hbare

theorem hasTokens_symbol (op : Comparator) : HasTokens op.symbol [op.symbol] := by
  have hne : op.symbol ≠ "" := by
    cases op <;> decide
  have hbare : op.symbol.toList.all Token.isBare = true := by
    cases op <;> decide
  exact hasTokens_bare hne (List.all_eq_true.1 hbare)

theorem isParenthesis_eq_false {text : String} {c : Char} {cs : List Char}
    (h : text.toList = c :: cs) (hopen : c ≠ '(') (hclose : c ≠ ')') :
    Reduction.isParenthesis text = false := by
  have hleft : text ≠ "(" := by
    rintro rfl
    exact hopen (List.cons.inj h).1.symm
  have hright : text ≠ ")" := by
    rintro rfl
    exact hclose (List.cons.inj h).1.symm
  simp [Reduction.isParenthesis, hleft, hright]

theorem isParenthesis_of_isBare {text : String} (hne : text ≠ "")
    (hbare : ∀ c ∈ text.toList, Token.isBare c = true) : Reduction.isParenthesis text = false := by
  cases htext : text.toList with
  | nil => exact absurd (by simpa using htext) hne
  | cons c cs =>
    have hc := Token.startsWord_of_isBare (hbare c (by simp [htext]))
    exact isParenthesis_eq_false htext hc.2.1 hc.2.2

theorem isParenthesis_symbol (op : Comparator) : Reduction.isParenthesis op.symbol = false := by
  cases op <;> decide

theorem Literal.Fits.isParenthesis {type : ValueType} {literal : Literal} (h : literal.Fits type) :
    Reduction.isParenthesis literal.text = false := by
  rcases h.shape with ⟨quote, content, rfl, hquote, _⟩ | ⟨word, rfl, hne, hbare⟩
  · have htext : (quoted quote content).text.toList = quote :: (content.toList ++ [quote]) := by
      simp [Literal.text]
    rcases Token.isQuote_eq_true hquote with rfl | rfl
    · exact isParenthesis_eq_false htext (by decide) (by decide)
    · exact isParenthesis_eq_false htext (by decide) (by decide)
  · exact isParenthesis_of_isBare hne hbare

namespace Atom

variable {schema : Schema} {atom : Atom}

theorem Fits.name_bare (h : atom.Fits schema) : ∀ c ∈ atom.attr.toList, Token.isBare c = true :=
  fun c hc => Alphabet.isBare_iff.2 (h.name_plain c hc)

theorem Fits.kind_attr (h : atom.Fits schema) : Reduction.kind atom.attr = .word := by
  have hparen := isParenthesis_of_isBare h.name_ne h.name_bare
  simp only [Reduction.isParenthesis, Bool.or_eq_false_iff, beq_eq_false_iff_ne] at hparen
  -- without a `(` the name cannot be taken for a call
  have hcall : Reduction.isCall atom.attr.toList = false := by
    have hopen : '(' ∉ atom.attr.toList := by
      intro hmem
      exact absurd (h.name_bare _ hmem) (by decide)
    simp [Reduction.isCall, hopen]
  have hword := Alphabet.ofWord?_eq_none_iff.2 h.name_not_keyword
  simp [Reduction.kind, hparen.1, hparen.2, hword, hcall]

/-- The text of a comparison has three tokens, which make up one operand. -/
theorem Fits.derives (h : atom.Fits schema) :
    ∃ tokens, HasTokens atom.text tokens ∧ Derives .sentence tokens (.operand atom.text) := by
  rcases h.literal_fits with ⟨type, _, hliteral⟩
  have hattr := hasTokens_bare h.name_ne h.name_bare
  have htokens := hasTokens_spaced (hasTokens_spaced hattr (hasTokens_symbol atom.op))
    hliteral.hasTokens
  rw [text_eq_conditionText]
  refine ⟨_, htokens, .single ?_⟩
  exact .comparison h.kind_attr (isParenthesis_symbol atom.op) hliteral.isParenthesis

end Atom

/-- The text of an expression is a sentence. -/
theorem Expression.derives {schema : Schema} {expression : Expression}
    (h : ∀ atom ∈ expression.atoms, atom.Fits schema) :
    ∃ tokens, HasTokens expression.text tokens ∧ Derives .sentence tokens expression.tree := by
  induction expression with
  | atom comparison => exact (h comparison (by simp [atoms])).derives
  | join op left right ihLeft ihRight =>
    rcases ihLeft (fun a ha => h a (by simp [atoms, ha])) with ⟨lefts, hlefts, hleft⟩
    rcases ihRight (fun a ha => h a (by simp [atoms, ha])) with ⟨rights, hrights, hright⟩
    have hkeyword := Connective.ofWord?_keyword op
    -- each side stands between parentheses of its own
    have hsentence := Derives.chain (.single (.group hleft)) hkeyword (.group hright)
    have htokens := hasTokens_spaced
      (hasTokens_spaced (hasTokens_group hlefts) (hasTokens_keyword op)) (hasTokens_group hrights)
    refine ⟨_, ?_, hsentence⟩
    simpa [HasTokens, text_join] using htokens

/-! ## The condition of a comparison -/

theorem not_mem_of_isBare {c : Char} {cs : List Char} (hbare : ∀ c ∈ cs, Token.isBare c = true)
    (hc : Token.isBare c = false) : c ∉ cs := by
  intro hmem
  rw [hbare c hmem] at hc
  cases hc

theorem Literal.Fits.text_ne {type : ValueType} {literal : Literal} (h : literal.Fits type) :
    literal.text ≠ "" := by
  rcases h.shape with ⟨quote, content, rfl, _, _⟩ | ⟨word, rfl, hne, _⟩
  · simp [Literal.text]
  · exact hne

/-- A literal does not make its comparison look like a call. -/
theorem Literal.Fits.getLast?_text {type : ValueType} {literal : Literal} (h : literal.Fits type) :
    literal.text.toList.getLast? ≠ some ')' := by
  -- it ends in its quote or in a bare character, neither of which is `)`
  rcases h.shape with ⟨quote, content, rfl, hquote, _⟩ | ⟨word, rfl, _, hbare⟩
  · rcases Token.isQuote_eq_true hquote with rfl | rfl
    · simp [Literal.text, List.getLast?_cons]
    · simp [Literal.text, List.getLast?_cons]
  · intro hlast
    have hmem := List.mem_of_getLast? hlast
    exact not_mem_of_isBare hbare (by decide) hmem

theorem Literal.Fits.unquote_text {type : ValueType} {literal : Literal} (h : literal.Fits type) :
    Condition.unquote literal.text.toList = literal.content.toList := by
  rcases h.shape with ⟨quote, content, rfl, hquote, _⟩ | ⟨word, rfl, _, hbare⟩
  · simp only [Literal.text, Literal.content, String.toList_ofList]
    exact Condition.unquote_quoted hquote content.toList
  · refine Condition.unquote_of_not_quote ?_
    intro c hc
    have hc' := hbare c hc
    simp only [Token.isBare, Bool.not_eq_true', Bool.or_eq_false_iff] at hc'
    exact hc'.2

theorem Literal.Fits.checkLiteral {type : ValueType} {literal : Literal} (h : literal.Fits type)
    (attr : String) : Context.checkLiteral attr literal.content type = .ok () := by
  cases type with
  | number =>
    have hnumber : (Binary64.ofLiteral? literal.content).isSome = true := by
      cases literal with
      | quoted quote content => exact h.2.2
      | bare word => exact h.2.2
    simp [Context.checkLiteral, hnumber]
  | string =>
    cases literal with
    | quoted quote content =>
      have hne : content ≠ "" := h.2.2
      simp [Context.checkLiteral, Literal.content, hne]
    | bare word => exact h.elim

namespace Atom

variable {ctx : Context} {atom : Atom}

/-- The text of a comparison is cut into the three parts that it was made of. -/
theorem Fits.parse? (h : atom.Fits ctx.schema) :
    Condition.parse? atom.text =
      some (.compare atom.attr atom.op.symbol atom.literal.content) := by
  rcases h.literal_fits with ⟨type, _, hliteral⟩
  -- the first two spaces of the text are those around the operator
  have hattr : ' ' ∉ atom.attr.toList := not_mem_of_isBare h.name_bare (by decide)
  have hop : ' ' ∉ atom.op.symbol.toList ∧ atom.op.symbol ≠ "" := by
    cases atom.op <;> decide
  have hparse := Condition.parse?_compare h.name_ne hop.2 hattr hop.1 hliteral.text_ne
    hliteral.getLast?_text
  rw [hliteral.unquote_text, String.ofList_toList] at hparse
  rw [text_eq_conditionText]
  exact hparse

theorem Fits.checkCondition (h : atom.Fits ctx.schema) :
    ctx.checkCondition atom.text = .ok () := by
  rcases h.literal_fits with ⟨type, htype, hliteral⟩
  refine Context.checkCondition_eq_ok_iff.2 (.inr ?_)
  exact ⟨_, _, _, type, atom.op, h.parse?, htype, Comparator.ofSymbol?_symbol atom.op,
    hliteral.checkLiteral atom.attr⟩

theorem Fits.attribute? (h : atom.Fits ctx.schema) :
    Condition.attribute? atom.text = some atom.attr := by
  simp [Condition.attribute?, h.parse?]

theorem Fits.holds_text (h : atom.Fits ctx.schema) (record : Record) :
    ctx.holds record atom.text = atom.holds ctx.schema record := by
  rcases h.literal_fits with ⟨type, htype, hliteral⟩
  have hvalue := Context.isSome_ofLiteral?_of_checkLiteral (hliteral.checkLiteral atom.attr)
  rcases Option.isSome_iff_exists.1 hvalue with ⟨expected, hexpected⟩
  -- without a value neither side holds
  cases hactual : record.get? atom.attr with
  | none =>
    simp [Context.holds, Context.evaluateCondition, Atom.holds, h.parse?, htype, hactual]
  | some actual =>
    simp [Context.holds, Context.evaluateCondition, Atom.holds, h.parse?, htype, hactual,
      hexpected]

end Atom

namespace Expression

variable {ctx : Context} {expression : Expression}

theorem attributes_tree (h : ∀ atom ∈ expression.atoms, atom.Fits ctx.schema) :
    expression.tree.attributes = expression.atoms.map Atom.attr := by
  rw [Tree.attributes, leaves_tree]
  -- from here on only the list of comparisons matters
  generalize expression.atoms = atoms at h
  induction atoms with
  | nil => rfl
  | cons atom rest ih =>
    have hhead := (h atom (by simp)).attribute?
    have hrest := ih fun a ha => h a (by simp [ha])
    simp [hhead, hrest]

theorem verdict_tree (h : ∀ atom ∈ expression.atoms, atom.Fits ctx.schema) (record : Record) :
    expression.tree.verdict (ctx.holds record) = expression.truth ctx.schema record := by
  induction expression with
  | atom comparison => exact (h comparison (by simp [atoms])).holds_text record
  | join op left right ihLeft ihRight =>
    have hleft := ihLeft fun a ha => h a (by simp [atoms, ha])
    have hright := ihRight fun a ha => h a (by simp [atoms, ha])
    rw [tree, Tree.verdict_branch, truth_join, hleft, hright]

theorem compile_text (hheight : expression.height ≤ Tree.maxDepth)
    (h : ∀ atom ∈ expression.atoms, atom.Fits ctx.schema) :
    compile expression.text = .ok expression.tree := by
  rcases expression.derives h with ⟨tokens, htokens, hsentence⟩
  have hread := compile_of_derives htokens hsentence
  rwa [height_tree, if_pos hheight] at hread

/-- The meaning of rule text: an expression within the limit of depth compiles to a valid tree,
which fails on a record for the leftmost absent attribute, and else has the truth value of the
expression. -/
theorem evaluate_text (hheight : expression.height ≤ Tree.maxDepth)
    (h : ∀ atom ∈ expression.atoms, atom.Fits ctx.schema) :
    ∃ tree, compile expression.text = .ok tree ∧ ctx.validate tree = .ok () ∧
      ∀ record, ctx.evaluate record tree =
        match expression.atoms.find? fun comparison => !record.contains comparison.attr with
        | some comparison => .error (.missingData comparison.attr)
        | none => .ok (expression.truth ctx.schema record) := by
  have hheight' : expression.tree.height ≤ Tree.maxDepth := by
    rw [height_tree]
    exact hheight
  have hleaves : ∀ condition ∈ expression.tree.leaves, ctx.checkCondition condition = .ok () := by
    intro condition hcondition
    rw [leaves_tree, List.mem_map] at hcondition
    rcases hcondition with ⟨atom, hatom, rfl⟩
    exact (h atom hatom).checkCondition
  refine ⟨expression.tree, compile_text hheight h, ?_, ?_⟩
  · exact Context.validate_eq_ok_iff.2 ⟨hheight', hleaves⟩
  · intro record
    have hlevel : 0 + expression.tree.height ≤ Tree.maxDepth := by simpa using hheight'
    have heval := Context.evaluateAt_of_fits record hlevel hleaves
    -- the first absent attribute belongs to the first comparison whose attribute is absent
    rw [attributes_tree h, verdict_tree h record, List.find?_map] at heval
    rw [Context.evaluate, heval]
    unfold Function.comp
    cases expression.atoms.find? fun comparison => !record.contains comparison.attr with
    | none => rfl
    | some comparison => rfl

/-- Keywords, parentheses and the other quote within quotes, and a number between quotes with a
blank before it; either connective with just one side true, the left one and the right one; and each
operator between a number and a lesser, an equal and a greater one. -/
theorem evaluate_text_keyword_in_quotes :
    let ctx : Context := ⟨.ofList [("age", .number), ("team", .string)], .empty⟩
    let record : Record := .ofList [("team", .string "x"), ("age", .string "17")]
    let absent : Record := .empty
    let odd : Expression := .atom ⟨"team", .eq, .quoted '\x27' "R) AND (\"x\n"⟩
    let grown : Expression := .atom ⟨"age", .ge, .quoted '"' " 1.5e1"⟩
    let mixed : Expression := .join .and (.join .or odd grown) (.atom ⟨"age", .lt, .bare "40"⟩)
    let operators : List (Comparator × Bool × Bool × Bool) :=
      [(.eq, false, true, false), (.ne, true, false, true), (.gt, true, false, false),
        (.ge, true, true, false), (.lt, false, false, true), (.le, false, true, true)]
    let entries : List (Expression × Bool × String) :=
      [(mixed, true, "team"), (.join .and odd grown, false, "team"),
        (.join .and grown odd, false, "age"), (.join .or odd grown, true, "team"),
        (.join .or grown odd, true, "age")] ++
      operators.flatMap fun (op, lesser, equal, greater) =>
        [(.atom ⟨"age", op, .bare "16"⟩, lesser, "age"),
          (.atom ⟨"age", op, .bare "17"⟩, equal, "age"),
          (.atom ⟨"age", op, .bare "18"⟩, greater, "age")]
    mixed.text = "((team = 'R) AND (\"x\n') OR (age >= \" 1.5e1\")) AND (age < 40)" ∧
    ∀ entry ∈ entries, entry.1.height ≤ Tree.maxDepth ∧
      (∀ atom ∈ entry.1.atoms, atom.Fits ctx.schema) ∧
      ∃ tree, compile entry.1.text = .ok tree ∧ ctx.validate tree = .ok () ∧
        ctx.evaluate record tree = .ok entry.2.1 ∧
        ctx.evaluate absent tree = .error (.missingData entry.2.2) := by
  intro ctx record absent odd grown mixed operators entries
  have hfits : ∀ entry ∈ entries, ∀ atom ∈ entry.1.atoms, atom.Fits ctx.schema := by
    decide +kernel
  have hheights : ∀ entry ∈ entries, entry.1.height ≤ Tree.maxDepth := by decide
  have hpresent : ∀ entry ∈ entries,
      (entry.1.atoms.find? fun comparison => !record.contains comparison.attr) = none := by
    decide +kernel
  have htruth : ∀ entry ∈ entries, entry.1.truth ctx.schema record = entry.2.1 := by
    decide +kernel
  have habsent : ∀ entry ∈ entries,
      (entry.1.atoms.find? fun comparison => !absent.contains comparison.attr).map Atom.attr =
        some entry.2.2 := by
    decide +kernel
  refine ⟨rfl, ?_⟩
  intro entry hentry
  rcases evaluate_text (hheights entry hentry) (hfits entry hentry) with
    ⟨tree, htree, hvalid, heval⟩
  refine ⟨hheights entry hentry, hfits entry hentry, tree, htree, hvalid, ?_, ?_⟩
  · rw [heval record, hpresent entry hentry, htruth entry hentry]
  · rcases Option.map_eq_some_iff.1 (habsent entry hentry) with ⟨atom, hfirst, hattr⟩
    rw [heval absent, hfirst, ← hattr]

end Expression

end Formula
end Eligibility
