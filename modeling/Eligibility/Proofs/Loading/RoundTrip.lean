import Eligibility.Evaluation
import Eligibility.Proofs.Combination
import Eligibility.Proofs.Formula.Operands
import Eligibility.Proofs.Instant.RoundTrip
import Eligibility.Proofs.Json.RoundTrip
import Eligibility.Proofs.Loading.Document
import Eligibility.Proofs.Tree.Stored
import Eligibility.Rule

/-!
# RoundTrip — trees and rules come back from their JSON texts

A tree is written as its stored form, one object for each level of branches and one for the operand.
Two limits stand in the way back: the nesting of objects, while the text is taken apart, and the
depth of the tree, afterwards.  The second is the lower one, by far enough for the object of a rule
around its tree.

* `Json.ofNode`, `Tree.isDocument_toJson` — a tree is written as a document of its stored form;
* `Loading.stored_toJson`, `Loading.treeAt_toJson`, `Loading.rule_toJson` — the documents of trees
  and rules, read inside any number of objects;
* `Tree.exists_writtenAs_toJson`, `Tree.isStrict_toJson_iff` — their texts, and how deep they nest;
* `Tree.ofJsonText_jsonText`, `Rule.ofJsonText_jsonText` — the outcome of loading, with every
  refusal;
* `Tree.reload_jsonText` — both limits, and the verdicts of what comes back.
-/

namespace Eligibility

/-! ## The document of a node -/

namespace Json

/-- An object with the four fields of a node. -/
def ofNode (kind value : String) (left right : Json) : Json :=
  ofMembers [("kind", ofString kind), ("value", ofString value), ("left", left), ("right", right)]

theorem ofFields_some (kind value : String) (left right : Json) :
    ofFields kind value (some left) (some right) = ofNode kind value left right := rfl

theorem isStrict_ofNode_iff {kind value : String} {left right : Json} {level : Nat} :
    (ofNode kind value left right).isStrict level = true ↔
      level < maxNesting ∧ left.isStrict (level + 1) = true ∧
        right.isStrict (level + 1) = true := by
  simp [ofNode, ofMembers, ofString, isStrict, Members.isStrict]

end Json

namespace Tree

theorem toJson_operand (condition : String) :
    (operand condition).toJson = Json.ofNode Stored.operandKind condition .null .null := by
  simp [toJson, toStored, Stored.toJson, Json.ofNode]

theorem toJson_branch (op : Connective) (left right : Tree) :
    (branch op left right).toJson =
      Json.ofNode Stored.branchKind op.keyword left.toJson right.toJson := by
  simp [toJson, toStored, Stored.toJson, Json.ofNode]

/-- A tree is written with null where there is no child. -/
theorem isDocument_toJson (tree : Tree) : tree.toStored.IsDocument tree.toJson := by
  induction tree with
  | operand condition =>
    rw [toJson_operand, ← Json.ofFields_some]
    exact .node .null .null
  | branch op left right ihLeft ihRight =>
    rw [toJson_branch, ← Json.ofFields_some]
    exact .node (.child ihLeft) (.child ihRight)

end Tree

/-! ## Documents -/

namespace Loading

/-- The stored form comes back from its document, unless the document is nested too deep. -/
theorem stored_toJson (tree : Tree) (level : Nat) :
    stored level tree.toJson =
      if level + tree.height < Json.maxNesting then .ok tree.toStored else .error .malformed := by
  rw [tree.isDocument_toJson.stored_eq, Stored.height_toStored]

theorem treeAt_toJson (tree : Tree) (level : Nat) :
    treeAt level tree.toJson =
      if level + tree.height < Json.maxNesting then
        if tree.height ≤ Tree.maxDepth then .ok tree else .error (.defect .tooDeep)
      else .error .malformed := by
  rw [treeAt, stored_toJson]
  by_cases hnesting : level + tree.height < Json.maxNesting
  · simp only [hnesting, if_true, tree.toTree_toStored]
    by_cases hheight : tree.height ≤ Tree.maxDepth
    · simp only [hheight, if_true]
    · simp only [hheight, if_false]
  · simp only [hnesting, if_false]

/-- The document of a rule is read as the rule when that of its tree, one object further in, is read
as the tree. -/
theorem rule_toJson (rule : Rule) :
    Loading.rule rule.toJson =
      (treeAt 1 rule.tree.toJson).map fun tree => { rule with tree := tree } := by
  have htime : instant (.string (some rule.createdAt.text)) = .ok rule.createdAt := by
    simp [instant, text?, Instant.ofText?_text]
  simp only [Rule.toJson, Json.ofMembers, List.foldr_cons, List.foldr_nil, Loading.rule]
  cases htree : treeAt 1 rule.tree.toJson with
  | error e =>
    simp [ruleMembers, RuleFields.has, RuleFields.initial, RuleFields.names, RuleFields.assign,
      text?, Json.ofString, Except.map, htree]
  | ok tree =>
    simp [ruleMembers, RuleFields.has, RuleFields.initial, RuleFields.names, RuleFields.assign,
      RuleFields.finish, text?, Json.ofString, Except.map, htree, htime]

/-- A loader finds a written document in its text. -/
theorem load_text {α : Type} (loader : Json → Except Error α) {json : Json}
    (h : ∃ cs, json.WrittenAs cs) : load loader json.text = loader json := by
  unfold load
  rw [Json.read_text h]
  cases hload : loader json with
  | error e => simp only [hload]
  | ok value =>
    simp only [hload]
    -- nothing stands behind the document
    rfl

end Loading

/-! ## Texts -/

namespace Tree

theorem exists_writtenAs_toJson (tree : Tree) : ∃ cs, tree.toJson.WrittenAs cs :=
  tree.isDocument_toJson.exists_writtenAs

/-- A document nests one object for each level of branches, and one for the operand. -/
theorem isStrict_toJson_iff (tree : Tree) (level : Nat) :
    tree.toJson.isStrict level = true ↔ level + tree.height < Json.maxNesting := by
  induction tree generalizing level with
  | operand condition =>
    rw [toJson_operand, Json.isStrict_ofNode_iff]
    simp [Json.isStrict, height]
  | branch op left right ihLeft ihRight =>
    rw [toJson_branch, Json.isStrict_ofNode_iff, ihLeft, ihRight, height]
    omega

/-- The tree of the JSON text of a tree: the tree itself, unless it is too deep.  The reader counts
its levels only after the text is taken apart, which fails first for much deeper trees. -/
theorem ofJsonText_jsonText (tree : Tree) :
    ofJsonText tree.jsonText =
      if tree.height < Json.maxNesting then
        if tree.height ≤ maxDepth then .ok tree else .error (.defect .tooDeep)
      else .error .malformed := by
  rw [ofJsonText, jsonText, Loading.load_text _ tree.exists_writtenAs_toJson, Loading.tree,
    Loading.treeAt_toJson, Nat.zero_add]

end Tree

namespace Rule

theorem exists_writtenAs_toJson (rule : Rule) : ∃ cs, rule.toJson.WrittenAs cs := by
  refine Json.exists_writtenAs_ofMembers _ ?_
  simp only [List.forall_mem_cons]
  exact ⟨⟨_, Json.writtenAs_ofString _⟩, rule.tree.exists_writtenAs_toJson,
    ⟨_, Json.writtenAs_ofString _⟩, by simp⟩

theorem isStrict_toJson_iff (rule : Rule) :
    rule.toJson.isStrict 0 = true ↔ 1 + rule.tree.height < Json.maxNesting := by
  have hlevel : 0 < Json.maxNesting := by decide
  simp [toJson, Json.ofMembers, Json.ofString, Json.isStrict, Json.Members.isStrict, hlevel,
    Tree.isStrict_toJson_iff]

/-- The rule of the JSON text of a rule: the rule itself, unless its tree is too deep. -/
theorem ofJsonText_jsonText (rule : Rule) :
    ofJsonText rule.jsonText =
      if 1 + rule.tree.height < Json.maxNesting then
        if rule.tree.height ≤ Tree.maxDepth then .ok rule else .error (.defect .tooDeep)
      else .error .malformed := by
  rw [ofJsonText, jsonText, Loading.load_text _ rule.exists_writtenAs_toJson, Loading.rule_toJson,
    Loading.treeAt_toJson]
  by_cases hnesting : 1 + rule.tree.height < Json.maxNesting
  · by_cases hheight : rule.tree.height ≤ Tree.maxDepth
    · simp only [hnesting, hheight, if_true]
      rfl
    · simp only [hnesting, hheight, if_true, if_false]
      rfl
  · simp only [hnesting, if_false]
    rfl

end Rule

/-- A tree and every rule of it come back from their JSON texts when the tree keeps the limit of
depth; the limit of nesting is not reached then.  Beyond the limit of depth neither text is
accepted.  What comes back of a compiled text evaluates as the compiled tree does. -/
theorem Tree.reload_jsonText (tree : Tree) :
    (tree.depth ≤ maxDepth →
      ofJsonText tree.jsonText = .ok tree ∧ tree.toJson.isStrict 0 = true ∧
      ∀ name createdAt,
        Rule.ofJsonText (Rule.jsonText ⟨name, tree, createdAt⟩) = .ok ⟨name, tree, createdAt⟩ ∧
        (Rule.toJson ⟨name, tree, createdAt⟩).isStrict 0 = true) ∧
    (maxDepth < tree.depth →
      ofJsonText tree.jsonText =
        .error (if tree.depth < Json.maxNesting then .defect .tooDeep else .malformed) ∧
      ∀ name createdAt, Rule.ofJsonText (Rule.jsonText ⟨name, tree, createdAt⟩) =
        .error (if 1 + tree.depth < Json.maxNesting then .defect .tooDeep else .malformed)) ∧
    (∀ text, Formula.compile text = .ok tree →
      ∃ reloaded, ofJsonText tree.jsonText = .ok reloaded ∧
        ∀ ctx record, Context.evaluate ctx record reloaded = Context.evaluate ctx record tree) := by
  -- the two limits are far enough apart for a rule, which nests its tree in one more object
  have hlimits : maxDepth + 1 < Json.maxNesting := by decide
  have hback : tree.height ≤ maxDepth → ofJsonText tree.jsonText = .ok tree := by
    intro hheight
    have hnesting : tree.height < Json.maxNesting := by omega
    rw [ofJsonText_jsonText, if_pos hnesting, if_pos hheight]
  rw [depth_eq_height]
  refine ⟨?within, ?beyond, ?compiled⟩
  case within =>
    intro hheight
    have hnesting : 0 + tree.height < Json.maxNesting := by omega
    refine ⟨hback hheight, (tree.isStrict_toJson_iff 0).2 hnesting, ?_⟩
    intro name createdAt
    have hrule : 1 + tree.height < Json.maxNesting := by omega
    refine ⟨?_, (Rule.isStrict_toJson_iff _).2 hrule⟩
    rw [Rule.ofJsonText_jsonText, if_pos hrule, if_pos hheight]
  case beyond =>
    intro hdeep
    have hheight : ¬ tree.height ≤ maxDepth := Nat.not_le.2 hdeep
    refine ⟨?_, ?_⟩
    · rw [ofJsonText_jsonText, if_neg hheight]
      by_cases hnesting : tree.height < Json.maxNesting
      · rw [if_pos hnesting, if_pos hnesting]
      · rw [if_neg hnesting, if_neg hnesting]
    · intro name createdAt
      rw [Rule.ofJsonText_jsonText, if_neg hheight]
      by_cases hnesting : 1 + tree.height < Json.maxNesting
      · rw [if_pos hnesting, if_pos hnesting]
      · rw [if_neg hnesting, if_neg hnesting]
  case compiled =>
    intro text hcompile
    exact ⟨tree, hback (Formula.isRule_of_compile hcompile).height_le, fun _ _ => rfl⟩

/-- Operands with all kinds of escapes, at the limit of depth, beyond it, and at the limit of
nesting, which a rule reaches one level earlier; and a compiled text. -/
theorem Tree.reload_jsonText_boundary :
    let noon : Instant := ⟨⟨2024, 2, 29, 12, 0, 0, 500⟩, by decide⟩
    let chain : Nat → Tree := fun levels =>
      (operand "").orAll (List.replicate levels (operand "\"a\\\n\x01\x7f é 😀"))
    let compiled : Tree := .branch .or (.operand "a = '\"'") (.operand "f(ü)")
    ofJsonText (chain 64).jsonText = .ok (chain 64) ∧
      Rule.ofJsonText (Rule.jsonText ⟨"\t\"", chain 64, noon⟩) = .ok ⟨"\t\"", chain 64, noon⟩ ∧
      ofJsonText (chain 65).jsonText = .error (.defect .tooDeep) ∧
      ofJsonText (chain 126).jsonText = .error (.defect .tooDeep) ∧
      Rule.ofJsonText (Rule.jsonText ⟨"", chain 126, noon⟩) = .error .malformed ∧
      ∃ reloaded, ofJsonText compiled.jsonText = .ok reloaded ∧
        ∀ ctx record,
          Context.evaluate ctx record reloaded = Context.evaluate ctx record compiled := by
  intro noon chain compiled
  have hlimit : (chain 64).depth = 64 := by
    rw [depth_eq_height]
    decide +kernel
  have hbeyond : (chain 65).depth = 65 := by
    rw [depth_eq_height]
    decide +kernel
  have hfar : (chain 126).depth = 126 := by
    rw [depth_eq_height]
    decide +kernel
  have hcompile : Formula.compile "a = '\"' OR f(ü)" = .ok compiled := by decide +kernel
  rcases (reload_jsonText (chain 64)).1 (by rw [hlimit]; decide) with ⟨hback, _, hrule⟩
  have hrefused := ((reload_jsonText (chain 65)).2.1 (by rw [hbeyond]; decide)).1
  have hrefused' := (reload_jsonText (chain 126)).2.1 (by rw [hfar]; decide)
  rw [hbeyond] at hrefused
  rw [hfar] at hrefused'
  exact ⟨hback, (hrule "\t\"" noon).1, hrefused, hrefused'.1, hrefused'.2 "" noon,
    (reload_jsonText compiled).2.2 _ hcompile⟩

end Eligibility
