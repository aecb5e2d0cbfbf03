import Eligibility.Proofs.Combination
import Eligibility.Proofs.Formula.Operands
import Eligibility.Proofs.Results
import Eligibility.Proofs.Store

/-!
# Limit — the ways to get a tree and the limit of depth

A tree comes from a text, from a combination or from a stored form.  Compiling carries depths along
with the trees, a combination carries the depth of its fold, and loading counts the levels on its
way down.  Only the fold of a single part has nothing to check: the part is handed on as it is, and
so is its depth.

* `Loading.exists_of_load`, `Loading.height_le_of_treeAt` — trees out of documents;
* `Loading.RuleFields.WithinLimit`, `Loading.height_le_of_rule` — rules out of documents;
* `Snapshot.Payload.height_le_of_readTree`, `Snapshot.withinLimit_of_decode` — trees and rules out
  of bytes;
* `Combination.ofParts_eq_iff` — which combinations are checked;
* `Tree.depth_le_maxDepth_of_source` — all ways together;
* `Combination.ofParts_single_part` — the exception.
-/

namespace Eligibility

/-! ## Documents -/

namespace Loading

theorem exists_of_load {α : Type} {loader : Json → Except Error α} {text : String} {value : α} :
    load loader text = .ok value → ∃ json, loader json = .ok value := by
  fun_cases load loader text with
  | case2 json rest hread value' hjson hend =>
    intro h
    cases h
    exact ⟨json, hjson⟩
  | case1 | case3 =>
    intro h
    cases h

theorem height_le_of_treeAt {level : Nat} {json : Json} {tree : Tree} :
    treeAt level json = .ok tree → tree.height ≤ Tree.maxDepth := by
  fun_cases treeAt level json with
  | case3 node hnode tree' htree =>
    intro h
    cases h
    exact Stored.height_le_of_toTree htree
  | case1 | case2 =>
    intro h
    cases h

namespace RuleFields

/-- The tree that was read, if any, is not too deep. -/
def WithinLimit (fields : RuleFields) : Prop :=
  ∀ tree, fields.tree = some tree → tree.height ≤ Tree.maxDepth

theorem withinLimit_initial : initial.WithinLimit := by
  intro tree htree
  cases htree

theorem WithinLimit.assign {fields fields' : RuleFields} {name : String} {json : Json}
    (h : fields.WithinLimit) :
    fields.assign name json = .ok fields' → fields'.WithinLimit := by
  fun_cases RuleFields.assign fields name json with
  | case1 hname =>
    intro hassign
    rcases exists_of_map hassign with ⟨text, _, rfl⟩
    exact h
  | case2 hname htree =>
    -- the one field that holds a tree
    intro hassign
    rcases exists_of_map hassign with ⟨tree, hread, rfl⟩
    intro tree' htree'
    cases htree'
    exact height_le_of_treeAt hread
  | case3 hname htree =>
    intro hassign
    rcases exists_of_map hassign with ⟨createdAt, _, rfl⟩
    exact h

theorem WithinLimit.finish {fields : RuleFields} {rule : Rule} (h : fields.WithinLimit) :
    fields.finish = .ok rule → rule.tree.height ≤ Tree.maxDepth := by
  fun_cases RuleFields.finish fields with
  | case4 name hname tree htree createdAt hcreatedAt =>
    intro hfinish
    cases hfinish
    exact h tree htree
  | case1 | case2 | case3 =>
    intro hfinish
    cases hfinish

theorem WithinLimit.finishItems {fields : RuleFields} {rule : Rule} (h : fields.WithinLimit) :
    fields.finishItems = .ok rule → rule.tree.height ≤ Tree.maxDepth := by
  fun_cases RuleFields.finishItems fields with
  | case1 e hrule =>
    intro hfinish
    cases hfinish
  | case2 rule' hrule =>
    intro hfinish
    cases hfinish
    exact h.finish hrule

end RuleFields

/-- The items of an array are taken in one by one, and none of them brings in a tree that is too
deep. -/
theorem height_le_of_ruleItems {fields : RuleFields} {due : List String} {items : Json.Items}
    {rule : Rule} (h : fields.WithinLimit) (hread : ruleItems fields due items = .ok rule) :
    rule.tree.height ≤ Tree.maxDepth := by
  fun_induction ruleItems fields due items with
  | case1 due fields => exact h.finishItems hread
  | case5 fields head tail name due fields' hassign ih => exact ih (h.assign hassign) hread
  | case2 | case3 | case4 => cases hread

/-- So are the members of an object, those of other names without a trace. -/
theorem height_le_of_ruleMembers {fields : RuleFields} {members : Json.Members} {rule : Rule}
    (h : fields.WithinLimit) (hread : ruleMembers fields members = .ok rule) :
    rule.tree.height ≤ Tree.maxDepth := by
  fun_induction ruleMembers fields members with
  | case1 fields => exact h.finish hread
  | case7 fields key value tail hnew hknown fields' hassign ih =>
    exact ih (h.assign hassign) hread
  | case8 fields key value tail hnew hother hcomplete ih => exact ih h hread
  | case2 | case3 | case4 | case5 | case6 | case9 => cases hread

theorem height_le_of_rule {json : Json} {rule : Rule} (h : Loading.rule json = .ok rule) :
    rule.tree.height ≤ Tree.maxDepth := by
  cases json with
  | object members => exact height_le_of_ruleMembers RuleFields.withinLimit_initial h
  | array items => exact height_le_of_ruleItems RuleFields.withinLimit_initial h
  | broken | null | bool | number | string => cases h

end Loading

/-! ## Bytes -/

namespace Snapshot

namespace Payload

theorem height_le_of_readTree {bytes rest : List UInt8} {tree : Tree} :
    readTree bytes = .ok (tree, rest) → tree.height ≤ Tree.maxDepth := by
  fun_cases readTree bytes with
  | case3 node rest' hnode tree' htree =>
    intro h
    cases h
    revert htree
    fun_cases treeOf node with
    | case1 defect hdefect =>
      intro htree
      cases htree
    | case2 tree' htree' =>
      intro htree
      cases htree
      exact Stored.height_le_of_toTree htree'
  | case1 | case2 =>
    intro h
    cases h

theorem height_le_of_readRule {bytes rest : List UInt8} {rule : Rule} :
    readRule bytes = .ok (rule, rest) → rule.tree.height ≤ Tree.maxDepth := by
  -- only the reader of the tree matters, name and time come before and after it
  fun_cases readRule bytes with
  | case4 name rest₁ hname tree rest₂ htree createdAt rest₃ hcreatedAt =>
    intro h
    cases h
    exact height_le_of_readTree htree
  | case1 | case2 | case3 =>
    intro h
    cases h

theorem withinLimit_of_readRules {count : Nat} {bytes rest : List UInt8} {rules : List Rule}
    (h : readRules count bytes = .ok (rules, rest)) : WithinLimit rules := by
  fun_induction readRules count bytes generalizing rules rest with
  | case1 bytes =>
    cases h
    intro rule hrule
    cases hrule
  | case4 count bytes rule rest₁ hrule rules' rest₂ hrules ih =>
    cases h
    exact withinLimit_cons.2 ⟨height_le_of_readRule hrule, ih hrules⟩
  | case2 | case3 => cases h

theorem withinLimit_of_read {bytes : List UInt8} {announced : Nat} {rules : List Rule} :
    read bytes = .ok (announced, rules) → WithinLimit rules := by
  fun_cases read bytes with
  | case4 announced' rest₁ hannounced count rest₂ hcount rules' rest₃ hrules =>
    intro h
    cases h
    exact withinLimit_of_readRules hrules
  | case1 | case2 | case3 =>
    intro h
    cases h

end Payload

theorem withinLimit_of_decode {bytes : List UInt8} {rules : List Rule} :
    decode bytes = .ok rules → Payload.WithinLimit rules := by
  fun_cases decode bytes with
  | case3 payload hpayload announced rules' hread =>
    intro h
    rw [eq_of_checked h]
    exact Payload.withinLimit_of_read hread
  | case1 | case2 =>
    intro h
    cases h

end Snapshot

theorem Store.height_le_of_ofBytes {bytes : List UInt8} {store : Store}
    (h : ofBytes bytes = .ok store) {name : String} {rule : Rule}
    (hget : store.get? name = some rule) : rule.tree.height ≤ Tree.maxDepth := by
  rcases exists_of_map h with ⟨rules, hdecode, rfl⟩
  exact Snapshot.withinLimit_of_decode hdecode rule (get?_ofRules hget).1

/-! ## All ways together -/

namespace Combination

/-- A combination is the joined tree, or refused where that is too deep, unless it is one of a
single tree that is too deep itself. -/
theorem ofParts_eq_iff {part : String × Tree} {rest : List (String × Tree)} :
    (ofParts (part :: rest) =
      if (part.2.orAll (rest.map Prod.snd)).depth ≤ Tree.maxDepth then
        .ok ⟨nameOf ((part :: rest).map Prod.fst), part.2.orAll (rest.map Prod.snd)⟩
      else .error .tooDeep) ↔ rest ≠ [] ∨ part.2.depth ≤ Tree.maxDepth := by
  rw [Tree.depth_eq_height, Tree.depth_eq_height]
  constructor
  · intro h
    by_contra hnot
    rw [not_or, not_not] at hnot
    rcases hnot with ⟨rfl, hdeep⟩
    -- a single tree is not checked
    rw [ofParts_singleton, List.map_nil, Tree.orAll_nil, if_neg hdeep] at h
    cases h
  · rintro (hne | hheight)
    · exact ofParts_eq fun hnil => absurd hnil hne
    · exact ofParts_eq fun _ => hheight

end Combination

/-- Every tree that is compiled or loaded keeps the limit of depth.  A combination is the joined
tree, or refused where that would be too deep, exactly when there are two parts or more or the only
part keeps the limit; a single tree is handed on in any case. -/
theorem Tree.depth_le_maxDepth_of_source (part : String × Tree) (rest : List (String × Tree)) :
    (∀ text tree, Formula.compile text = .ok tree → tree.depth ≤ maxDepth) ∧
    ((Combination.ofParts (part :: rest) =
        if (part.2.orAll (rest.map Prod.snd)).depth ≤ maxDepth then
          .ok ⟨Combination.nameOf ((part :: rest).map Prod.fst), part.2.orAll (rest.map Prod.snd)⟩
        else .error .tooDeep) ↔ rest ≠ [] ∨ part.2.depth ≤ maxDepth) ∧
    Combination.ofParts [part] = .ok ⟨Combination.nameOf [part.1], part.2⟩ ∧
    (∀ text tree, ofJsonText text = .ok tree → tree.depth ≤ maxDepth) ∧
    (∀ text rule, Rule.ofJsonText text = .ok rule → rule.tree.depth ≤ maxDepth) ∧
    (∀ bytes tree rest, Snapshot.Payload.readTree bytes = .ok (tree, rest) →
      tree.depth ≤ maxDepth) ∧
    (∀ bytes rule rest, Snapshot.Payload.readRule bytes = .ok (rule, rest) →
      rule.tree.depth ≤ maxDepth) ∧
    (∀ bytes rules, Snapshot.decode bytes = .ok rules → ∀ rule ∈ rules,
      rule.tree.depth ≤ maxDepth) ∧
    (∀ bytes store, Store.ofBytes bytes = .ok store → ∀ name rule, store.get? name = some rule →
      rule.tree.depth ≤ maxDepth) := by
  refine ⟨?compiled, Combination.ofParts_eq_iff, Combination.ofParts_singleton part, ?loaded⟩
  case compiled =>
    intro text tree h
    rw [depth_eq_height]
    exact (Formula.isRule_of_compile h).height_le
  case loaded =>
    simp only [depth_eq_height]
    refine ⟨?tree, ?rule, ?treeBytes, ?ruleBytes, ?rules, ?store⟩
    case tree =>
      intro text tree h
      rcases Loading.exists_of_load h with ⟨json, hjson⟩
      exact Loading.height_le_of_treeAt hjson
    case rule =>
      intro text rule h
      rcases Loading.exists_of_load h with ⟨json, hjson⟩
      exact Loading.height_le_of_rule hjson
    case treeBytes =>
      intro bytes tree rest h
      exact Snapshot.Payload.height_le_of_readTree h
    case ruleBytes =>
      intro bytes rule rest h
      exact Snapshot.Payload.height_le_of_readRule h
    case rules =>
      intro bytes rules h
      exact Snapshot.withinLimit_of_decode h
    case store =>
      intro bytes store h name rule hget
      exact Store.height_le_of_ofBytes h hget

/-- Each way taken once: a text, the deepest combination and one level more, and rules out of
documents and bytes. -/
theorem Tree.depth_le_maxDepth_of_source_boundary :
    let chain : Nat → Tree := fun levels =>
      (operand "a = 1").orAll (List.replicate levels (operand "b = 2"))
    let leaf : String × Tree := ("leaf", operand "b = 2")
    let noon : Instant := ⟨⟨2024, 2, 29, 12, 0, 0, 0⟩, by decide⟩
    let short : Rule := ⟨"r", chain 1, noon⟩
    (Formula.compile "a = 1 OR b = 2" = .ok (chain 1) ∧ (chain 1).depth ≤ maxDepth) ∧
      Combination.ofParts [("deep", chain 63), leaf] = .ok ⟨"Combined: deep + leaf", chain 64⟩ ∧
      Combination.ofParts [("deepest", chain 64), leaf] = .error .tooDeep ∧
      Combination.ofParts [("deepest", chain 64)] = .ok ⟨"Combined: deepest", chain 64⟩ ∧
      (ofJsonText "[\"operand\",\"a = 1\"]" = .ok (chain 0) ∧ (chain 0).depth ≤ maxDepth) ∧
      (Rule.ofJsonText "[\"r\",[\"operand\",\"a = 1\"],\"2024-02-29T12:00:00Z\"]" =
        .ok ⟨"r", chain 0, noon⟩ ∧ (⟨"r", chain 0, noon⟩ : Rule).tree.depth ≤ maxDepth) ∧
      (Snapshot.Payload.readTree (Snapshot.Payload.node (chain 1).toStored) =
        .ok (chain 1, []) ∧ (chain 1).depth ≤ maxDepth) ∧
      (Snapshot.Payload.readRule (Snapshot.Payload.rule short) = .ok (short, []) ∧
        short.tree.depth ≤ maxDepth) ∧
      (Snapshot.decode (Snapshot.encode [short]) = .ok [short] ∧
        ∀ rule ∈ [short], rule.tree.depth ≤ maxDepth) ∧
      (Store.ofBytes (Snapshot.encode [short]) = .ok (Store.ofRules [short]) ∧
        ∀ name rule, (Store.ofRules [short]).get? name = some rule →
          rule.tree.depth ≤ maxDepth) := by
  intro chain leaf noon short
  rcases depth_le_maxDepth_of_source ("deepest", chain 64) [leaf] with
    ⟨hcompiled, hjoined, hsingle, htree, hrule, htreeBytes, hruleBytes, hrules, hstore⟩
  have hdecode : Snapshot.decode (Snapshot.encode [short]) = .ok [short] := by
    have hsize : (Snapshot.Payload.ofRules [short]).length < 2 ^ 32 := by decide +kernel
    have hlimit : Snapshot.Payload.WithinLimit [short] := by decide +kernel
    rw [Snapshot.decode_encode, if_pos hsize, if_pos hlimit]
    decide +kernel
  refine ⟨?compiled, ?joined, ?refused, ?single, ?tree, ?rule, ?treeBytes, ?ruleBytes, ?rules,
    ?store⟩
  case compiled =>
    have htext : Formula.compile "a = 1 OR b = 2" = .ok (chain 1) := by decide +kernel
    exact ⟨htext, hcompiled _ _ htext⟩
  case joined =>
    have hfits : (chain 64).depth ≤ maxDepth := by
      rw [depth_eq_height]
      decide +kernel
    have hname : Combination.nameOf ["deep", "leaf"] = "Combined: deep + leaf" := by decide
    have hjoin : (chain 63).orAll [operand "b = 2"] = chain 64 := by decide +kernel
    rw [(depth_le_maxDepth_of_source _ _).2.1.2 (.inl (List.cons_ne_nil _ _))]
    simp only [leaf, List.map_cons, List.map_nil, hjoin, hfits, if_true, hname]
  case refused =>
    have hdeep : ¬ ((chain 64).orAll [operand "b = 2"]).depth ≤ maxDepth := by
      rw [depth_eq_height]
      decide +kernel
    rw [hjoined.2 (.inl (List.cons_ne_nil _ _))]
    simp only [leaf, List.map_cons, List.map_nil, hdeep, if_false]
  case single =>
    have hname : Combination.nameOf ["deepest"] = "Combined: deepest" := by decide
    rw [hsingle, hname]
  case tree =>
    have htext : ofJsonText "[\"operand\",\"a = 1\"]" = .ok (chain 0) := by decide +kernel
    exact ⟨htext, htree _ _ htext⟩
  case rule =>
    have htext : Rule.ofJsonText "[\"r\",[\"operand\",\"a = 1\"],\"2024-02-29T12:00:00Z\"]" =
        .ok ⟨"r", chain 0, noon⟩ := by decide +kernel
    exact ⟨htext, hrule _ _ htext⟩
  case treeBytes =>
    have hsize : (Snapshot.Payload.node (chain 1).toStored).length < 2 ^ 64 := by decide +kernel
    have hheight : (chain 1).height ≤ maxDepth := by decide +kernel
    have hread := Snapshot.Payload.readTree_node (chain 1) hsize []
    rw [List.append_nil, if_pos hheight] at hread
    exact ⟨hread, htreeBytes _ _ _ hread⟩
  case ruleBytes =>
    have hsize : (Snapshot.Payload.rule short).length < 2 ^ 64 := by decide +kernel
    have hheight : short.tree.height ≤ maxDepth := by decide +kernel
    have hread := Snapshot.Payload.readRule_rule hsize []
    rw [List.append_nil, if_pos hheight] at hread
    exact ⟨hread, hruleBytes _ _ _ hread⟩
  case rules => exact ⟨hdecode, hrules _ _ hdecode⟩
  case store =>
    have hread : Store.ofBytes (Snapshot.encode [short]) = .ok (Store.ofRules [short]) := by
      rw [Store.ofBytes, hdecode]
      rfl
    exact ⟨hread, hstore _ _ hread⟩

/-- A single tree of one level more than the limit is combined all the same. -/
theorem Combination.ofParts_single_part :
    let deep := (Tree.operand "a = 1").orAll (List.replicate 65 (.operand "a = 1"))
    ofParts [("deep", deep)] = .ok ⟨"Combined: deep", deep⟩ ∧ Tree.maxDepth < deep.depth := by
  intro deep
  have hname : nameOf ["deep"] = "Combined: deep" := by decide
  refine ⟨?_, ?_⟩
  · rw [ofParts_singleton, hname]
  · rw [Tree.depth_eq_height]
    decide +kernel

end Eligibility
