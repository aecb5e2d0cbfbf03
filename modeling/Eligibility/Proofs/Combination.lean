import Eligibility.Combination
import Eligibility.Proofs.Tree.Height

/-!
# Combination — the tree of several rules

The fold joins its trees from the left and carries a depth beside the tree.  The carried depth is
exact, so that a combination is refused just when the joined tree is too deep.

* `Tree.orAll` — a tree joined with further ones, its height and its leaves;
* `Combination.fold_eq`, `Combination.ofParts_eq` — the fold and the combination in these terms;
* `Combination.ofParts_singleton`, `Combination.ofParts_cons` — a single part, which is not checked;
* `Combination.name_of_ofParts`, `Combination.exists_orAll_of_ofParts` — what a combination is;
* `Combination.ofParts_eq_ok` — the combinations of trees within the limit.
-/

namespace Eligibility

namespace Tree

/-- A tree joined with further trees by `or`, from the left. -/
def orAll (tree : Tree) (parts : List Tree) : Tree :=
  parts.foldl (.branch .or) tree

@[simp] theorem orAll_nil (tree : Tree) : tree.orAll [] = tree :=
  rfl

@[simp] theorem orAll_cons (tree part : Tree) (rest : List Tree) :
    tree.orAll (part :: rest) = (branch .or tree part).orAll rest :=
  rfl

theorem height_le_orAll (tree : Tree) (parts : List Tree) :
    tree.height ≤ (tree.orAll parts).height := by
  induction parts generalizing tree with
  | nil => exact Nat.le_refl _
  | cons part rest ih =>
    have hstep : tree.height ≤ (branch .or tree part).height := by
      simp only [height]
      omega
    exact Nat.le_trans hstep (ih _)

theorem leaves_orAll (tree : Tree) (parts : List Tree) :
    (tree.orAll parts).leaves = tree.leaves ++ parts.flatMap leaves := by
  induction parts generalizing tree with
  | nil => simp
  | cons part rest ih => simp [ih, leaves]

end Tree

namespace Combination

/-- The fold joins all its trees, unless the result is too deep.  The tree that it starts with is
checked only when there is something to join it with. -/
theorem fold_eq {tree : Tree} {parts : List Tree}
    (h : parts = [] → tree.height ≤ Tree.maxDepth) :
    fold (tree, tree.height) parts =
      if (tree.orAll parts).height ≤ Tree.maxDepth then
        .ok (tree.orAll parts, (tree.orAll parts).height)
      else .error .tooDeep := by
  induction parts generalizing tree with
  | nil => simp [fold, h rfl]
  | cons part rest ih =>
    -- the depth that the fold carries on is the height of the new branch
    have hdepth : max tree.height part.depth + 1 = (Tree.branch .or tree part).height := by
      rw [part.depth_eq_height, Tree.height]
    by_cases hfits : (Tree.branch .or tree part).height ≤ Tree.maxDepth
    · simp only [fold, hdepth, Nat.not_lt.2 hfits, if_false]
      exact ih fun _ => hfits
    · -- further parts do not make a tree lower, so the final tree would be too deep as well
      have hmono := Tree.height_le_orAll (.branch .or tree part) rest
      have hdeep : ¬ (tree.orAll (part :: rest)).height ≤ Tree.maxDepth :=
        fun hle => hfits (Nat.le_trans hmono hle)
      simp only [fold, hdepth, Nat.lt_of_not_le hfits, if_true, hdeep, if_false]

/-- Trees are combined just when the joined tree is not too deep, a single one excepted. -/
theorem ofParts_eq {part : String × Tree} {rest : List (String × Tree)}
    (h : rest = [] → part.2.height ≤ Tree.maxDepth) :
    ofParts (part :: rest) =
      if (part.2.orAll (rest.map Prod.snd)).height ≤ Tree.maxDepth then
        .ok ⟨nameOf ((part :: rest).map Prod.fst), part.2.orAll (rest.map Prod.snd)⟩
      else .error .tooDeep := by
  -- the fold starts from the depth of the first part, found by the walk
  have hfold : fold (part.2, part.2.height) (rest.map Prod.snd) = _ :=
    fold_eq fun hnil => h (List.map_eq_nil_iff.1 hnil)
  simp only [ofParts, part.2.depth_eq_height, hfold]
  by_cases hheight : (part.2.orAll (rest.map Prod.snd)).height ≤ Tree.maxDepth
  · simp only [hheight, if_true]
  · simp only [hheight, if_false]

/-- A single tree is handed on as it is, however deep. -/
theorem ofParts_singleton (part : String × Tree) :
    ofParts [part] = .ok ⟨nameOf [part.1], part.2⟩ :=
  rfl

/-- The joined tree is checked, unless there is nothing to join. -/
theorem ofParts_cons (part : String × Tree) (rest : List (String × Tree)) :
    ofParts (part :: rest) =
      if rest = [] ∨ (part.2.orAll (rest.map Prod.snd)).height ≤ Tree.maxDepth then
        .ok ⟨nameOf ((part :: rest).map Prod.fst), part.2.orAll (rest.map Prod.snd)⟩
      else .error .tooDeep := by
  cases rest with
  | nil =>
    rw [ofParts_singleton, if_pos (.inl rfl)]
    rfl
  | cons next rest =>
    rw [ofParts_eq fun hnil => absurd hnil (List.cons_ne_nil next rest)]
    simp only [reduceCtorEq, false_or]

/-- The name of a combination has the names of its parts, at least one. -/
theorem name_of_ofParts {parts : List (String × Tree)} {combination : Combination}
    (h : ofParts parts = .ok combination) :
    parts ≠ [] ∧ combination.name = nameOf (parts.map Prod.fst) := by
  cases parts with
  | nil => cases h
  | cons part rest =>
    simp only [ofParts] at h
    cases hfold : fold (part.2, part.2.depth) (rest.map Prod.snd) with
    | error e =>
      rw [hfold] at h
      cases h
    | ok folded =>
      rw [hfold] at h
      cases h
      exact ⟨List.cons_ne_nil _ _, rfl⟩

/-- A combination is its only part, or else its parts joined within the limit. -/
theorem exists_orAll_of_ofParts {parts : List (String × Tree)} {combination : Combination}
    (h : ofParts parts = .ok combination) :
    ∃ tree rest, parts.map Prod.snd = tree :: rest ∧ combination.tree = tree.orAll rest ∧
      (rest = [] ∨ (tree.orAll rest).height ≤ Tree.maxDepth) := by
  cases parts with
  | nil => cases h
  | cons part rest =>
    rw [ofParts_cons] at h
    split at h
    · next hfits =>
      cases h
      exact ⟨part.2, rest.map Prod.snd, rfl, rfl, hfits.imp_left List.map_eq_nil_iff.2⟩
    · cases h

/-- A combination of trees within the limit is within the limit and joins them in order. -/
theorem ofParts_eq_ok {parts : List (String × Tree)} {combination : Combination}
    (h : ofParts parts = .ok combination)
    (hparts : ∀ part ∈ parts, part.2.height ≤ Tree.maxDepth) :
    combination.name = nameOf (parts.map Prod.fst) ∧
      combination.tree.height ≤ Tree.maxDepth ∧
      combination.tree.leaves = parts.flatMap fun part => part.2.leaves := by
  rcases exists_orAll_of_ofParts h with ⟨tree, rest, hsplit, htree, hfits⟩
  refine ⟨(name_of_ofParts h).2, ?_, ?_⟩
  · rw [htree]
    rcases hfits with rfl | hheight
    · -- the only part, which is one of those within the limit
      have hmem : tree ∈ parts.map Prod.snd := hsplit ▸ List.mem_cons_self
      rcases List.mem_map.1 hmem with ⟨part, hpart, rfl⟩
      exact hparts part hpart
    · exact hheight
  · have hleaves := congrArg (List.flatMap Tree.leaves) hsplit
    rw [List.flatMap_map] at hleaves
    rw [htree, Tree.leaves_orAll, hleaves, List.flatMap_cons]

end Combination
end Eligibility
