import Mathlib.Control.Monad.Basic
import Eligibility.Proofs.Combination
import Eligibility.Proofs.Formula.Rounds
import Eligibility.Proofs.Tree.Walk

/-!
# Measures — what the loops carry along is what the recursion finds

Depth and number of operands are found by walks with a list of pending subtrees, and trees that grow
are kept with a depth that is carried along, on the stack of the reader and in the fold of a
combination.  All of these are the measures of the recursion over the tree.

* `Combination.Progress`, `Combination.round` — the fold of a combination, one part at a time;
* `Combination.ends_ofParts` — its rounds are over, with the combination or the refusal;
* `Combination.depth_eq_of_passes` — in every state the tree so far is kept with its depth;
* `Tree.measures_exact` — the walks, the stacks and the fold.
-/

namespace Eligibility

open Loop (Round Passes Ends)

namespace Combination

/-- A combination that is being made: the names and the tree of the parts so far, and the parts to
come. -/
structure Progress where
  names : List String
  folded : Option (Tree × Nat)
  rest : List (String × Tree)
deriving DecidableEq, Repr

def Progress.initial (parts : List (String × Tree)) : Progress :=
  ⟨[], none, parts⟩

/-- One round of the fold. -/
def round : Progress → Round Progress (Except Error Combination)
  | ⟨_, none, []⟩ => .done (.error .empty)
  | ⟨names, some (tree, _), []⟩ => .done (.ok ⟨nameOf names, tree⟩)
  | ⟨names, none, (name, part) :: rest⟩ =>
    .next ⟨names ++ [name], some (part, part.depth), rest⟩
  | ⟨names, some (tree, depth), (name, part) :: rest⟩ =>
    let depth := max depth part.depth + 1
    if Tree.maxDepth < depth then .done (.error .tooDeep)
    else .next ⟨names ++ [name], some (.branch .or tree part, depth), rest⟩

/-- The combination that comes of a tree and further parts. -/
def ahead (names : List String) (folded : Tree × Nat) (rest : List (String × Tree)) :
    Except Error Combination :=
  match fold folded (rest.map Prod.snd) with
  | .error e => .error e
  | .ok (tree, _) => .ok ⟨nameOf (names ++ rest.map Prod.fst), tree⟩

theorem ends_fold (names : List String) (folded : Tree × Nat) (rest : List (String × Tree)) :
    ∃ rounds, rounds ≤ rest.length ∧
      Ends round rounds ⟨names, some folded, rest⟩ (ahead names folded rest) := by
  -- the names and the tree grow on the way, so the induction is for all of them
  rcases folded with ⟨tree, depth⟩
  induction rest generalizing names tree depth with
  | nil => exact ⟨0, Nat.le_refl 0, .done (by simp [round, ahead, fold])⟩
  | cons part rest ih =>
    rcases part with ⟨name, part⟩
    by_cases hdeep : Tree.maxDepth < max depth part.depth + 1
    · refine ⟨0, Nat.zero_le _, .done ?_⟩
      simp [round, ahead, fold, hdeep]
    · rcases ih (names ++ [name]) (.branch .or tree part) (max depth part.depth + 1) with
        ⟨rounds, hle, hends⟩
      have hround : round ⟨names, some (tree, depth), (name, part) :: rest⟩ =
          .next
            ⟨names ++ [name], some (.branch .or tree part, max depth part.depth + 1), rest⟩ := by
        simp [round, hdeep]
      have hahead : ahead names (tree, depth) ((name, part) :: rest) =
          ahead (names ++ [name]) (.branch .or tree part, max depth part.depth + 1) rest := by
        simp [ahead, fold, hdeep]
      exact ⟨rounds + 1, Nat.succ_le_succ hle, hahead ▸ .next hround hends⟩

/-- The rounds are over after at most one for each part, with the combination of the parts. -/
theorem ends_ofParts (parts : List (String × Tree)) :
    ∃ rounds, rounds ≤ parts.length ∧ Ends round rounds (.initial parts) (ofParts parts) := by
  cases parts with
  | nil => exact ⟨0, Nat.le_refl 0, .done rfl⟩
  | cons part rest =>
    rcases part with ⟨name, part⟩
    rcases ends_fold [name] (part, part.depth) rest with ⟨rounds, hle, hends⟩
    have hround : round (.initial ((name, part) :: rest)) =
        .next ⟨[name], some (part, part.depth), rest⟩ := rfl
    exact ⟨rounds + 1, Nat.succ_le_succ hle, .next hround hends⟩

/-- The depth that is kept with the tree so far is its own. -/
def Progress.IsExact (point : Progress) : Prop :=
  ∀ folded ∈ point.folded, folded.2 = folded.1.height

theorem Progress.IsExact.of_round {point point' : Progress} (h : point.IsExact)
    (hround : round point = .next point') : point'.IsExact := by
  revert hround
  fun_cases round point with
  | case1 names => exact nofun
  | case2 names tree depth => exact nofun
  | case3 names name part rest =>
    rintro ⟨⟩ folded ⟨⟩
    exact part.depth_eq_height
  | case4 names tree depth name part rest hdeep => exact nofun
  | case5 names tree depth' name part rest depth hfits =>
    rintro ⟨⟩ folded ⟨⟩
    have hdepth : depth' = tree.height := h (tree, depth') rfl
    simp only [depth, hdepth, part.depth_eq_height, Tree.height]

theorem depth_eq_of_passes {parts : List (String × Tree)} {point : Progress}
    (h : Passes round (.initial parts) point) : point.IsExact := by
  induction h with
  | first => exact nofun
  | next hpasses hround ih => exact ih.of_round hround

end Combination

open Formula

/-- The two walks end with the depth and the number of leaves that recursion finds, and wherever a
tree is kept with a depth, on the stack of the reader or in the fold of a combination, this depth is
its own in every state that the loop passes through. -/
theorem Tree.measures_exact :
    (∀ tree : Tree,
      (Ends depthRound tree.nodeCount ([(tree, 0)], 0) tree.depth ∧ tree.depth = tree.height) ∧
      Ends countRound tree.nodeCount ([tree], 0) tree.leafCount ∧
        tree.leafCount = tree.leaves.length) ∧
    (∀ tokens : List String,
      (tokens ≠ [] →
        ∃ rounds, Ends Reduction.round rounds (.initial, tokens) (ofTokens tokens)) ∧
      (∀ before rest s, tokens = before ++ rest → Reduction.run .initial before = .ok s →
        Passes Reduction.round (.initial, tokens) (s, rest)) ∧
      ∀ s rest, Passes Reduction.round (.initial, tokens) (s, rest) →
        ∀ entry ∈ s.built, entry.2 = entry.1.height) ∧
    ∀ parts : List (String × Tree),
      (∃ rounds, Ends Combination.round rounds (.initial parts) (Combination.ofParts parts)) ∧
      ∀ point, Passes Combination.round (.initial parts) point →
        ∀ folded ∈ point.folded, folded.2 = folded.1.height := by
  refine ⟨?walks, ?reader, ?folds⟩
  case walks =>
    intro tree
    exact ⟨⟨ends_depth tree, tree.depth_eq_height⟩, ends_leafCount tree,
      tree.leafCount_eq_length_leaves⟩
  case reader =>
    intro tokens
    refine ⟨?_, ?_, ?_⟩
    · intro hne
      rcases Reduction.exists_ends_ofTokens hne with ⟨rounds, _, hends⟩
      exact ⟨rounds, hends⟩
    · rintro before rest s rfl hrun
      exact Reduction.passes_of_run .first hrun
    · intro s rest hpasses entry hentry
      have hintact : Reduction.Intact (fun _ => True) (s, rest) :=
        Reduction.intact_of_passes hpasses fun _ _ => trivial
      exact (hintact.built entry hentry).depth_eq
  case folds =>
    intro parts
    rcases Combination.ends_ofParts parts with ⟨rounds, _, hends⟩
    exact ⟨⟨rounds, hends⟩, fun point hpasses => Combination.depth_eq_of_passes hpasses⟩

/-- A group is complete on the stack and a connective waits, and a combination of three parts is in
the middle. -/
theorem Tree.measures_exact_midway :
    let tokens := ["(", "a", "=", "1", "OR", "f(x)", ")", "AND", "b", "=", "2"]
    let group : Tree := .branch .or (.operand "a = 1") (.operand "f(x)")
    let parts := [("A", group), ("B", .operand "c = 3"), ("C", group)]
    (∃ rounds, Ends Reduction.round rounds (.initial, tokens) (ofTokens tokens)) ∧
    Passes Reduction.round (.initial, tokens)
      (⟨[.connective .and], [(group, 1)]⟩, ["b", "=", "2"]) ∧
    group.height = 1 ∧
    Passes Combination.round (.initial parts)
      ⟨["A", "B"], some (.branch .or group (.operand "c = 3"), 2), [("C", group)]⟩ ∧
    (Tree.branch .or group (.operand "c = 3")).height = 2 := by
  intro tokens group parts
  rcases measures_exact with ⟨_, hreading, hcombining⟩
  rcases hreading tokens with ⟨hends, hrun, hentries⟩
  have hpasses : Passes Reduction.round (.initial, tokens)
      (⟨[.connective .and], [(group, 1)]⟩, ["b", "=", "2"]) :=
    hrun (tokens.take 8) ["b", "=", "2"] _ rfl (by decide +kernel)
  have hround : Loop.after Combination.round 2 (.initial parts) =
      some ⟨["A", "B"], some (.branch .or group (.operand "c = 3"), 2), [("C", group)]⟩ := by
    decide +kernel
  have hfolded := Passes.first.after hround
  exact ⟨hends (List.cons_ne_nil _ _), hpasses,
    (hentries _ _ hpasses (group, 1) List.mem_cons_self).symm, hfolded,
    ((hcombining parts).2 _ hfolded _ rfl).symm⟩

end Eligibility
