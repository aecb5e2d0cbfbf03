import Eligibility.Proofs.Combination
import Eligibility.Proofs.Evaluation
import Eligibility.Proofs.Results

/-!
# Strict disjunction — what a combination says in terms of its parts

The parts of a combination stand at different levels of its tree, the first part lowest.  As the
fold keeps the limit of depth, no part stands so low that a branch of it would be at fault for that
alone.  Hence both walks treat the combination as the list of its parts: the first part with a fault
decides, and without one the combination is true where some part is.

* `Context.evaluate_branch`, `Context.validate_branch` — a branch by its two sides, each taken as a
  tree of its own;
* `Context.evaluate_orAll`, `Context.validate_orAll` — a joined tree by the list of its parts;
* `Context.evaluate_ofParts`, `Context.validate_ofParts` — a combination by the list of its parts;
* `Context.outcomes_of_ofParts` — the same spelled out.
-/

namespace Eligibility

namespace Context

variable {ctx : Context}

/-! ## Branches -/

theorem evaluateAt_eq_evaluate (record : Record) {tree : Tree} {level : Nat}
    (h : level + tree.height ≤ Tree.maxDepth) :
    ctx.evaluateAt record level tree = ctx.evaluate record tree := by
  rw [evaluate, evaluateAt_eq_firstFaultOr, evaluateAt_eq_firstFaultOr]
  exact Tree.firstFaultOr_positionsAt_of_le h _

theorem checkAt_eq_validate {tree : Tree} {level : Nat}
    (h : level + tree.height ≤ Tree.maxDepth) :
    ctx.checkAt level tree = ctx.validate tree := by
  rw [validate, checkAt_eq_firstFaultOr, checkAt_eq_firstFaultOr]
  exact Tree.firstFaultOr_positionsAt_of_le h _

/-- A branch within the limit of depth has what its sides have of themselves, one level further
up. -/
theorem evaluate_branch (record : Record) {op : Connective} {left right : Tree}
    (h : (Tree.branch op left right).height ≤ Tree.maxDepth) :
    ctx.evaluate record (.branch op left right) =
      (ctx.evaluate record left).bind fun passed =>
        (ctx.evaluate record right).map (op.apply passed) := by
  simp only [Tree.height] at h
  have hroot : ¬ Tree.maxDepth ≤ 0 := by decide
  have hleft : ctx.evaluateAt record (0 + 1) left = _ := evaluateAt_eq_evaluate record (by omega)
  have hright : ctx.evaluateAt record (0 + 1) right = _ := evaluateAt_eq_evaluate record (by omega)
  rw [evaluate, evaluateAt, if_neg hroot, hleft, hright]
  cases ctx.evaluate record left with
  | error failure => rfl
  | ok passed =>
    cases ctx.evaluate record right with
    | error failure => rfl
    | ok passed' => rfl

theorem validate_branch {op : Connective} {left right : Tree}
    (h : (Tree.branch op left right).height ≤ Tree.maxDepth) :
    ctx.validate (.branch op left right) =
      (ctx.validate left).bind fun _ => (ctx.validate right).map fun _ => () := by
  simp only [Tree.height] at h
  have hroot : ¬ Tree.maxDepth ≤ 0 := by decide
  have hleft : ctx.checkAt (0 + 1) left = _ := checkAt_eq_validate (by omega)
  have hright : ctx.checkAt (0 + 1) right = _ := checkAt_eq_validate (by omega)
  rw [validate, checkAt, if_neg hroot, hleft, hright]
  cases ctx.validate left with
  | error defect => rfl
  | ok =>
    cases ctx.validate right with
    | error defect => rfl
    | ok => rfl

/-! ## Joined trees -/

/-- A walk that takes a branch for its two sides takes a joined tree for the list of its parts. -/
theorem walk_orAll {ε α : Type} (walk : Tree → Except ε α) (join : α → α → α)
    (hbranch : ∀ left right, (Tree.branch .or left right).height ≤ Tree.maxDepth →
      walk (.branch .or left right) =
        (walk left).bind fun a => (walk right).map (join a))
    {tree : Tree} {parts : List Tree}
    (h : parts = [] ∨ (tree.orAll parts).height ≤ Tree.maxDepth) :
    walk (tree.orAll parts) =
      (walk tree).bind fun a => (parts.mapM walk).map fun results => results.foldl join a := by
  induction parts generalizing tree with
  | nil =>
    rw [Tree.orAll_nil]
    cases walk tree with
    | error e => rfl
    | ok a => rfl
  | cons part rest ih =>
    -- the first two parts count as one, which stands one level further up than they do
    have hheight := h.resolve_left (List.cons_ne_nil part rest)
    have hpair := hbranch tree part
      (Nat.le_trans (Tree.height_le_orAll (.branch .or tree part) rest) hheight)
    rw [Tree.orAll_cons, ih (.inr hheight), hpair]
    cases walk tree with
    | error e => rfl
    | ok a =>
      cases hpart : walk part with
      | error e =>
        rw [mapM_cons_of_error hpart]
        rfl
      | ok b =>
        rw [mapM_cons_of_ok hpart]
        cases rest.mapM walk with
        | error e => rfl
        | ok results => rfl

theorem foldl_or_eq_any (verdicts : List Bool) (passed : Bool) :
    verdicts.foldl (Connective.apply .or) passed = (passed :: verdicts).any id := by
  induction verdicts generalizing passed with
  | nil => simp
  | cons passed' rest ih => simp [ih, Connective.apply, Bool.or_assoc]

/-- A tree joined with further ones is true where one of them is, if all of them have a verdict. -/
theorem evaluate_orAll (record : Record) {tree : Tree} {parts : List Tree}
    (h : parts = [] ∨ (tree.orAll parts).height ≤ Tree.maxDepth) :
    ctx.evaluate record (tree.orAll parts) =
      ((tree :: parts).mapM (ctx.evaluate record)).map fun verdicts => verdicts.any id := by
  rw [walk_orAll (ctx.evaluate record) (Connective.apply .or) (fun _ _ => evaluate_branch record) h]
  cases htree : ctx.evaluate record tree with
  | error failure =>
    rw [mapM_cons_of_error htree]
    rfl
  | ok passed =>
    rw [mapM_cons_of_ok htree]
    cases parts.mapM (ctx.evaluate record) with
    | error failure => rfl
    | ok verdicts => exact congrArg Except.ok (foldl_or_eq_any verdicts passed)

theorem validate_orAll {tree : Tree} {parts : List Tree}
    (h : parts = [] ∨ (tree.orAll parts).height ≤ Tree.maxDepth) :
    ctx.validate (tree.orAll parts) = ((tree :: parts).mapM ctx.validate).map fun _ => () := by
  rw [walk_orAll ctx.validate (fun _ _ => ()) (fun _ _ => validate_branch) h]
  cases htree : ctx.validate tree with
  | error defect =>
    rw [mapM_cons_of_error htree]
    rfl
  | ok =>
    rw [mapM_cons_of_ok htree]
    cases parts.mapM ctx.validate with
    | error defect => rfl
    | ok results => rfl

/-! ## Combinations -/

variable {parts : List (String × Tree)} {combination : Combination}

/-- A combination has the outcome of its list of parts: the first failure among them, or else
whether one of them is true. -/
theorem evaluate_ofParts (h : Combination.ofParts parts = .ok combination) (record : Record) :
    ctx.evaluate record combination.tree =
      (parts.mapM fun part => ctx.evaluate record part.2).map fun verdicts => verdicts.any id := by
  rcases Combination.exists_orAll_of_ofParts h with ⟨tree, rest, hparts, htree, hheight⟩
  rw [htree, evaluate_orAll record hheight, ← hparts, List.mapM_map]
  rfl

/-- A combination is valid when all of its parts are, and else has the first defect among them. -/
theorem validate_ofParts (h : Combination.ofParts parts = .ok combination) :
    ctx.validate combination.tree =
      (parts.mapM fun part => ctx.validate part.2).map fun _ => () := by
  rcases Combination.exists_orAll_of_ofParts h with ⟨tree, rest, hparts, htree, hheight⟩
  rw [htree, validate_orAll hheight, ← hparts, List.mapM_map]
  rfl

theorem leaves_ofParts (h : Combination.ofParts parts = .ok combination) :
    combination.tree.leaves = parts.flatMap fun part => part.2.leaves := by
  rcases Combination.exists_orAll_of_ofParts h with ⟨tree, rest, hparts, htree, _⟩
  have hleaves : (parts.map Prod.snd).flatMap Tree.leaves = (tree :: rest).flatMap Tree.leaves :=
    congrArg _ hparts
  rw [htree, Tree.leaves_orAll, ← List.flatMap_cons, ← hleaves, List.flatMap_map]

/-- A combination has a verdict when all of its parts have one, and is true when one of them is;
otherwise it fails as the first part that fails.  It is valid when all of its parts are, and
otherwise has the defect of the first part that has one.  Its leaves are those of the parts in
order. -/
theorem outcomes_of_ofParts (h : Combination.ofParts parts = .ok combination) (ctx : Context)
    (record : Record) :
    ((∃ passed, ctx.evaluate record combination.tree = .ok passed) ↔
      ∀ part ∈ parts, ∃ passed, ctx.evaluate record part.2 = .ok passed) ∧
    (∀ passed, ctx.evaluate record combination.tree = .ok passed →
      (passed = true ↔ ∃ part ∈ parts, ctx.evaluate record part.2 = .ok true)) ∧
    (∀ before part after failure, parts = before ++ part :: after →
      (∀ other ∈ before, ∃ passed, ctx.evaluate record other.2 = .ok passed) →
      ctx.evaluate record part.2 = .error failure →
      ctx.evaluate record combination.tree = .error failure) ∧
    (ctx.validate combination.tree = .ok () ↔ ∀ part ∈ parts, ctx.validate part.2 = .ok ()) ∧
    (∀ before part after defect, parts = before ++ part :: after →
      (∀ other ∈ before, ctx.validate other.2 = .ok ()) →
      ctx.validate part.2 = .error defect →
      ctx.validate combination.tree = .error defect) ∧
    combination.tree.leaves = parts.flatMap fun part => part.2.leaves := by
  have heval : ctx.evaluate record combination.tree = _ := evaluate_ofParts h record
  have hvalid : ctx.validate combination.tree = _ := validate_ofParts h
  refine ⟨?verdict, ?passed, ?failure, ?valid, ?defect, leaves_ofParts h⟩
  case verdict =>
    constructor
    · rintro ⟨passed, hpassed⟩
      rw [heval] at hpassed
      rcases exists_of_map hpassed with ⟨verdicts, hverdicts, _⟩
      exact (results_of_mapM_eq_ok hverdicts).1
    · intro hparts
      rcases exists_mapM_eq_ok hparts with ⟨verdicts, hverdicts⟩
      exact ⟨verdicts.any id, by rw [heval, hverdicts]; rfl⟩
  case passed =>
    intro passed hpassed
    rw [heval] at hpassed
    rcases exists_of_map hpassed with ⟨verdicts, hverdicts, rfl⟩
    rw [List.any_eq_true, ← (results_of_mapM_eq_ok hverdicts).2 true]
    simp
  case failure =>
    rintro before part after failure rfl hbefore hpart
    have herror := mapM_eq_error_of_first hbefore hpart after
    rw [heval, herror]
    rfl
  case valid =>
    constructor
    · intro hok part hpart
      rw [hvalid] at hok
      rcases exists_of_map hok with ⟨results, hresults, _⟩
      exact ((results_of_mapM_eq_ok hresults).1 part hpart).elim fun _ hpart => hpart
    · intro hparts
      rcases exists_mapM_eq_ok fun part hpart => ⟨(), hparts part hpart⟩ with ⟨results, hresults⟩
      rw [hvalid, hresults]
      rfl
  case defect =>
    rintro before part after defect rfl hbefore hpart
    have hvalidBefore : ∀ other ∈ before, ∃ u, ctx.validate other.2 = .ok u :=
      fun other hother => ⟨(), hbefore other hother⟩
    have herror := mapM_eq_error_of_first hvalidBefore hpart after
    rw [hvalid, herror]
    rfl

/-- A part that is true, one that lacks its data and one that does not fit the context: the second
one decides the verdict, the third one the validity.  The first two alone, with all data, are
true. -/
theorem outcomes_of_ofParts_three :
    let ctx : Context := ⟨.ofList [("age", .number), ("team", .string)], .empty⟩
    let young : Record := .ofList [("age", .string "20")]
    let blue : Record := .ofList [("age", .string "20"), ("team", .string "blue")]
    let adult : String × Tree := ("adult", .operand "age >= 18")
    let red : String × Tree :=
      ("red", .branch .and (.operand "team = 'red'") (.operand "age < 65"))
    let typo : String × Tree := ("typo", .operand "agee > 1")
    let pair : Tree := .branch .or adult.2 red.2
    let triple : Tree := .branch .or pair typo.2
    Combination.ofParts [adult, red] = .ok ⟨"Combined: adult + red", pair⟩ ∧
      Combination.ofParts [adult, red, typo] = .ok ⟨"Combined: adult + red + typo", triple⟩ ∧
      (∃ passed, ctx.evaluate blue pair = .ok passed ∧ passed = true) ∧
      ctx.validate pair = .ok () ∧
      ctx.evaluate young triple = .error (.missingData "team") ∧
      ctx.validate triple = .error (.unknownAttribute "agee") ∧
      triple.leaves = ["age >= 18", "team = 'red'", "age < 65", "agee > 1"] := by
  intro ctx young blue adult red typo pair triple
  have hpair : Combination.ofParts [adult, red] = .ok ⟨"Combined: adult + red", pair⟩ := by
    decide +kernel
  have htriple :
      Combination.ofParts [adult, red, typo] = .ok ⟨"Combined: adult + red + typo", triple⟩ := by
    decide +kernel
  rcases outcomes_of_ofParts hpair ctx blue with ⟨hverdict, hpassed, _, hvalid, _, _⟩
  rcases outcomes_of_ofParts htriple ctx young with ⟨_, _, hfailure, _, hdefect, hleaves⟩
  refine ⟨hpair, htriple, ?_, ?_, ?_, ?_, hleaves⟩
  · have hadult : ctx.evaluate blue adult.2 = .ok true := by decide +kernel
    have hred : ctx.evaluate blue red.2 = .ok false := by decide +kernel
    have hboth : ∀ part ∈ [adult, red], ∃ passed, ctx.evaluate blue part.2 = .ok passed := by
      simp [hadult, hred]
    rcases hverdict.2 hboth with ⟨passed, hok⟩
    exact ⟨passed, hok, (hpassed passed hok).2 ⟨adult, List.mem_cons_self, hadult⟩⟩
  · exact hvalid.2 (by decide +kernel)
  · have hadult : ctx.evaluate young adult.2 = .ok true := by decide +kernel
    refine hfailure [adult] red [typo] _ rfl ?_ (by decide +kernel)
    simp [hadult]
  · exact hdefect [adult, red] typo [] _ rfl (by decide +kernel) (by decide +kernel)

end Context
end Eligibility
