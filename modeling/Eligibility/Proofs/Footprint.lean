import Mathlib.Control.Monad.Basic
import Eligibility.Proofs.Evaluation

/-!
# Footprint — what the outcome of a tree depends on

A tree mentions attributes, which its comparisons name, and predicates, which its calls name.  Its
outcome depends on nothing else: two contexts with a record each, in which what the tree mentions is
declared alike and answers alike, cannot be told apart by the tree, not even by a failure.

* `Tree.predicates` — the predicates that the calls of a tree name; `Tree.attributes` is its like
  for comparisons;
* `Tree.DeclaredAlike`, `Tree.AnsweredAlike` — agreement on what a tree mentions;
* `Context.checkAt_congr`, `Context.evaluateAt_congr` — both walks look at the operands only;
* `Table.Extends` — a table with more names in it;
* `Context.Extends.declaredAlike`, `Context.Extends.answeredAlike` — what has passed once mentions
  nothing that an extension could add;
* `Context.outcomes_of_alike` — all of it together.
-/

namespace Eligibility

/-- The predicate that a condition calls, if it is a call. -/
def Condition.predicate? (condition : String) : Option String :=
  match parse? condition with
  | some (.call name _) => some name
  | _ => none

namespace Tree

/-- The predicates that the calls of a tree name, from left to right. -/
def predicates (tree : Tree) : List String :=
  tree.leaves.filterMap Condition.predicate?

/-- Two contexts declare alike what a tree mentions: its attributes have the same types, if any, and
the same of its predicates are known. -/
structure DeclaredAlike (tree : Tree) (ctx ctx' : Context) : Prop where
  types : ∀ attr ∈ tree.attributes, ctx.schema.get? attr = ctx'.schema.get? attr
  known : ∀ name ∈ tree.predicates,
    ctx.predicates.contains name = ctx'.predicates.contains name

/-- Two contexts, each with a record, answer alike for what a tree mentions: its attributes have the
same types and values, if any, and its predicates are known alike, with the same verdicts. -/
structure AnsweredAlike (tree : Tree) (ctx : Context) (record : Record) (ctx' : Context)
    (record' : Record) : Prop where
  types : ∀ attr ∈ tree.attributes, ctx.schema.get? attr = ctx'.schema.get? attr
  values : ∀ attr ∈ tree.attributes, record.get? attr = record'.get? attr
  verdicts : ∀ name ∈ tree.predicates,
    (ctx.predicates.get? name).map (fun test => test record) =
      (ctx'.predicates.get? name).map fun test => test record'

variable {tree : Tree} {condition attr name : String}

theorem mem_attributes {operator literal : String} (hleaf : condition ∈ tree.leaves)
    (h : Condition.parse? condition = some (.compare attr operator literal)) :
    attr ∈ tree.attributes :=
  List.mem_filterMap.2 ⟨condition, hleaf, by rw [Condition.attribute?, h]⟩

theorem exists_compare_of_mem_attributes (h : attr ∈ tree.attributes) :
    ∃ condition ∈ tree.leaves, ∃ operator literal,
      Condition.parse? condition = some (.compare attr operator literal) := by
  rcases List.mem_filterMap.1 h with ⟨condition, hleaf, hattr⟩
  unfold Condition.attribute? at hattr
  split at hattr
  · next operator literal hparse =>
    cases hattr
    exact ⟨condition, hleaf, operator, literal, hparse⟩
  · cases hattr

theorem mem_predicates {arguments : String} (hleaf : condition ∈ tree.leaves)
    (h : Condition.parse? condition = some (.call name arguments)) : name ∈ tree.predicates :=
  List.mem_filterMap.2 ⟨condition, hleaf, by rw [Condition.predicate?, h]⟩

theorem exists_call_of_mem_predicates (h : name ∈ tree.predicates) :
    ∃ condition ∈ tree.leaves, ∃ arguments,
      Condition.parse? condition = some (.call name arguments) := by
  rcases List.mem_filterMap.1 h with ⟨condition, hleaf, hname⟩
  unfold Condition.predicate? at hname
  split at hname
  · next arguments hparse =>
    cases hname
    exact ⟨condition, hleaf, arguments, hparse⟩
  · cases hname

theorem AnsweredAlike.declaredAlike {ctx ctx' : Context} {record record' : Record}
    (h : tree.AnsweredAlike ctx record ctx' record') : tree.DeclaredAlike ctx ctx' where
  types := h.types
  known := by
    intro name hname
    have hisSome := congrArg Option.isSome (h.verdicts name hname)
    rwa [Option.isSome_map, Option.isSome_map] at hisSome

end Tree

namespace Context

variable {ctx ctx' : Context} {record record' : Record} {tree : Tree}

/-! ## Both walks look at the operands only -/

theorem checkAt_congr
    (h : ∀ condition ∈ tree.leaves, ctx.checkCondition condition = ctx'.checkCondition condition)
    (level : Nat) : ctx.checkAt level tree = ctx'.checkAt level tree := by
  induction tree generalizing level with
  | operand condition => exact h condition (by simp [Tree.leaves])
  | branch op left right ihLeft ihRight =>
    have hleft := ihLeft fun condition hc => h condition (by simp [Tree.leaves, hc])
    have hright := ihRight fun condition hc => h condition (by simp [Tree.leaves, hc])
    rw [checkAt, checkAt, hleft, hright]

theorem evaluateAt_congr
    (h : ∀ condition ∈ tree.leaves,
      ctx.evaluateCondition record condition = ctx'.evaluateCondition record' condition)
    (level : Nat) : ctx.evaluateAt record level tree = ctx'.evaluateAt record' level tree := by
  induction tree generalizing level with
  | operand condition => exact h condition (by simp [Tree.leaves])
  | branch op left right ihLeft ihRight =>
    have hleft := ihLeft fun condition hc => h condition (by simp [Tree.leaves, hc])
    have hright := ihRight fun condition hc => h condition (by simp [Tree.leaves, hc])
    rw [evaluateAt, evaluateAt, hleft, hright]

/-! ## Operands look at what they name only -/

theorem checkCondition_of_declaredAlike (h : tree.DeclaredAlike ctx ctx') {condition : String}
    (hleaf : condition ∈ tree.leaves) :
    ctx.checkCondition condition = ctx'.checkCondition condition := by
  unfold checkCondition
  cases hparse : Condition.parse? condition with
  | none => rfl
  | some parsed =>
    cases parsed with
    | call name arguments => simp only [h.known name (Tree.mem_predicates hleaf hparse)]
    | compare attr operator literal => simp only [h.types attr (Tree.mem_attributes hleaf hparse)]

theorem evaluateCondition_of_answeredAlike (h : tree.AnsweredAlike ctx record ctx' record')
    {condition : String} (hleaf : condition ∈ tree.leaves) :
    ctx.evaluateCondition record condition = ctx'.evaluateCondition record' condition := by
  unfold evaluateCondition
  cases hparse : Condition.parse? condition with
  | none => rfl
  | some parsed =>
    cases parsed with
    | call name arguments =>
      have hverdict := h.verdicts name (Tree.mem_predicates hleaf hparse)
      -- the predicates may differ, as long as they say the same here
      cases htest : ctx.predicates.get? name with
      | none =>
        rw [htest, Option.map_none, eq_comm, Option.map_eq_none_iff] at hverdict
        simp only [htest, hverdict]
      | some test =>
        rw [htest, Option.map_some, eq_comm, Option.map_eq_some_iff] at hverdict
        rcases hverdict with ⟨test', htest', hsame⟩
        simp only [htest, htest', hsame]
    | compare attr operator literal =>
      have hattr := Tree.mem_attributes hleaf hparse
      simp only [h.types attr hattr, h.values attr hattr]

theorem validate_of_declaredAlike (h : tree.DeclaredAlike ctx ctx') :
    ctx.validate tree = ctx'.validate tree :=
  checkAt_congr (fun _ hleaf => checkCondition_of_declaredAlike h hleaf) 0

theorem evaluate_of_answeredAlike (h : tree.AnsweredAlike ctx record ctx' record') :
    ctx.evaluate record tree = ctx'.evaluate record' tree :=
  evaluateAt_congr (fun _ hleaf => evaluateCondition_of_answeredAlike h hleaf) 0

end Context

/-! ## Extensions -/

/-- The table answers every name of the other one as that does, and maybe further names. -/
def Table.Extends {α : Type} (t' t : Table α) : Prop :=
  ∀ name value, t.get? name = some value → t'.get? name = some value

/-- The context has what the other one has, and maybe further attributes and predicates. -/
structure Context.Extends (ctx' ctx : Context) : Prop where
  schema : ctx'.schema.Extends ctx.schema
  predicates : ctx'.predicates.Extends ctx.predicates

namespace Table

variable {α : Type} {t t' : Table α} {name : String}

theorem Extends.get?_eq (h : t'.Extends t) (hname : t.contains name = true) :
    t.get? name = t'.get? name := by
  rcases Option.isSome_iff_exists.1 hname with ⟨value, hvalue⟩
  rw [hvalue, h name value hvalue]

theorem Extends.contains_eq (h : t'.Extends t) (hname : t.contains name = true) :
    t.contains name = t'.contains name :=
  congrArg Option.isSome (h.get?_eq hname)

/-- A new name changes no answer that there was. -/
theorem extends_insert (h : t.contains name = false) (value : α) :
    (t.insert name value).Extends t := by
  intro other value' hvalue'
  have hne : other ≠ name := by
    rintro rfl
    rw [contains, hvalue'] at h
    cases h
  rw [get?_insert_of_ne t value hne, hvalue']

end Table

namespace Context

variable {ctx ctx' : Context} {record record' : Record} {tree : Tree}

/-- A valid tree mentions what the context declares. -/
theorem declared_of_validate (h : ctx.validate tree = .ok ()) :
    (∀ attr ∈ tree.attributes, ctx.schema.contains attr = true) ∧
      ∀ name ∈ tree.predicates, ctx.predicates.contains name = true := by
  have hleaves := (validate_eq_ok_iff.1 h).2
  refine ⟨?_, ?_⟩
  · intro attr hattr
    rcases Tree.exists_compare_of_mem_attributes hattr with ⟨condition, hleaf, _, _, hparse⟩
    rcases checkCondition_eq_ok_iff.1 (hleaves condition hleaf) with
      ⟨_, _, hcall, _⟩ | ⟨_, _, _, type, _, hcompare, htype, _⟩
    · rw [hparse] at hcall
      cases hcall
    · rw [hparse, Option.some.injEq, Condition.compare.injEq] at hcompare
      rw [Table.contains, hcompare.1, htype, Option.isSome_some]
  · intro name hname
    rcases Tree.exists_call_of_mem_predicates hname with ⟨condition, hleaf, _, hparse⟩
    rcases checkCondition_eq_ok_iff.1 (hleaves condition hleaf) with
      ⟨_, _, hcall, hknown⟩ | ⟨_, _, _, _, _, hcompare, _⟩
    · rw [hparse, Option.some.injEq, Condition.call.injEq] at hcall
      rwa [hcall.1]
    · rw [hparse] at hcompare
      cases hcompare

/-- A tree with a verdict mentions what the context declares and compares what the record has. -/
theorem declared_of_evaluate {passed : Bool} (h : ctx.evaluate record tree = .ok passed) :
    (∀ attr ∈ tree.attributes,
      ctx.schema.contains attr = true ∧ record.contains attr = true) ∧
      ∀ name ∈ tree.predicates, ctx.predicates.contains name = true := by
  have hleaves := (evaluate_eq_ok_iff.1 h).2.2
  refine ⟨?_, ?_⟩
  · intro attr hattr
    rcases Tree.exists_compare_of_mem_attributes hattr with ⟨condition, hleaf, _, _, hparse⟩
    have hnone := hleaves condition hleaf
    -- a comparison that does not fail has found the type and the value
    cases htype : ctx.schema.get? attr with
    | none => simp [failure?, evaluateCondition, hparse, htype] at hnone
    | some type =>
      cases hactual : record.get? attr with
      | none => simp [failure?, evaluateCondition, hparse, htype, hactual] at hnone
      | some actual => simp [Table.contains, htype, hactual]
  · intro name hname
    rcases Tree.exists_call_of_mem_predicates hname with ⟨condition, hleaf, _, hparse⟩
    have hnone := hleaves condition hleaf
    cases htest : ctx.predicates.get? name with
    | none => simp [failure?, evaluateCondition, hparse, htest] at hnone
    | some test => simp [Table.contains, htest]

theorem Extends.declaredAlike (hext : ctx'.Extends ctx)
    (hattributes : ∀ attr ∈ tree.attributes, ctx.schema.contains attr = true)
    (hpredicates : ∀ name ∈ tree.predicates, ctx.predicates.contains name = true) :
    tree.DeclaredAlike ctx ctx' where
  types := fun attr hattr => hext.schema.get?_eq (hattributes attr hattr)
  known := fun name hname => hext.predicates.contains_eq (hpredicates name hname)

/-- Predicates may look at the whole record, so that only a tree without calls stands for any
extension of it. -/
theorem Extends.answeredAlike (hext : ctx'.Extends ctx)
    (hattributes : ∀ attr ∈ tree.attributes, ctx.schema.contains attr = true)
    (hpredicates : ∀ name ∈ tree.predicates, ctx.predicates.contains name = true)
    (hvalues : ∀ attr ∈ tree.attributes, record.get? attr = record'.get? attr)
    (hcalls : tree.predicates = [] ∨ record' = record) :
    tree.AnsweredAlike ctx record ctx' record' where
  types := (hext.declaredAlike hattributes hpredicates).types
  values := hvalues
  verdicts := by
    intro name hname
    rcases hcalls with hnone | rfl
    · rw [hnone] at hname
      cases hname
    · rw [hext.predicates.get?_eq (hpredicates name hname)]

/-- The outcome of a tree depends on what the tree mentions.  Contexts and records that answer alike
for it give the same verdict or the same failure, and contexts that declare it alike give the same
answer to its validation.  Hence a valid tree keeps both outcomes when the context is extended, and
a tree with a verdict keeps both when the context and, unless the tree calls a predicate, the record
are extended. -/
theorem outcomes_of_alike (ctx ctx' : Context) (record record' : Record) (tree : Tree) :
    (tree.AnsweredAlike ctx record ctx' record' →
      ctx.evaluate record tree = ctx'.evaluate record' tree ∧
        ctx.validate tree = ctx'.validate tree) ∧
    (tree.DeclaredAlike ctx ctx' → ctx.validate tree = ctx'.validate tree) ∧
    (ctx'.Extends ctx → ctx.validate tree = .ok () →
      ctx'.validate tree = .ok () ∧ ctx'.evaluate record tree = ctx.evaluate record tree) ∧
    (ctx'.Extends ctx → record'.Extends record → tree.predicates = [] ∨ record' = record →
      ∀ passed, ctx.evaluate record tree = .ok passed →
        ctx'.evaluate record' tree = .ok passed ∧ ctx'.validate tree = ctx.validate tree) := by
  refine ⟨?answered, validate_of_declaredAlike, ?valid, ?evaluated⟩
  case answered =>
    intro h
    exact ⟨evaluate_of_answeredAlike h, validate_of_declaredAlike h.declaredAlike⟩
  case valid =>
    intro hext hvalid
    rcases declared_of_validate hvalid with ⟨hattributes, hpredicates⟩
    have halike : tree.AnsweredAlike ctx record ctx' record :=
      hext.answeredAlike hattributes hpredicates (fun _ _ => rfl) (.inr rfl)
    refine ⟨?_, (evaluate_of_answeredAlike halike).symm⟩
    rw [← validate_of_declaredAlike halike.declaredAlike, hvalid]
  case evaluated =>
    intro hext hrecord hcalls passed heval
    rcases declared_of_evaluate heval with ⟨hattributes, hpredicates⟩
    have halike : tree.AnsweredAlike ctx record ctx' record' :=
      hext.answeredAlike (fun attr hattr => (hattributes attr hattr).1) hpredicates
        (fun attr hattr => hrecord.get?_eq (hattributes attr hattr).2) hcalls
    refine ⟨?_, (validate_of_declaredAlike halike.declaredAlike).symm⟩
    rw [← evaluate_of_answeredAlike halike, heval]

/-- A failure that is the same for contexts and records that share nothing but what the tree
mentions, where the called predicates are different tests; and a verdict that outlasts an attribute,
a predicate and a value that are new. -/
theorem outcomes_of_alike_disjoint :
    let ctx : Context := ⟨.ofList [("age", .number), ("team", .string), ("bonus", .number)],
      .ofList [("is_vip", .has "bonus")]⟩
    let ctx' : Context := ⟨.ofList [("bonus", .string), ("team", .string), ("age", .number)],
      .ofList [("is_new", .always false), ("is_vip", .always true)]⟩
    let record : Record := .ofList [("age", .string " 20 "), ("bonus", .string "none")]
    let record' : Record := .ofList [("city", .string "Rome"), ("age", .string " 20 ")]
    let tree : Tree := .branch .and (.operand "age >= 18")
      (.branch .or (.operand "is_vip(gold)") (.operand "team = 'red'"))
    let plain : Tree := .branch .or (.operand "age > 30") (.operand "bonus != 1")
    let wider : Context :=
      ⟨ctx.schema.insert "city" .string, ctx.predicates.insert "is_new" (.always true)⟩
    (tree.AnsweredAlike ctx record ctx' record' ∧
      ctx.evaluate record tree = .error (.missingData "team") ∧
      ctx'.evaluate record' tree = .error (.missingData "team") ∧
      ctx.validate tree = .ok () ∧ ctx'.validate tree = .ok ()) ∧
    (ctx.evaluate record plain = .ok true ∧ ctx.validate plain = .ok () ∧
      wider.evaluate (record.insert "team" (.string "red")) plain = .ok true ∧
      wider.validate plain = .ok ()) := by
  intro ctx ctx' record record' tree plain wider
  have halike : tree.AnsweredAlike ctx record ctx' record' :=
    ⟨by decide +kernel, by decide +kernel, by decide +kernel⟩
  have hfailure : ctx.evaluate record tree = .error (.missingData "team") := by decide +kernel
  have hvalid : ctx.validate tree = .ok () := by decide +kernel
  have hsame := (outcomes_of_alike ctx ctx' record record' tree).1 halike
  have hwider : wider.Extends ctx :=
    ⟨Table.extends_insert (by decide +kernel) _, Table.extends_insert (by decide +kernel) _⟩
  have hlonger : (record.insert "team" (.string "red")).Extends record :=
    Table.extends_insert (by decide +kernel) _
  have hverdict : ctx.evaluate record plain = .ok true := by decide +kernel
  have hplain : ctx.validate plain = .ok () := by decide +kernel
  have hkept := (outcomes_of_alike ctx wider record (record.insert "team" (.string "red"))
    plain).2.2.2 hwider hlonger (.inl (by decide +kernel)) true hverdict
  exact ⟨⟨halike, hfailure, hsame.1.symm.trans hfailure, hvalid, hsame.2.symm.trans hvalid⟩,
    hverdict, hplain, hkept.1, hkept.2.trans hplain⟩

end Context
end Eligibility
