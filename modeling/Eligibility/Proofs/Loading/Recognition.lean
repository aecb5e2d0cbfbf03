import Eligibility.Proofs.Loading.RoundTrip
import Eligibility.Proofs.Snapshot.Payload
import Eligibility.Proofs.Tree.Height

/-!
# Recognition — which stored structures are trees

A stored structure may have any texts as kind and value, and any children.  It is a tree when each of
its nodes is an operand without children or a branch with a keyword and both children, and when it
keeps the limit of depth; the tree then has this very structure as its stored form.  A visit that
meets every node before its children, and the left child first, meets the fault that is reported
before any other.

* `Stored.Place`, `Stored.places` — the nodes of a structure in the order of the visit;
* `Stored.IsProper` — the nodes that a tree may have;
* `Stored.faultAt?` — what is wrong with one node, whatever stands below it;
* `Stored.exists_toStored_iff` — structures of proper nodes are stored forms;
* `Stored.findSome?_fault?` — the walk stops at the first fault of the visit;
* `Stored.IsDocument.ofJsonText_text` — the JSON texts of structures, a missing child left out or
  written as null;
* `Stored.outcome_of_places` — the outcome of loading.
-/

namespace Eligibility

theorem Connective.exists_ofKeyword?_iff {text : String} :
    (∃ op, ofKeyword? text = some op) ↔ text = "AND" ∨ text = "OR" := by
  constructor
  · rintro ⟨op, hop⟩
    rw [eq_keyword_of_ofKeyword? hop]
    cases op with
    | and => exact .inl rfl
    | or => exact .inr rfl
  · rintro (rfl | rfl)
    · exact ⟨.and, ofKeyword?_keyword .and⟩
    · exact ⟨.or, ofKeyword?_keyword .or⟩

namespace Stored

/-! ## Nodes and places -/

/-- A node of a structure, with what hangs on it, and the number of nodes above it. -/
structure Place where
  level : Nat
  root : Stored

mutual

/-- The places of a structure below `level` nodes: every node before its children, and everything on
the left before anything on the right. -/
def placesAt (level : Nat) : Stored → List Place
  | node kind value left right =>
    ⟨level, node kind value left right⟩ ::
      (childPlacesAt (level + 1) left ++ childPlacesAt (level + 1) right)

def childPlacesAt (level : Nat) : Option Stored → List Place
  | none => []
  | some child => child.placesAt level

end

def places (stored : Stored) : List Place :=
  stored.placesAt 0

/-- A node that a tree may have. -/
inductive IsProper : Stored → Prop where
  | operand (condition : String) : IsProper (node "operand" condition none none)
  | branch {keyword : String} (h : keyword = "AND" ∨ keyword = "OR") (left right : Stored) :
      IsProper (node "operator" keyword (some left) (some right))

/-- What is wrong with a node below `level` others.  A branch is checked for its keyword, then for
its children, then for its level. -/
def faultAt? (level : Nat) : Stored → Option Tree.Defect
  | node kind value left right =>
    if kind = "operand" then
      if left.isSome || right.isSome then some (.operandWithChildren value) else none
    else if kind = "operator" then
      if ¬ (value = "AND" ∨ value = "OR") then some (.unknownConnective value)
      else if left.isNone || right.isNone then some (.missingChild value)
      else if Tree.maxDepth ≤ level then some .tooDeep
      else none
    else some (.unknownKind kind)

def Place.fault? (place : Place) : Option Tree.Defect :=
  place.root.faultAt? place.level

/-! ## Structures of proper nodes -/

theorem isProper_of_mem_placesAt (tree : Tree) {level : Nat} {place : Place}
    (h : place ∈ tree.toStored.placesAt level) : place.root.IsProper := by
  induction tree generalizing level with
  | operand condition =>
    simp only [Tree.toStored, placesAt, childPlacesAt, List.append_nil, List.mem_singleton] at h
    subst h
    exact .operand condition
  | branch op left right ihLeft ihRight =>
    simp only [Tree.toStored, placesAt, childPlacesAt, List.mem_cons, List.mem_append] at h
    rcases h with rfl | hleft | hright
    · have hkeyword := Connective.exists_ofKeyword?_iff.1 ⟨op, op.ofKeyword?_keyword⟩
      exact .branch hkeyword left.toStored right.toStored
    · exact ihLeft hleft
    · exact ihRight hright

theorem exists_toStored {stored : Stored} {level : Nat}
    (h : ∀ place ∈ stored.placesAt level, place.root.IsProper) :
    ∃ tree : Tree, tree.toStored = stored := by
  induction stored using childwise generalizing level with
  | node kind value left right ihLeft ihRight =>
    simp only [placesAt, List.forall_mem_cons, List.forall_mem_append] at h
    rcases h with ⟨hnode, hleft, hright⟩
    cases hnode with
    | operand condition => exact ⟨.operand value, rfl⟩
    | branch hkeyword left right =>
      rcases Connective.exists_ofKeyword?_iff.2 hkeyword with ⟨op, hop⟩
      rcases ihLeft left rfl hleft with ⟨leftTree, rfl⟩
      rcases ihRight right rfl hright with ⟨rightTree, rfl⟩
      rw [Connective.eq_keyword_of_ofKeyword? hop]
      exact ⟨.branch op leftTree rightTree, rfl⟩

/-- The stored forms of trees are the structures of proper nodes. -/
theorem exists_toStored_iff {stored : Stored} :
    (∃ tree : Tree, tree.toStored = stored) ↔ ∀ place ∈ stored.places, place.root.IsProper := by
  constructor
  · rintro ⟨tree, rfl⟩ place hplace
    exact isProper_of_mem_placesAt tree hplace
  · exact exists_toStored

/-- A structure is loaded as the tree whose stored form it is, if that tree keeps the limit. -/
theorem toTree_eq_ok_iff {stored : Stored} {tree : Tree} :
    stored.toTree = .ok tree ↔ tree.toStored = stored ∧ stored.height ≤ Tree.maxDepth := by
  constructor
  · intro h
    have hstored : stored = tree.toStored := eq_toStored_of_toTreeAt h
    have hheight := height_le_of_toTree h
    rw [hstored, height_toStored]
    exact ⟨rfl, hheight⟩
  · rintro ⟨rfl, hheight⟩
    rw [height_toStored] at hheight
    rw [tree.toTree_toStored, if_pos hheight]

/-! ## The first fault -/

theorem findSome?_placesAt_of_faultAt? {level : Nat} {stored : Stored} {defect : Tree.Defect}
    (h : stored.faultAt? level = some defect) :
    (stored.placesAt level).findSome? Place.fault? = some defect := by
  cases stored with
  | node kind value left right => simp [placesAt, Place.fault?, h]

/-- A branch without a fault of its own leaves the question to its left side, then to its right
side. -/
theorem findSome?_placesAt_branch {level : Nat} {keyword : String}
    (hkeyword : keyword = "AND" ∨ keyword = "OR") (hlevel : ¬ Tree.maxDepth ≤ level)
    (left right : Stored) :
    ((node branchKind keyword (some left) (some right)).placesAt level).findSome? Place.fault? =
      ((left.placesAt (level + 1)).findSome? Place.fault?).or
        ((right.placesAt (level + 1)).findSome? Place.fault?) := by
  have hfault : faultAt? level (node branchKind keyword (some left) (some right)) = none := by
    simp [faultAt?, branchKind, hkeyword, hlevel]
  simp [placesAt, childPlacesAt, Place.fault?, hfault]

/-- The walk over a structure fails with the first fault of its places. -/
theorem findSome?_fault? (level : Nat) (stored : Stored) :
    (stored.placesAt level).findSome? Place.fault? =
      match stored.toTreeAt level with
      | .error defect => some defect
      | .ok _ => none := by
  fun_induction toTreeAt level stored with
  | case1 level value =>
    simp [placesAt, childPlacesAt, Place.fault?, faultAt?, operandKind]
  | case2 level value left right hchildren =>
    refine findSome?_placesAt_of_faultAt? ?_
    cases left <;> cases right <;> simp_all [faultAt?, operandKind]
  | case3 level value left right hop hkinds =>
    have hvalue : ¬ (value = "AND" ∨ value = "OR") := by
      simp [← Connective.exists_ofKeyword?_iff, hop]
    refine findSome?_placesAt_of_faultAt? ?_
    simp [faultAt?, branchKind, hvalue]
  | case4 level value op hop left right hdeep hkinds =>
    have hvalue := Connective.exists_ofKeyword?_iff.1 ⟨op, hop⟩
    refine findSome?_placesAt_of_faultAt? ?_
    simp [faultAt?, branchKind, hvalue, hdeep]
  | case5 level value op hop left right hlevel defect hleft hkinds ihLeft =>
    have hvalue := Connective.exists_ofKeyword?_iff.1 ⟨op, hop⟩
    rw [hleft] at ihLeft
    rw [findSome?_placesAt_branch hvalue hlevel, ihLeft]
    rfl
  | case6 level value op hop left right hlevel leftTree hleft defect hright hkinds ihLeft ihRight =>
    have hvalue := Connective.exists_ofKeyword?_iff.1 ⟨op, hop⟩
    rw [hleft] at ihLeft
    rw [hright] at ihRight
    rw [findSome?_placesAt_branch hvalue hlevel, ihLeft, ihRight]
    rfl
  | case7 level value op hop left right hlevel leftTree hleft rightTree hright hkinds ihLeft
      ihRight =>
    have hvalue := Connective.exists_ofKeyword?_iff.1 ⟨op, hop⟩
    rw [hleft] at ihLeft
    rw [hright] at ihRight
    rw [findSome?_placesAt_branch hvalue hlevel, ihLeft, ihRight]
    rfl
  | case8 level value left right op hop hchildren hkinds =>
    have hvalue := Connective.exists_ofKeyword?_iff.1 ⟨op, hop⟩
    refine findSome?_placesAt_of_faultAt? ?_
    cases left <;> cases right <;> simp_all [faultAt?, branchKind]
  | case9 level kind value left right hoperand hbranch =>
    refine findSome?_placesAt_of_faultAt? ?_
    simp_all [faultAt?, operandKind, branchKind]

theorem toTree_eq_error_iff {stored : Stored} {defect : Tree.Defect} :
    stored.toTree = .error defect ↔ stored.places.findSome? Place.fault? = some defect := by
  rw [places, findSome?_fault?, toTree]
  cases stored.toTreeAt 0 with
  | error defect' => simp
  | ok tree => simp

/-! ## Documents -/

variable {stored : Stored} {json : Json}

/-- Loading the text of a document is loading the structure, once the text is taken apart. -/
theorem IsDocument.ofJsonText_text (h : stored.IsDocument json) :
    Tree.ofJsonText json.text =
      if stored.height < Json.maxNesting then stored.toTree.mapError .defect
      else .error .malformed := by
  rw [Tree.ofJsonText, Loading.load_text _ h.exists_writtenAs, Loading.tree, Loading.treeAt,
    h.stored_eq 0, Nat.zero_add]
  by_cases hnesting : stored.height < Json.maxNesting
  · simp only [hnesting, if_true]
    cases stored.toTree with
    | error defect => rfl
    | ok tree => rfl
  · simp only [hnesting, if_false]

/-! ## The outcome -/

/-- A stored structure of any shape is loaded just when all its nodes are proper and it keeps the
limit of depth, and then it is the stored form of what is loaded.  Otherwise the error is the fault
of the first place that has one, all places before it being without a fault.  The JSON texts of the
structure, a missing child left out or null, are loaded in the same way unless they are nested too
deep to be taken apart, and so are its bytes, whatever stands behind them. -/
theorem outcome_of_places (stored : Stored) :
    ((∃ tree, stored.toTree = .ok tree) ↔
      (∀ place ∈ stored.places, place.root.IsProper) ∧ stored.height ≤ Tree.maxDepth) ∧
    (∀ tree, stored.toTree = .ok tree → tree.toStored = stored ∧ tree.depth = stored.height) ∧
    (∀ defect, stored.toTree = .error defect ↔
      ∃ before place after, stored.places = before ++ place :: after ∧
        (∀ other ∈ before, other.fault? = none) ∧ place.fault? = some defect) ∧
    (∀ json, stored.IsDocument json → Tree.ofJsonText json.text =
      if stored.height < Json.maxNesting then stored.toTree.mapError .defect
      else .error .malformed) ∧
    ((Snapshot.Payload.node stored).length < 2 ^ 64 → ∀ rest,
      Snapshot.Payload.readTree (Snapshot.Payload.node stored ++ rest) =
        match stored.toTree with
        | .error defect => .error (.defect defect)
        | .ok tree => .ok (tree, rest)) := by
  refine ⟨?accepted, ?kept, ?refused, fun json h => h.ofJsonText_text,
    Snapshot.Payload.readTree_stored stored⟩
  case accepted =>
    rw [← exists_toStored_iff]
    simp only [toTree_eq_ok_iff, exists_and_right]
  case kept =>
    intro tree h
    rcases toTree_eq_ok_iff.1 h with ⟨rfl, _⟩
    exact ⟨rfl, by rw [Tree.depth_eq_height, height_toStored]⟩
  case refused =>
    intro defect
    rw [toTree_eq_error_iff, List.findSome?_eq_some_iff]
    constructor
    · rintro ⟨before, place, after, hplaces, hfault, hbefore⟩
      exact ⟨before, place, after, hplaces, hbefore, hfault⟩
    · rintro ⟨before, place, after, hplaces, hbefore, hfault⟩
      exact ⟨before, place, after, hplaces, hfault, hbefore⟩

/-- A tree with one child null and the others left out, and a structure with faults on both sides, of
which the keyword on the left comes before all others. -/
theorem outcome_of_places_faults :
    let leaf : String → Stored := fun condition => .node "operand" condition none none
    let sound : Stored := .node "operator" "AND" (some (leaf "a = 1")) (some (leaf ""))
    let json : Json := .ofFields "operator" "AND"
      (some (.ofFields "operand" "a = 1" none (some .null)))
      (some (.ofFields "operand" "" none none))
    let left : Stored := .node "operator" "XOR" none (some (.node "leaf" "" none none))
    let right : Stored := .node "operand" "b" (some (leaf "c")) none
    let faulty : Stored := .node "operator" "OR" (some left) (some right)
    (∃ tree, sound.toTree = .ok tree ∧ tree.toStored = sound ∧
        Tree.ofJsonText json.text = .ok tree ∧
        Snapshot.Payload.readTree (Snapshot.Payload.node sound) = .ok (tree, [])) ∧
      faulty.toTree = .error (.unknownConnective "XOR") := by
  intro leaf sound json left right faulty
  rcases outcome_of_places sound with ⟨haccepted, hkept, _, hdocuments, hbytes⟩
  have hproper : ∀ place ∈ sound.places, place.root.IsProper := by
    intro place hplace
    simp only [sound, leaf, places, placesAt, childPlacesAt, List.append_nil, List.cons_append,
      List.nil_append, List.mem_cons, List.not_mem_nil, or_false] at hplace
    rcases hplace with rfl | rfl | rfl
    · exact .branch (.inl rfl) _ _
    · exact .operand _
    · exact .operand _
  rcases haccepted.2 ⟨hproper, by decide⟩ with ⟨tree, htree⟩
  have hjson : sound.IsDocument json :=
    .node (.child (.node .absent .null)) (.child (.node .absent .absent))
  have hload := hdocuments json hjson
  have hread := hbytes (by decide +kernel) []
  rw [List.append_nil, htree] at hread
  refine ⟨⟨tree, htree, (hkept tree htree).1, ?_, hread⟩, ?_⟩
  · rw [hload, if_pos (by decide), htree]
    rfl
  · refine ((outcome_of_places faulty).2.2.1 _).2 ?_
    refine ⟨[⟨0, faulty⟩], ⟨1, left⟩, _, rfl, ?_, rfl⟩
    intro other hother
    rw [List.mem_singleton.1 hother]
    rfl

end Stored
end Eligibility
