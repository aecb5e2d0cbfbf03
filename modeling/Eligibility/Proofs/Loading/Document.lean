import Eligibility.Loading.Tree
import Eligibility.Proofs.Json.RoundTrip
import Eligibility.Proofs.Tree.Stored

/-!
# Document — the documents of stored structures

A stored structure of any shape has documents: an object for each of its nodes, where the field of a
missing child is left out or null.  All of them have a text and are read as the structure, unless
they are nested too deep to be taken apart; what the structure stands for makes no difference yet.

* `Json.ofFields`, `Loading.stored_ofFields` — the object of a node, read as its children are;
* `Stored.IsDocument` — the documents of a structure;
* `Stored.IsDocument.exists_writtenAs`, `Stored.IsDocument.stored_eq` — their texts, and what they
  are read as.
-/

namespace Eligibility

/-! ## The object of a node -/

namespace Json

/-- A member of the given name before others, if there is a document for it. -/
def optionalMember (name : String) (json : Option Json) (rest : Members) : Members :=
  match json with
  | none => rest
  | some json => .member (some name) json rest

/-- An object with the fields of a node, those of the children only where there is a document. -/
def ofFields (kind value : String) (left right : Option Json) : Json :=
  object (.member (some "kind") (ofString kind) (.member (some "value") (ofString value)
    (optionalMember "left" left (optionalMember "right" right .done))))

theorem exists_writtenAs_ofFields {kind value : String} {left right : Option Json}
    (hleft : ∀ json ∈ left, ∃ cs, json.WrittenAs cs)
    (hright : ∀ json ∈ right, ∃ cs, json.WrittenAs cs) :
    ∃ cs, (ofFields kind value left right).WrittenAs cs := by
  have hmembers : ofFields kind value left right =
      ofMembers ([("kind", ofString kind), ("value", ofString value)] ++
        (left.toList.map (Prod.mk "left") ++ right.toList.map (Prod.mk "right"))) := by
    cases left <;> cases right <;> rfl
  rw [hmembers]
  refine exists_writtenAs_ofMembers _ ?_
  have hkind := writtenAs_ofString kind
  have hvalue := writtenAs_ofString value
  simp only [List.forall_mem_append, List.forall_mem_cons, List.forall_mem_map, Option.mem_toList]
  exact ⟨⟨⟨_, hkind⟩, ⟨_, hvalue⟩, by simp⟩, hleft, hright⟩

end Json

namespace Loading

/-- The child of a field, which need not be there. -/
def fieldChild (level : Nat) : Option Json → Except Error (Option Stored)
  | none => .ok none
  | some json => StoredFields.child json (stored level json)

theorem storedMembers_right (level : Nat) (kind value : String) (left : Option (Option Stored))
    (right : Option Json) :
    storedMembers level ⟨some kind, some value, left, none⟩
        (Json.optionalMember "right" right .done) =
      match fieldChild level right with
      | .error e => .error e
      | .ok right' => .ok (.node kind value left.join right') := by
  cases right with
  | none => simp [Json.optionalMember, storedMembers, StoredFields.finish, fieldChild]
  | some right =>
    cases hright : StoredFields.child right (stored level right) with
    | error e =>
      simp [Json.optionalMember, storedMembers, StoredFields.has, StoredFields.names,
        StoredFields.assign, Except.map, fieldChild, hright]
    | ok right' =>
      simp [Json.optionalMember, storedMembers, StoredFields.has, StoredFields.names,
        StoredFields.assign, StoredFields.finish, Except.map, fieldChild, hright]

/-- Kind and value are there, so that only the children decide, the left one first. -/
theorem stored_ofFields (level : Nat) (kind value : String) (left right : Option Json) :
    stored level (Json.ofFields kind value left right) =
      if level < Json.maxNesting then
        match fieldChild (level + 1) left with
        | .error e => .error e
        | .ok left' =>
          match fieldChild (level + 1) right with
          | .error e => .error e
          | .ok right' => .ok (.node kind value left' right')
      else .error .malformed := by
  by_cases hlevel : level < Json.maxNesting
  · have hrest := fun left => storedMembers_right (level + 1) kind value left right
    rw [Json.ofFields]
    -- the member on the right waits until the one on the left is read
    generalize Json.optionalMember "right" right .done = rest at hrest ⊢
    cases left with
    | none =>
      simp [Json.optionalMember, stored, hlevel, storedMembers, StoredFields.has,
        StoredFields.initial, StoredFields.names, StoredFields.assign, text?, Json.ofString,
        Except.map, fieldChild.eq_1, hrest]
    | some left =>
      rw [fieldChild]
      cases hleft : StoredFields.child left (stored (level + 1) left) with
      | error e =>
        simp [Json.optionalMember, stored, hlevel, storedMembers, StoredFields.has,
          StoredFields.initial, StoredFields.names, StoredFields.assign, text?, Json.ofString,
          Except.map, hleft]
      | ok left' =>
        simp [Json.optionalMember, stored, hlevel, storedMembers, StoredFields.has,
          StoredFields.initial, StoredFields.names, StoredFields.assign, text?, Json.ofString,
          Except.map, hleft, hrest]
  · simp [stored, hlevel, Json.ofFields]

end Loading

/-! ## Documents -/

namespace Stored

mutual

/-- A document of a structure. -/
inductive IsDocument : Stored → Json → Prop where
  | node {kind value : String} {left right : Option Stored} {leftJson rightJson : Option Json}
      (hleft : IsChildDocument left leftJson) (hright : IsChildDocument right rightJson) :
      IsDocument (.node kind value left right) (Json.ofFields kind value leftJson rightJson)

/-- What stands in the field of a child. -/
inductive IsChildDocument : Option Stored → Option Json → Prop where
  | absent : IsChildDocument none none
  | null : IsChildDocument none (some .null)
  | child {stored : Stored} {json : Json} (h : IsDocument stored json) :
      IsChildDocument (some stored) (some json)

end

variable {stored : Stored} {json : Json}

/-- The documents of the children, as far as there are any, have what all documents of a structure
have. -/
theorem IsChildDocument.forall_mem {child : Option Stored} {childJson : Option Json}
    (h : IsChildDocument child childJson) {Kept : Json → Prop} (hnull : Kept .null)
    (hkept : ∀ stored, child = some stored → ∀ json, stored.IsDocument json → Kept json) :
    ∀ json ∈ childJson, Kept json := by
  intro json hjson
  cases h with
  | absent => cases hjson
  | null =>
    cases hjson
    exact hnull
  | child hdocument =>
    cases hjson
    exact hkept _ rfl json hdocument

theorem IsDocument.exists_writtenAs (h : stored.IsDocument json) : ∃ cs, json.WrittenAs cs := by
  induction stored using childwise generalizing json with
  | node kind value left right ihLeft ihRight =>
    cases h with
    | node hleft hright =>
      have hnull : ∃ cs, Json.null.WrittenAs cs := ⟨_, Json.writtenAs_null⟩
      exact Json.exists_writtenAs_ofFields
        (hleft.forall_mem hnull fun child hchild _ h => ihLeft child hchild h)
        (hright.forall_mem hnull fun child hchild _ h => ihRight child hchild h)

/-- A document that is not null is read as a node. -/
theorem IsDocument.child_eq (h : stored.IsDocument json) (node : Except Loading.Error Stored) :
    Loading.StoredFields.child json node = node.map some := by
  cases h
  rfl

/-- The field of a child nests as deep as the child reaches down. -/
theorem IsChildDocument.fieldChild_eq {child : Option Stored} {childJson : Option Json}
    (h : IsChildDocument child childJson) {level : Nat} (hlevel : level < Json.maxNesting)
    (hread : ∀ stored, child = some stored → ∀ json, stored.IsDocument json →
      Loading.stored (level + 1) json =
        if level + 1 + stored.height < Json.maxNesting then .ok stored else .error .malformed) :
    Loading.fieldChild (level + 1) childJson =
      if level + childHeight child < Json.maxNesting then .ok child else .error .malformed := by
  cases h with
  | absent => simp [Loading.fieldChild, childHeight, hlevel]
  | null => simp [Loading.fieldChild, Loading.StoredFields.child, childHeight, hlevel]
  | @child stored json hdocument =>
    have hnesting : level + childHeight (some stored) = level + 1 + stored.height := by
      simp only [childHeight]
      omega
    rw [Loading.fieldChild, hdocument.child_eq, hread stored rfl json hdocument, hnesting]
    by_cases hfits : level + 1 + stored.height < Json.maxNesting
    · rw [if_pos hfits, if_pos hfits]
      rfl
    · rw [if_neg hfits, if_neg hfits]
      rfl

/-- A structure comes back from its documents, unless they are nested too deep. -/
theorem IsDocument.stored_eq (h : stored.IsDocument json) (level : Nat) :
    Loading.stored level json =
      if level + stored.height < Json.maxNesting then .ok stored else .error .malformed := by
  induction stored using childwise generalizing json level with
  | node kind value left right ihLeft ihRight =>
    cases h with
    | node hleft hright =>
      have hnesting : level + (Stored.node kind value left right).height < Json.maxNesting ↔
          level + childHeight left < Json.maxNesting ∧
            level + childHeight right < Json.maxNesting := by
        simp only [height]
        omega
      rw [Loading.stored_ofFields]
      by_cases hlevel : level < Json.maxNesting
      · rw [hleft.fieldChild_eq hlevel fun child hchild _ h => ihLeft child hchild h (level + 1),
          hright.fieldChild_eq hlevel fun child hchild _ h => ihRight child hchild h (level + 1)]
        -- the left side is read first, but both fail in the same way
        by_cases hleftNesting : level + childHeight left < Json.maxNesting
        · by_cases hrightNesting : level + childHeight right < Json.maxNesting
          · simp [hnesting, hlevel, hleftNesting, hrightNesting]
          · simp [hnesting, hlevel, hleftNesting, hrightNesting]
        · simp [hnesting, hleftNesting]
      · have hnot : ¬ level + (Stored.node kind value left right).height < Json.maxNesting := by omega
        rw [if_neg hlevel, if_neg hnot]

end Stored
end Eligibility
