import Eligibility.Combination
import Eligibility.Proofs.Condition

/-!
# Naming — what the name of a combination tells

The name of a combination is a label and the names of its parts with a mark between them, and the
names of combinations can be parts again.  The label tells where a combination begins, but nothing
tells where it ends.  So a name determines the created rules that it goes back to, in order, and how
many combinations begin at each of them, and no more than that.

* `Combination.IsPlain`, `Combination.Part` — the name of a created rule, alone and behind labels;
* `Combination.intercalate_inj`, `Combination.Part.text_inj`, `Combination.spell_inj` — the parts
  can be read off the text that joins them;
* `Combination.MadeOf` — names and the parts that they go back to;
* `Combination.nameOf_eq_iff` — when two combinations have one name;
* `Combination.MadeOf.eq_of_isPlain` — combinations of created rules alone.
-/

namespace Eligibility
namespace Combination

/-! ## Marks -/

theorem toList_intercalate_cons_cons (name next : String) (rest : List String) :
    (" + ".intercalate (name :: next :: rest)).toList =
      (name.toList ++ [' ']) ++ '+' :: ' ' :: (" + ".intercalate (next :: rest)).toList := by
  rw [String.intercalate_cons_cons, String.toList_append, String.toList_append]
  simp

theorem mark_mem_intercalate (name next : String) (rest : List String) :
    '+' ∈ (" + ".intercalate (name :: next :: rest)).toList := by
  rw [toList_intercalate_cons_cons]
  exact List.mem_append_right _ List.mem_cons_self

/-- Names without a `+` can be read off their joined text. -/
theorem intercalate_inj {names names' : List String} (hne : names ≠ []) (hne' : names' ≠ [])
    (h : ∀ name ∈ names, '+' ∉ name.toList) (h' : ∀ name ∈ names', '+' ∉ name.toList)
    (heq : " + ".intercalate names = " + ".intercalate names') : names = names' := by
  induction names generalizing names' with
  | nil => exact absurd rfl hne
  | cons name rest ih =>
    cases names' with
    | nil => exact absurd rfl hne'
    | cons name' rest' =>
      rw [List.forall_mem_cons] at h h'
      cases rest with
      | nil =>
        cases rest' with
        | nil => simpa using heq
        | cons next' rest' =>
          -- a mark stands in the text of several names only
          rw [String.intercalate_singleton] at heq
          exact absurd (mark_mem_intercalate name' next' rest') (heq ▸ h.1)
      | cons next rest =>
        cases rest' with
        | nil =>
          rw [String.intercalate_singleton] at heq
          exact absurd (mark_mem_intercalate name next rest) (heq ▸ h'.1)
        | cons next' rest' =>
          -- both texts are cut at their first mark
          have hcut := congrArg (fun text => Condition.splitAt? '+' text.toList) heq
          simp only [toList_intercalate_cons_cons] at hcut
          rw [Condition.splitAt?_append (by simpa using h.1),
            Condition.splitAt?_append (by simpa using h'.1)] at hcut
          simp only [Option.some.injEq, Prod.mk.injEq, List.append_cancel_right_eq,
            List.cons.injEq, true_and, String.toList_inj] at hcut
          rw [hcut.1, ih (List.cons_ne_nil _ _) (List.cons_ne_nil _ _) h.2 h'.2 hcut.2]

/-! ## Labels -/

/-- A name that holds no mark and does not start with the label of a combination. -/
def IsPlain (name : String) : Prop :=
  '+' ∉ name.toList ∧ ¬ "Combined: ".toList <+: name.toList

instance (name : String) : Decidable (IsPlain name) :=
  inferInstanceAs (Decidable (_ ∧ _))

/-- A text behind a number of labels. -/
def labelled (text : String) : Nat → String
  | 0 => text
  | labels + 1 => "Combined: " ++ labelled text labels

theorem mark_notMem_labelled {text : String} (h : '+' ∉ text.toList) (labels : Nat) :
    '+' ∉ (labelled text labels).toList := by
  induction labels with
  | zero => exact h
  | succ labels ih =>
    rw [labelled, String.toList_append, List.mem_append]
    rintro (hlabel | htext)
    · exact absurd hlabel (by decide)
    · exact ih htext

theorem not_isPlain_label (text : String) : ¬ IsPlain ("Combined: " ++ text) := by
  intro h
  refine h.2 ?_
  rw [String.toList_append]
  exact List.prefix_append _ _

/-- A created rule in the name of a combination: its own name, behind some labels. -/
structure Part where
  labels : Nat
  name : String
  isPlain : IsPlain name

namespace Part

def text (part : Part) : String :=
  labelled part.name part.labels

theorem mark_notMem_text (part : Part) : '+' ∉ part.text.toList :=
  mark_notMem_labelled part.isPlain.1 part.labels

theorem text_inj {part part' : Part} (h : part.text = part'.text) : part = part' := by
  rcases part with ⟨labels, name, hname⟩
  rcases part' with ⟨labels', name', hname'⟩
  -- the labels are taken off one by one, until one of the names is left
  simp only [text] at h
  induction labels generalizing labels' with
  | zero =>
    cases labels' with
    | zero =>
      cases h
      rfl
    | succ labels' =>
      cases h
      exact absurd hname (not_isPlain_label _)
  | succ labels ih =>
    cases labels' with
    | zero =>
      cases h
      exact absurd hname' (not_isPlain_label _)
    | succ labels' =>
      have hrest := ih labels' ((String.append_right_inj _).1 h)
      cases hrest
      rfl

end Part

/-- The text that joins parts. -/
def spell (parts : List Part) : String :=
  " + ".intercalate (parts.map Part.text)

theorem spell_inj {parts parts' : List Part} (hne : parts ≠ []) (hne' : parts' ≠ [])
    (h : spell parts = spell parts') : parts = parts' := by
  have hmarks : ∀ parts : List Part, ∀ text ∈ parts.map Part.text, '+' ∉ text.toList := by
    intro parts text htext
    rcases List.mem_map.1 htext with ⟨part, _, rfl⟩
    exact part.mark_notMem_text
  have htexts := intercalate_inj (by simpa using hne) (by simpa using hne') (hmarks parts)
    (hmarks parts') h
  exact (List.map_inj_right fun _ _ => Part.text_inj).1 htexts

theorem spell_append {parts parts' : List Part} (hne : parts ≠ []) (hne' : parts' ≠ []) :
    spell (parts ++ parts') = spell parts ++ " + " ++ spell parts' := by
  have htexts : parts.map Part.text ≠ [] := by simpa using hne
  have htexts' : parts'.map Part.text ≠ [] := by simpa using hne'
  rw [spell, List.map_append, String.intercalate_append_of_ne_nil htexts htexts', spell, spell]

/-- One more combination begins where the parts begin. -/
def raise : List Part → List Part
  | [] => []
  | part :: rest => { part with labels := part.labels + 1 } :: rest

theorem raise_eq_nil {parts : List Part} : raise parts = [] ↔ parts = [] := by
  cases parts with
  | nil => exact Iff.rfl
  | cons part rest => simp [raise]

theorem spell_raise {parts : List Part} (h : parts ≠ []) :
    spell (raise parts) = "Combined: " ++ spell parts := by
  cases parts with
  | nil => exact absurd rfl h
  | cons part rest => exact String.intercalate_cons_append

/-! ## Names of combinations -/

/-- The names of rules that were created or combined, and the parts that they go back to. -/
inductive MadeOf : List String → List Part → Prop where
  | nil : MadeOf [] []
  | created {name : String} {names : List String} {parts : List Part} (hname : IsPlain name)
      (h : MadeOf names parts) : MadeOf (name :: names) (⟨0, name, hname⟩ :: parts)
  | combined {names names' : List String} {parts parts' : List Part} (hne : names ≠ [])
      (h : MadeOf names parts) (h' : MadeOf names' parts') :
      MadeOf (nameOf names :: names') (raise parts ++ parts')

namespace MadeOf

variable {names names' : List String} {parts parts' : List Part}

theorem eq_nil_iff (h : MadeOf names parts) : parts = [] ↔ names = [] := by
  induction h with
  | nil => simp
  | created hname _ _ => simp
  | combined hne _ _ ih _ => simp [raise_eq_nil, ih, hne]

theorem append (h : MadeOf names parts) (h' : MadeOf names' parts') :
    MadeOf (names ++ names') (parts ++ parts') := by
  induction h with
  | nil => exact h'
  | created hname _ ih => exact .created hname ih
  | combined hne hnames _ _ ih =>
    rw [List.append_assoc]
    exact .combined hne hnames ih

theorem exists_of_forall (h : ∀ name ∈ names, ∃ parts, MadeOf [name] parts) :
    ∃ parts, MadeOf names parts := by
  induction names with
  | nil => exact ⟨[], .nil⟩
  | cons name rest ih =>
    rw [List.forall_mem_cons] at h
    rcases h.1 with ⟨parts, hparts⟩
    rcases ih h.2 with ⟨parts', hparts'⟩
    exact ⟨parts ++ parts', hparts.append hparts'⟩

theorem intercalate_cons_eq {name : String} (hne : parts ≠ []) (hname : name = spell parts)
    (h : MadeOf names' parts') (hnames : " + ".intercalate names' = spell parts') :
    " + ".intercalate (name :: names') = spell (parts ++ parts') := by
  by_cases hnil : names' = []
  · rw [h.eq_nil_iff.2 hnil, hnil, List.append_nil, String.intercalate_singleton, hname]
  · have hne' : parts' ≠ [] := fun heq => hnil (h.eq_nil_iff.1 heq)
    rw [String.intercalate_cons_of_ne_nil hnil, spell_append hne hne', hname, hnames]

/-- Names are joined as their parts are. -/
theorem intercalate_eq (h : MadeOf names parts) : " + ".intercalate names = spell parts := by
  induction h with
  | nil => rfl
  | created hname hrest ih =>
    exact intercalate_cons_eq (List.cons_ne_nil _ []) String.intercalate_singleton.symm hrest ih
  | combined hne hnames hrest ih ih' =>
    have hparts := fun heq => hne (hnames.eq_nil_iff.1 heq)
    refine intercalate_cons_eq (fun heq => hparts (raise_eq_nil.1 heq)) ?_ hrest ih'
    rw [spell_raise hparts, ← ih, nameOf]

theorem labels_eq_zero (h : MadeOf names parts) (hplain : ∀ name ∈ names, IsPlain name) :
    ∀ part ∈ parts, part.labels = 0 := by
  induction h with
  | nil => simp
  | created _ _ ih =>
    rw [List.forall_mem_cons] at hplain ⊢
    exact ⟨rfl, ih hplain.2⟩
  | combined => exact absurd (hplain _ List.mem_cons_self) (not_isPlain_label _)

/-- Parts at which no combination begins are the rules that were named. -/
theorem eq_map_name (h : MadeOf names parts) (hlabels : ∀ part ∈ parts, part.labels = 0) :
    names = parts.map Part.name := by
  induction h with
  | nil => rfl
  | created _ _ ih =>
    rw [List.forall_mem_cons] at hlabels
    rw [List.map_cons, ← ih hlabels.2]
  | @combined _ _ parts _ hne hnames _ _ _ =>
    cases parts with
    | nil => exact absurd (hnames.eq_nil_iff.1 rfl) hne
    | cons part rest => exact absurd (hlabels _ List.mem_cons_self) (Nat.succ_ne_zero _)

end MadeOf

/-- Combinations have one name just when they go back to the same parts. -/
theorem nameOf_eq_iff {names names' : List String} {parts parts' : List Part} (hne : names ≠ [])
    (hne' : names' ≠ []) (h : MadeOf names parts) (h' : MadeOf names' parts') :
    nameOf names = nameOf names' ↔ parts = parts' := by
  rw [nameOf, nameOf, String.append_right_inj, h.intercalate_eq, h'.intercalate_eq]
  constructor
  · exact spell_inj (fun heq => hne (h.eq_nil_iff.1 heq)) fun heq => hne' (h'.eq_nil_iff.1 heq)
  · exact congrArg spell

/-- What goes back to the same parts as a list of created rules is that list. -/
theorem MadeOf.eq_of_isPlain {names names' : List String} {parts : List Part}
    (h : MadeOf names parts) (h' : MadeOf names' parts) (hplain : ∀ name ∈ names, IsPlain name) :
    names' = names := by
  have hlabels := h.labels_eq_zero hplain
  rw [h.eq_map_name hlabels, h'.eq_map_name hlabels]

end Combination
end Eligibility
