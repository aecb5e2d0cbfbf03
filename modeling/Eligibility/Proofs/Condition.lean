import Eligibility.Condition

/-!
# Condition — the text of a comparison, taken apart

A comparison is cut at its first two spaces, so that its literal may hold anything, spaces and
parentheses included, as long as the text as a whole has not the shape of a call.

* `Condition.splitAt?_append`, `Condition.eq_append_of_splitAt?` — the cut at a mark;
* `Condition.append_cons_cases` — two cuts of one text;
* `Condition.splitCall?_eq_none`, `Condition.splitCall?_eq_none_of_not_name` — texts that are no
  call, as they do not end in `)` or have no name before a `(`;
* `Condition.splitCall?_call`, `Condition.eq_append_of_splitCall?`,
  `Condition.eq_append_of_splitCompare?` — the parts of a call and of a comparison;
* `Condition.IsUnquoted` — a literal without its quotes;
* `Condition.unquote_quoted`, `Condition.unquote_of_not_quote` — literals without their quotes;
* `Condition.parse?_compare` — the condition of three words with single spaces.
-/

namespace Eligibility
namespace Condition

/-! ## Cutting at a mark -/

theorem splitAt?_append {mark : Char} {before : List Char} (h : mark ∉ before)
    (after : List Char) : splitAt? mark (before ++ mark :: after) = some (before, after) := by
  have hbefore : ∀ c ∈ before, (c != mark) = true := by
    intro c hc
    have hne : c ≠ mark := fun heq => h (heq ▸ hc)
    simp [hne]
  simp [splitAt?, List.takeWhile_append_of_pos hbefore, List.dropWhile_append_of_pos hbefore]

theorem eq_append_of_splitAt? {mark : Char} {cs before after : List Char}
    (h : splitAt? mark cs = some (before, after)) : cs = before ++ mark :: after := by
  have hcut : cs.takeWhile (· != mark) ++ cs.dropWhile (· != mark) = cs :=
    List.takeWhile_append_dropWhile
  have hstop := List.head?_dropWhile_not (· != mark) cs
  -- the text behind the characters that differ from the mark starts with the mark
  unfold splitAt? at h
  cases hdrop : cs.dropWhile (· != mark) with
  | nil => simp [hdrop] at h
  | cons c rest =>
    simp only [hdrop, Option.some.injEq, Prod.mk.injEq] at h
    rcases h with ⟨rfl, rfl⟩
    have hmark : c = mark := by simpa [hdrop] using hstop
    rw [hdrop, hmark] at hcut
    exact hcut.symm

theorem mark_notMem_of_splitAt? {mark : Char} {cs before after : List Char}
    (h : splitAt? mark cs = some (before, after)) : mark ∉ before := by
  unfold splitAt? at h
  cases hdrop : cs.dropWhile (· != mark) with
  | nil =>
    rw [hdrop] at h
    cases h
  | cons c rest =>
    simp only [hdrop, Option.some.injEq, Prod.mk.injEq] at h
    intro hmem
    have hall : (cs.takeWhile (· != mark)).all (· != mark) = true := List.all_takeWhile
    rw [h.1, List.all_eq_true] at hall
    simpa using hall mark hmem

/-- Of two cuts of a text, one comes before the other, or both are the same. -/
theorem append_cons_cases {c d : Char} {before after first rest : List Char}
    (h : before ++ c :: after = first ++ d :: rest) :
    (before = first ∧ c = d ∧ after = rest) ∨ (∃ inner, before = first ++ d :: inner) ∨
      ∃ inner, first = before ++ c :: inner := by
  rcases List.append_eq_append_iff.1 h with ⟨middle, hfirst, hmiddle⟩ | ⟨middle, hbefore, hmiddle⟩
  · cases middle with
    | nil =>
      rcases List.cons.inj hmiddle with ⟨hmark, hafter⟩
      exact .inl ⟨by rw [hfirst, List.append_nil], hmark, hafter⟩
    | cons c' inner =>
      rcases List.cons.inj hmiddle with ⟨rfl, _⟩
      exact .inr (.inr ⟨inner, hfirst⟩)
  · cases middle with
    | nil =>
      rcases List.cons.inj hmiddle with ⟨hmark, hrest⟩
      exact .inl ⟨by rw [hbefore, List.append_nil], hmark.symm, hrest.symm⟩
    | cons d' inner =>
      rcases List.cons.inj hmiddle with ⟨rfl, _⟩
      exact .inr (.inl ⟨inner, hbefore⟩)

/-- Of two cuts of a text at a mark, the one at the first mark comes first. -/
theorem append_cons_eq_append_cons {mark : Char} {before after first rest : List Char}
    (h : before ++ mark :: after = first ++ mark :: rest) (hfirst : mark ∉ first) :
    (before = first ∧ after = rest) ∨ ∃ inner, before = first ++ mark :: inner := by
  rcases append_cons_cases h with ⟨hbefore, _, hafter⟩ | hbefore | ⟨inner, rfl⟩
  · exact .inl ⟨hbefore, hafter⟩
  · exact .inr hbefore
  · simp at hfirst

/-! ## Calls and comparisons -/

/-- A call ends in `)`. -/
theorem splitCall?_eq_none {cs : List Char} (h : cs.getLast? ≠ some ')') :
    splitCall? cs = none := by
  unfold splitCall?
  cases hcut : splitAt? '(' cs with
  | none => rfl
  | some cut =>
    rcases cut with ⟨name, rest⟩
    -- what follows the `(` ends as the whole text does, unless it is empty
    have hcs := eq_append_of_splitAt? hcut
    have hrest : rest.getLast? ≠ some ')' := by
      intro hlast
      apply h
      simp [hcs, List.getLast?_cons, hlast]
    simp [dropLast?, hrest]

/-- A text is no call when something other than a name stands before each of its `(`. -/
theorem splitCall?_eq_none_of_not_name {cs : List Char}
    (h : ∀ before after, cs = before ++ '(' :: after → before.all Text.isNameChar = false) :
    splitCall? cs = none := by
  unfold splitCall?
  cases hcut : splitAt? '(' cs with
  | none => rfl
  | some cut =>
    rcases cut with ⟨name, rest⟩
    have hname := h name rest (eq_append_of_splitAt? hcut)
    cases hlast : dropLast? ')' rest with
    | none => simp [hlast]
    | some arguments => simp [hlast, hname]

theorem splitCall?_call {name : List Char} (hne : name ≠ [])
    (hname : name.all Text.isNameChar = true) (arguments : List Char) :
    splitCall? (name ++ '(' :: (arguments ++ [')'])) = some (name, arguments) := by
  have hopen : '(' ∉ name := by
    intro hmem
    exact absurd (List.all_eq_true.1 hname _ hmem) (by decide)
  simp [splitCall?, splitAt?_append hopen, dropLast?, hne, hname]

theorem eq_append_of_splitCall? {cs name arguments : List Char}
    (h : splitCall? cs = some (name, arguments)) :
    cs = name ++ '(' :: (arguments ++ [')']) := by
  unfold splitCall? at h
  cases hcut : splitAt? '(' cs with
  | none => simp [hcut] at h
  | some cut =>
    rcases cut with ⟨name', rest⟩
    by_cases hlast : rest.getLast? = some ')'
    · simp only [hcut, dropLast?, hlast, if_true] at h
      split at h
      · cases h
        rcases List.getLast?_eq_some_iff.1 hlast with ⟨arguments', rfl⟩
        rw [eq_append_of_splitAt? hcut, List.dropLast_concat]
      · cases h
    · simp [hcut, dropLast?, hlast] at h

theorem splitCompare?_spaced {attr operator : List Char} (hattr : attr ≠ [])
    (hoperator : operator ≠ []) (hattr' : ' ' ∉ attr) (hoperator' : ' ' ∉ operator)
    (literal : List Char) :
    splitCompare? (attr ++ ' ' :: (operator ++ ' ' :: literal)) =
      some (attr, operator, literal) := by
  simp [splitCompare?, splitAt?_append hattr', splitAt?_append hoperator', hattr, hoperator]

theorem eq_append_of_splitCompare? {cs attr operator literal : List Char}
    (h : splitCompare? cs = some (attr, operator, literal)) :
    cs = attr ++ ' ' :: (operator ++ ' ' :: literal) ∧ ' ' ∉ attr ∧ ' ' ∉ operator := by
  unfold splitCompare? at h
  cases hattr : splitAt? ' ' cs with
  | none =>
    rw [hattr] at h
    cases h
  | some cut =>
    rcases cut with ⟨attr', rest⟩
    cases hoperator : splitAt? ' ' rest with
    | none => simp [hattr, hoperator] at h
    | some cut' =>
      rcases cut' with ⟨operator', literal'⟩
      by_cases hempty : (attr'.isEmpty || operator'.isEmpty) = true
      · simp only [hattr, hoperator, hempty, if_true] at h
        cases h
      · simp only [hattr, hoperator, hempty] at h
        cases h
        refine ⟨?_, mark_notMem_of_splitAt? hattr, mark_notMem_of_splitAt? hoperator⟩
        rw [eq_append_of_splitAt? hattr, eq_append_of_splitAt? hoperator]

/-! ## Literals -/

/-- A literal is a text without one layer of matching quotes, or the text itself if it has none. -/
def IsUnquoted (text literal : String) : Prop :=
  (∃ quote, isQuote quote = true ∧ text.toList = quote :: (literal.toList ++ [quote])) ∨
    (literal = text ∧
      ∀ quote content, isQuote quote = true → text.toList ≠ quote :: (content ++ [quote]))

theorem isUnquoted_unquote (text : String) :
    IsUnquoted text (String.ofList (unquote text.toList)) := by
  cases htext : text.toList with
  | nil =>
    refine .inr ⟨?_, by simp [htext]⟩
    rw [unquote, ← htext, String.ofList_toList]
  | cons c rest =>
    by_cases hquoted : (isQuote c && rest.getLast? = some c) = true
    · have hparts : isQuote c = true ∧ rest.getLast? = some c := by simpa using hquoted
      rcases List.getLast?_eq_some_iff.1 hparts.2 with ⟨content, rfl⟩
      refine .inl ⟨c, hparts.1, ?_⟩
      rw [htext, unquote, if_pos hquoted, String.toList_ofList, List.dropLast_concat]
    · refine .inr ⟨?_, ?_⟩
      · rw [unquote, if_neg hquoted, ← htext, String.ofList_toList]
      · intro quote content hquote heq
        rw [htext] at heq
        cases heq
        simp [hquote] at hquoted

theorem unquote_quoted {quote : Char} (h : isQuote quote = true) (cs : List Char) :
    unquote (quote :: (cs ++ [quote])) = cs := by
  simp [unquote, h]

theorem unquote_of_not_quote {cs : List Char} (h : ∀ c ∈ cs, isQuote c = false) :
    unquote cs = cs := by
  cases cs with
  | nil => rfl
  | cons c rest => simp [unquote, h c]

/-- The condition of a comparison whose first two words hold no space. -/
theorem parse?_compare {attr operator literal : String} (hattr : attr ≠ "")
    (hoperator : operator ≠ "") (hattr' : ' ' ∉ attr.toList) (hoperator' : ' ' ∉ operator.toList)
    (hliteral : literal ≠ "") (hclose : literal.toList.getLast? ≠ some ')') :
    parse? (attr ++ " " ++ operator ++ " " ++ literal) =
      some (.compare attr operator (String.ofList (unquote literal.toList))) := by
  have htext : (attr ++ " " ++ operator ++ " " ++ literal).toList =
      attr.toList ++ ' ' :: (operator.toList ++ ' ' :: literal.toList) := by
    simp
  -- the literal is not empty, so that the text ends as the literal does
  have hlast : (attr.toList ++ ' ' :: (operator.toList ++ ' ' :: literal.toList)).getLast? =
      literal.toList.getLast? := by
    cases hend : literal.toList.getLast? with
    | none =>
      rw [List.getLast?_eq_none_iff] at hend
      exact absurd (by simpa using hend) hliteral
    | some c => simp [List.getLast?_cons, hend]
  rw [← hlast] at hclose
  have hattrList : attr.toList ≠ [] := by simpa using hattr
  have hoperatorList : operator.toList ≠ [] := by simpa using hoperator
  have hcompare := splitCompare?_spaced hattrList hoperatorList hattr' hoperator' literal.toList
  rw [parse?, htext, splitCall?_eq_none hclose]
  simp only [hcompare, String.ofList_toList]

end Condition
end Eligibility
