import Eligibility.Formula.Token

/-!
# Alphabet — the characters of rule text, written out

The rules of the text name its characters one by one: what white space is, what a quote is, what
the name of a predicate may hold, and how a keyword is spelled.  The reader of tokens decides the
same by ranges of code points and by folding letters to lower case.

* `Alphabet.whiteSpace`, `Alphabet.IsQuote`, `Alphabet.IsNameChar`, `Alphabet.IsPlain` — the
  characters;
* `Alphabet.IsKeyword` — the words `AND` and `OR`, letter by letter;
* `Alphabet.isBlank_iff`, `Alphabet.isQuote_iff`, `Alphabet.isNameChar_iff`,
  `Alphabet.isBare_iff`, `Alphabet.ofWord?_eq_none_iff` — the reader decides these.
-/

namespace Eligibility
namespace Formula
namespace Alphabet

/-- The characters with the property `White_Space`. -/
def whiteSpace : List Char :=
  ['\t', '\n', '\x0b', '\x0c', '\r', ' ', '\u0085', '\u00a0', '\u1680', '\u2000', '\u2001',
   '\u2002', '\u2003', '\u2004', '\u2005', '\u2006', '\u2007', '\u2008', '\u2009', '\u200a',
   '\u2028', '\u2029', '\u202f', '\u205f', '\u3000']

/-- A quote, double or single. -/
def IsQuote (c : Char) : Prop :=
  c = '"' ∨ c = '\x27'

instance : DecidablePred IsQuote := fun c =>
  inferInstanceAs (Decidable (c = '"' ∨ c = '\x27'))

/-- An ASCII letter or digit, the underscore or the point. -/
def IsNameChar (c : Char) : Prop :=
  ('a' ≤ c ∧ c ≤ 'z') ∨ ('A' ≤ c ∧ c ≤ 'Z') ∨ ('0' ≤ c ∧ c ≤ '9') ∨ c = '_' ∨ c = '.'

instance : DecidablePred IsNameChar := fun c =>
  inferInstanceAs (Decidable
    (('a' ≤ c ∧ c ≤ 'z') ∨ ('A' ≤ c ∧ c ≤ 'Z') ∨ ('0' ≤ c ∧ c ≤ '9') ∨ c = '_' ∨ c = '.'))

/-- A character that a word may hold outside quotes. -/
def IsPlain (c : Char) : Prop :=
  c ∉ whiteSpace ∧ c ≠ '(' ∧ c ≠ ')' ∧ ¬ IsQuote c

instance : DecidablePred IsPlain := fun c =>
  inferInstanceAs (Decidable (c ∉ whiteSpace ∧ c ≠ '(' ∧ c ≠ ')' ∧ ¬ IsQuote c))

/-- `AND` or `OR`, each letter in either case. -/
def IsKeyword : List Char → Prop
  | [a, n, d] => (a = 'a' ∨ a = 'A') ∧ (n = 'n' ∨ n = 'N') ∧ (d = 'd' ∨ d = 'D')
  | [o, r] => (o = 'o' ∨ o = 'O') ∧ (r = 'r' ∨ r = 'R')
  | _ => False

instance : DecidablePred IsKeyword
  | [a, n, d] =>
    inferInstanceAs (Decidable ((a = 'a' ∨ a = 'A') ∧ (n = 'n' ∨ n = 'N') ∧ (d = 'd' ∨ d = 'D')))
  | [o, r] => inferInstanceAs (Decidable ((o = 'o' ∨ o = 'O') ∧ (r = 'r' ∨ r = 'R')))
  | [] | [_] | _ :: _ :: _ :: _ :: _ => .isFalse id

variable {c : Char} {word : List Char}

/-! ## Characters -/

theorem isBlank_iff : Text.isBlank c = true ↔ c ∈ whiteSpace := by
  constructor
  · intro h
    -- the code point is one of those in the list
    have hcode : c.toNat ∈ whiteSpace.map Char.toNat := by
      simp only [Text.isBlank, Text.inRanges, Text.blankRanges, List.any_cons, List.any_nil,
        Bool.or_false, Bool.or_eq_true, Bool.and_eq_true, decide_eq_true_eq] at h
      simp only [whiteSpace, List.map_cons, List.map_nil, Char.reduceToNat, List.mem_cons,
        List.not_mem_nil, or_false]
      omega
    rcases List.mem_map.1 hcode with ⟨d, hd, hcode⟩
    rwa [← Char.toNat_inj.1 hcode]
  · intro h
    have hall : whiteSpace.all Text.isBlank = true := by decide
    exact List.all_eq_true.1 hall c h

theorem isQuote_iff : Condition.isQuote c = true ↔ IsQuote c := by
  simp [Condition.isQuote, IsQuote]

theorem isNameChar_iff : Text.isNameChar c = true ↔ IsNameChar c := by
  have hclasses : c.isAlphanum = (c.isUpper || c.isLower || c.isDigit) := rfl
  have hupper : c.isUpper = true ↔ 'A' ≤ c ∧ c ≤ 'Z' := decide_eq_true_iff
  have hlower : c.isLower = true ↔ 'a' ≤ c ∧ c ≤ 'z' :=
    Bool.and_eq_true_iff.trans (and_congr decide_eq_true_iff decide_eq_true_iff)
  have hdigit : c.isDigit = true ↔ '0' ≤ c ∧ c ≤ '9' :=
    Bool.and_eq_true_iff.trans (and_congr decide_eq_true_iff decide_eq_true_iff)
  rw [IsNameChar, ← hupper, ← hlower, ← hdigit]
  simp only [Text.isNameChar, hclasses, Bool.or_eq_true, beq_iff_eq, or_assoc]
  exact or_left_comm

theorem isBare_iff : Token.isBare c = true ↔ IsPlain c := by
  rw [IsPlain, ← isBlank_iff, ← isQuote_iff]
  simp [Token.isBare, and_assoc]

/-! ## Keywords -/

/-- A lower case letter is the lower case of itself and of its upper case, 32 code points before
it. -/
theorem toLower_eq_iff {lower upper : Char} (hlower : lower.toLower = lower)
    (hupper : upper.toLower = lower) (hcode : upper.toNat + 32 = lower.toNat) :
    c.toLower = lower ↔ c = lower ∨ c = upper := by
  constructor
  · intro h
    unfold Char.toLower at h
    split at h
    · next hrange =>
      have hlast : c.val.toNat ≤ 90 := UInt32.le_iff_toNat_le.1 hrange.2
      have hshift : c.toNat + 32 = lower.toNat := by
        rw [← h]
        change c.val.toNat + 32 = (c.val + 32).toNat
        rw [UInt32.toNat_add, Nat.mod_eq_of_lt]
        · rfl
        · change c.val.toNat + 32 < 2 ^ 32
          omega
      exact .inr (Char.toNat_inj.1 (by omega))
    · exact .inl h
  · rintro (rfl | rfl)
    · exact hlower
    · exact hupper

theorem ofWord?_eq_none_iff : Connective.ofWord? word = none ↔ ¬ IsKeyword word := by
  have ha (c : Char) : c.toLower = 'a' ↔ c = 'a' ∨ c = 'A' := toLower_eq_iff rfl rfl rfl
  have hn (c : Char) : c.toLower = 'n' ↔ c = 'n' ∨ c = 'N' := toLower_eq_iff rfl rfl rfl
  have hd (c : Char) : c.toLower = 'd' ↔ c = 'd' ∨ c = 'D' := toLower_eq_iff rfl rfl rfl
  have ho (c : Char) : c.toLower = 'o' ↔ c = 'o' ∨ c = 'O' := toLower_eq_iff rfl rfl rfl
  have hr (c : Char) : c.toLower = 'r' ↔ c = 'r' ∨ c = 'R' := toLower_eq_iff rfl rfl rfl
  fun_cases IsKeyword word with
  | case1 a n d => simp [Connective.ofWord?, Text.lower, ha, hn, hd]
  | case2 o r => simp [Connective.ofWord?, Text.lower, ho, hr]
  | case3 word hthree htwo =>
    -- a word of another length is no keyword in lower case either
    have hand : Text.lower word ≠ ['a', 'n', 'd'] := by
      intro h
      simp only [Text.lower, List.map_eq_cons_iff, List.map_eq_nil_iff] at h
      rcases h with ⟨a, _, rfl, _, n, _, rfl, _, d, _, rfl, _, rfl⟩
      exact hthree a n d rfl
    have hor : Text.lower word ≠ ['o', 'r'] := by
      intro h
      simp only [Text.lower, List.map_eq_cons_iff, List.map_eq_nil_iff] at h
      rcases h with ⟨o, _, rfl, _, r, _, rfl, _, rfl⟩
      exact htwo o r rfl
    simp [Connective.ofWord?, hand, hor]

end Alphabet
end Formula
end Eligibility
