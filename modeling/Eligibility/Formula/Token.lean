import Eligibility.Condition
import Eligibility.Formula.Error
import Eligibility.Text.Blank

/-!
# Token — the words of rule text

Blanks separate tokens.  A parenthesis is a token of its own, and every other token is a word: a
run of bare characters and quoted segments, where a segment may hold anything but its own quote.
A word that can name a predicate and stands right before `(` takes its arguments with it, up to the
first `)`.

* `Token.word` — the word at the head of a text;
* `Token.tokens` — all tokens of a text, or the first fault;
* `Formula.tokenize` — the same on strings, with the offset of the fault.
-/

namespace Eligibility
namespace Formula
namespace Token

/-- What stops the reading of tokens. -/
inductive Fault where
  | openQuote (quote : Char)
  /-- The text that stands where the `)` of a call was due. -/
  | openCall (rest : List Char)
deriving DecidableEq, Repr

/-- A character that a word may hold outside quotes. -/
def isBare (c : Char) : Bool :=
  !(Text.isBlank c || c == '(' || c == ')' || Condition.isQuote c)

/-- The result of reading with one more character in front. -/
def consume (c : Char) :
    Except Fault (List Char × List Char) → Except Fault (List Char × List Char)
  | .error fault => .error fault
  | .ok (taken, rest) => .ok (c :: taken, rest)

/-- The longest run of bare characters and quoted segments at the head of a text, and the rest;
`quote` is the quote that is open. -/
def run : Option Char → List Char → Except Fault (List Char × List Char)
  | none, [] => .ok ([], [])
  | some quote, [] => .error (.openQuote quote)
  | some quote, c :: rest => consume c (run (if c = quote then none else some quote) rest)
  | none, c :: rest =>
    if Condition.isQuote c then consume c (run (some c) rest)
    else if isBare c then consume c (run none rest)
    else .ok ([], c :: rest)

/-- The arguments of a call and their `)`, and the rest. -/
def arguments : List Char → Except Fault (List Char × List Char)
  | [] => .error (.openCall [])
  | c :: rest =>
    if c = ')' then .ok ([c], rest)
    else if c = '(' then .error (.openCall (c :: rest))
    else consume c (arguments rest)

/-- A word that names a predicate when arguments follow: no connective, and nothing but name
characters. -/
def isCallName (word : List Char) : Bool :=
  (Connective.ofWord? word).isNone && word.all Text.isNameChar

/-- The word at the head of a text, with the arguments of a call, and the rest. -/
def word (cs : List Char) : Except Fault (List Char × List Char) :=
  match run none cs with
  | .error fault => .error fault
  | .ok (head, rest) =>
    match rest with
    | [] => .ok (head, rest)
    | c :: inner =>
      if c = '(' && isCallName head then
        match arguments inner with
        | .error fault => .error fault
        | .ok (taken, rest) => .ok (head ++ c :: taken, rest)
      else .ok (head, rest)

/-! ## What is taken and what is left make up the text -/

theorem consume_eq_ok_iff {c : Char} {r : Except Fault (List Char × List Char)}
    {taken rest : List Char} :
    consume c r = .ok (taken, rest) ↔ ∃ taken', r = .ok (taken', rest) ∧ taken = c :: taken' := by
  rcases r with fault | ⟨taken', rest'⟩
  · simp [consume]
  · simp only [consume, Except.ok.injEq, Prod.mk.injEq]
    constructor
    · rintro ⟨rfl, rfl⟩
      exact ⟨taken', ⟨rfl, rfl⟩, rfl⟩
    · rintro ⟨_, ⟨rfl, rfl⟩, rfl⟩
      exact ⟨rfl, rfl⟩

theorem run_append {quote : Option Char} {cs taken rest : List Char}
    (h : run quote cs = .ok (taken, rest)) : cs = taken ++ rest := by
  induction cs generalizing quote taken with
  | nil =>
    cases quote with
    | none =>
      simp only [run, Except.ok.injEq, Prod.mk.injEq] at h
      simp [← h.1, ← h.2]
    | some quote => simp [run] at h
  | cons c cs ih =>
    cases quote with
    | some quote =>
      obtain ⟨taken', h', rfl⟩ := consume_eq_ok_iff.1 h
      simp [ih h']
    | none =>
      simp only [run] at h
      split at h
      · obtain ⟨taken', h', rfl⟩ := consume_eq_ok_iff.1 h
        simp [ih h']
      · split at h
        · obtain ⟨taken', h', rfl⟩ := consume_eq_ok_iff.1 h
          simp [ih h']
        · simp only [Except.ok.injEq, Prod.mk.injEq] at h
          simp [← h.1, ← h.2]

theorem arguments_append {cs taken rest : List Char} (h : arguments cs = .ok (taken, rest)) :
    cs = taken ++ rest := by
  induction cs generalizing taken with
  | nil => simp [arguments] at h
  | cons c cs ih =>
    simp only [arguments] at h
    split at h
    · simp only [Except.ok.injEq, Prod.mk.injEq] at h
      simp [← h.1, ← h.2]
    · split at h
      · simp at h
      · obtain ⟨taken', h', rfl⟩ := consume_eq_ok_iff.1 h
        simp [ih h']

theorem word_append {cs taken rest : List Char} (h : word cs = .ok (taken, rest)) :
    cs = taken ++ rest := by
  unfold word at h
  split at h
  · simp at h
  · rename_i head rest' hrun
    have happend := run_append hrun
    split at h
    · simp only [Except.ok.injEq, Prod.mk.injEq] at h
      rw [happend, h.1, ← h.2]
    · split at h
      · split at h
        · simp at h
        · rename_i hargs
          simp only [Except.ok.injEq, Prod.mk.injEq] at h
          rw [happend, arguments_append hargs, ← h.1, ← h.2]
          simp
      · simp only [Except.ok.injEq, Prod.mk.injEq] at h
        rw [happend, h.1, ← h.2]

/-- A run before which no blank and no parenthesis stands has at least one character. -/
theorem run_ne_nil {c : Char} {cs head rest : List Char}
    (hc : Condition.isQuote c = true ∨ isBare c = true)
    (h : run none (c :: cs) = .ok (head, rest)) : head ≠ [] := by
  simp only [run] at h
  split at h
  · obtain ⟨_, _, rfl⟩ := consume_eq_ok_iff.1 h
    simp
  · split at h
    · obtain ⟨_, _, rfl⟩ := consume_eq_ok_iff.1 h
      simp
    · simp_all

theorem word_ne_nil {c : Char} {cs taken rest : List Char}
    (hc : Condition.isQuote c = true ∨ isBare c = true) (h : word (c :: cs) = .ok (taken, rest)) :
    taken ≠ [] := by
  unfold word at h
  split at h
  · simp at h
  · rename_i head rest' hhead
    have hne := run_ne_nil hc hhead
    split at h
    · simp only [Except.ok.injEq, Prod.mk.injEq] at h
      rw [← h.1]
      exact hne
    · split at h
      · split at h
        · simp at h
        · simp only [Except.ok.injEq, Prod.mk.injEq] at h
          rw [← h.1]
          simp
      · simp only [Except.ok.injEq, Prod.mk.injEq] at h
        rw [← h.1]
        exact hne

theorem length_rest_lt_of_word {c : Char} {cs taken rest : List Char}
    (hc : Condition.isQuote c = true ∨ isBare c = true) (h : word (c :: cs) = .ok (taken, rest)) :
    rest.length < (c :: cs).length := by
  have hpos := List.length_pos_iff.2 (word_ne_nil hc h)
  have hlen := congrArg List.length (word_append h)
  simp only [List.length_append] at hlen
  omega

/-! ## Tokens -/

/-- The result of reading with one more token in front. -/
def prepend (token : List Char) :
    Except Fault (List (List Char)) → Except Fault (List (List Char))
  | .error fault => .error fault
  | .ok rest => .ok (token :: rest)

/-- The tokens of a text. -/
def tokens (cs : List Char) : Except Fault (List (List Char)) :=
  match cs with
  | [] => .ok []
  | c :: rest =>
    if Text.isBlank c then tokens rest
    else if _hparen : c = '(' ∨ c = ')' then prepend [c] (tokens rest)
    else
      match _hword : word (c :: rest) with
      | .error fault => .error fault
      | .ok (taken, rest') => prepend taken (tokens rest')
termination_by cs.length
decreasing_by
  · simp
  · simp
  · refine length_rest_lt_of_word ?_ _hword
    rename_i hblank
    by_cases hquote : Condition.isQuote c = true
    · exact .inl hquote
    · exact .inr (by simp_all [isBare])

/-- The length of a text in UTF-8. -/
def byteLength (cs : List Char) : Nat :=
  cs.foldr (fun c count => c.utf8Size + count) 0

/-- The error of a fault in a text of the given length: an open quote is noticed at the end. -/
def Fault.toError (length : Nat) : Fault → Error
  | openQuote quote => .unclosedQuote length quote
  | openCall rest => .unclosedCall (length - byteLength rest)

end Token

/-- The tokens of rule text. -/
def tokenize (text : String) : Except Error (List String) :=
  match Token.tokens text.toList with
  | .error fault => .error (fault.toError (Token.byteLength text.toList))
  | .ok tokens => .ok (tokens.map String.ofList)

end Formula
end Eligibility
