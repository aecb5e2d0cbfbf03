import Eligibility.Proofs.Formula.Alphabet
import Eligibility.Proofs.Formula.Lexing

/-!
# Scanning — the tokens of a text, one character at a time

The reader of tokens takes whole runs, and looks at what a run has taken before it reads arguments.
A scanner takes one character after another and keeps nothing but the word it is in, where in the
word it stands, and the tokens before it.  It tells characters apart as the alphabet of rule text
names them.  Both read every text alike, faults included.

* `Scanner`, `Scanner.step`, `Scanner.finish` — the scanner, one move and the end;
* `Scanner.scan` — the scan of a text;
* `Scanner.complete_run`, `Scanner.complete_arguments`, `Scanner.complete_word` — what the scanner
  makes of the parts that the reader takes at once;
* `Scanner.complete_tokens` — what it makes of a text;
* `Scanner.read_eq_error_iff`, `Scanner.offset_of_read` — where it stops, and how far it has come;
* `tokenize_eq_scan` — the agreement, with each fault and its place.
-/

namespace Eligibility
namespace Formula

/-- The part of a word in which a scanner stands. -/
inductive Scanner.Place where
  /-- Outside quotes and arguments, perhaps in no word at all. -/
  | plain
  /-- In a segment that the given quote has opened. -/
  | quoted (quote : Char)
  /-- Behind the `(` of a call. -/
  | arguments
deriving DecidableEq, Repr

/-- A scanner in the middle of a text. -/
structure Scanner where
  place : Scanner.Place
  /-- The characters of the current word, none between two words. -/
  word : List Char
  /-- The tokens before the current word. -/
  tokens : List (List Char)
  /-- The length in UTF-8 of what was scanned. -/
  offset : Nat
deriving DecidableEq, Repr

namespace Scanner

def start : Scanner :=
  ⟨.plain, [], [], 0⟩

/-- Does a `(` behind this word open arguments?  It does behind a name that is no keyword. -/
def opensArguments (word : List Char) : Bool :=
  word ≠ [] ∧ word.all (fun c => Alphabet.IsNameChar c) ∧ ¬ Alphabet.IsKeyword word

/-- The tokens, the current word among them. -/
def flushed (s : Scanner) : List (List Char) :=
  if s.word.isEmpty then s.tokens else s.tokens ++ [s.word]

/-- The scanner with one more character in its word. -/
def keep (s : Scanner) (c : Char) (place : Place) : Scanner :=
  ⟨place, s.word ++ [c], s.tokens, s.offset + c.utf8Size⟩

/-- The scanner between two words, behind a character and with the given tokens. -/
def between (s : Scanner) (c : Char) (tokens : List (List Char)) : Scanner :=
  ⟨.plain, [], tokens, s.offset + c.utf8Size⟩

/-- The scanner behind one more character, or the fault at it. -/
def step (s : Scanner) (c : Char) : Except Error Scanner :=
  match s.place with
  | .quoted quote => .ok (s.keep c (if c = quote then .plain else .quoted quote))
  | .arguments =>
    if c = '(' then .error (.unclosedCall s.offset)
    else if c = ')' then .ok (s.between c (s.tokens ++ [s.word ++ [c]]))
    else .ok (s.keep c .arguments)
  | .plain =>
    if Alphabet.IsQuote c then .ok (s.keep c (.quoted c))
    else if c ∈ Alphabet.whiteSpace then .ok (s.between c s.flushed)
    else if c = ')' then .ok (s.between c (s.flushed ++ [[c]]))
    else if c = '(' then
      if opensArguments s.word then .ok (s.keep c .arguments)
      else .ok (s.between c (s.flushed ++ [[c]]))
    else .ok (s.keep c .plain)

/-- The scanner behind a text, or the first fault in it. -/
def read (s : Scanner) (cs : List Char) : Except Error Scanner :=
  cs.foldlM step s

/-- The tokens at the end of the text, or the fault of a word that is not complete. -/
def finish (s : Scanner) : Except Error (List (List Char)) :=
  match s.place with
  | .plain => .ok s.flushed
  | .quoted quote => .error (.unclosedQuote s.offset quote)
  | .arguments => .error (.unclosedCall s.offset)

/-- The tokens when the given text is all that is left. -/
def complete (s : Scanner) (cs : List Char) : Except Error (List (List Char)) :=
  (s.read cs).bind finish

/-- The tokens of a text, found by a scan from its start. -/
def scan (text : String) : Except Error (List String) :=
  (start.complete text.toList).map fun tokens => tokens.map String.ofList

/-! ## One character -/

variable {s : Scanner} {c : Char} {cs : List Char}

@[simp] theorem read_nil (s : Scanner) : s.read [] = .ok s :=
  rfl

theorem read_cons (s : Scanner) (c : Char) (cs : List Char) :
    s.read (c :: cs) = (s.step c).bind fun s' => s'.read cs :=
  rfl

@[simp] theorem complete_nil (s : Scanner) : s.complete [] = s.finish :=
  rfl

theorem complete_cons (s : Scanner) (c : Char) (cs : List Char) :
    s.complete (c :: cs) = (s.step c).bind fun s' => s'.complete cs := by
  cases h : s.step c with
  | error e => simp [complete, read_cons, h, Except.bind]
  | ok s' => simp [complete, read_cons, h, Except.bind]

/-- Outside quotes and arguments the scanner tells characters apart as the reader does. -/
theorem step_plain (hplace : s.place = .plain) (c : Char) :
    s.step c =
      if Condition.isQuote c then .ok (s.keep c (.quoted c))
      else if Text.isBlank c then .ok (s.between c s.flushed)
      else if c = ')' then .ok (s.between c (s.flushed ++ [[c]]))
      else if c = '(' then
        if opensArguments s.word then .ok (s.keep c .arguments)
        else .ok (s.between c (s.flushed ++ [[c]]))
      else .ok (s.keep c .plain) := by
  simp [step, hplace, Alphabet.isQuote_iff, Alphabet.isBlank_iff]

theorem complete_of_step {s' : Scanner} (h : s.step c = .ok s') :
    s.complete (c :: cs) = s'.complete cs := by
  simp [complete_cons, h, Except.bind]

/-! ## What the reader takes at once -/

open Token (byteLength)

/-- The place that an open quote, or none, stands for. -/
def placeOf : Option Char → Place
  | none => .plain
  | some quote => .quoted quote

/-- The scanner comes through a run character by character, and meets its open quote at the end. -/
theorem complete_run (quote : Option Char) (cs word : List Char) (tokens : List (List Char))
    (offset : Nat) :
    complete ⟨placeOf quote, word, tokens, offset⟩ cs =
      match Token.run quote cs with
      | .error fault => .error (fault.toError (offset + byteLength cs))
      | .ok (taken, rest) =>
        complete ⟨.plain, word ++ taken, tokens, offset + byteLength taken⟩ rest := by
  induction cs generalizing quote word offset with
  | nil =>
    cases quote with
    | none => simp [placeOf, Token.run, byteLength]
    | some quote => simp [placeOf, Token.run, finish, Token.Fault.toError, byteLength]
  | cons c cs ih =>
    -- a character that the run takes goes into the word
    have htaken : ∀ next, step ⟨placeOf quote, word, tokens, offset⟩ c =
          .ok ⟨placeOf next, word ++ [c], tokens, offset + c.utf8Size⟩ →
        Token.run quote (c :: cs) = Token.consume c (Token.run next cs) →
        complete ⟨placeOf quote, word, tokens, offset⟩ (c :: cs) =
          match Token.run quote (c :: cs) with
          | .error fault => .error (fault.toError (offset + byteLength (c :: cs)))
          | .ok (taken, rest) =>
            complete ⟨.plain, word ++ taken, tokens, offset + byteLength taken⟩ rest := by
      intro next hstep hrun
      rw [complete_of_step hstep, ih next, hrun]
      cases Token.run next cs with
      | error fault => simp [Token.consume, byteLength, Nat.add_assoc]
      | ok result => simp [Token.consume, byteLength, Nat.add_assoc]
    cases quote with
    | some quote =>
      refine htaken (if c = quote then none else some quote) ?_ rfl
      by_cases hclose : c = quote
      · simp [step, keep, placeOf, hclose]
      · simp [step, keep, placeOf, hclose]
    | none =>
      by_cases hquote : Condition.isQuote c = true
      · refine htaken (some c) ?_ (by simp [Token.run, hquote])
        simp [step_plain, keep, placeOf, hquote]
      · by_cases hbare : Token.isBare c = true
        · refine htaken none ?_ (by simp [Token.run, hquote, hbare])
          simp only [Token.isBare, Bool.not_eq_true', Bool.or_eq_false_iff, beq_eq_false_iff_ne,
            ne_eq] at hbare
          simp [step_plain, keep, placeOf, hbare]
        · -- the run stops here and has taken nothing
          simp [Token.run, hquote, hbare, placeOf, byteLength]

/-- The scanner comes through arguments up to their `)`, or meets the fault in them. -/
theorem complete_arguments (cs word : List Char) (tokens : List (List Char)) (offset : Nat) :
    complete ⟨.arguments, word, tokens, offset⟩ cs =
      match Token.arguments cs with
      | .error fault => .error (fault.toError (offset + byteLength cs))
      | .ok (taken, rest) =>
        complete ⟨.plain, [], tokens ++ [word ++ taken], offset + byteLength taken⟩ rest := by
  induction cs generalizing word offset with
  | nil => simp [Token.arguments, finish, Token.Fault.toError, byteLength]
  | cons c cs ih =>
    by_cases hclose : c = ')'
    · subst hclose
      have hstep : step ⟨.arguments, word, tokens, offset⟩ ')' =
          .ok ⟨.plain, [], tokens ++ [word ++ [')']], offset + Char.utf8Size ')'⟩ :=
        rfl
      simp [complete_of_step hstep, Token.arguments, byteLength]
    · by_cases hopen : c = '('
      · simp [complete_cons, step, hopen, Except.bind, Token.arguments, Token.Fault.toError]
      · have hstep : step ⟨.arguments, word, tokens, offset⟩ c =
            .ok ⟨.arguments, word ++ [c], tokens, offset + c.utf8Size⟩ := by
          simp [step, keep, hclose, hopen]
        rw [complete_of_step hstep, ih]
        simp only [Token.arguments, hclose, hopen, if_false]
        cases Token.arguments cs with
        | error fault => simp [Token.consume, byteLength, Nat.add_assoc]
        | ok result => simp [Token.consume, byteLength, Nat.add_assoc]

theorem byteLength_append (cs cs' : List Char) :
    byteLength (cs ++ cs') = byteLength cs + byteLength cs' := by
  induction cs with
  | nil => simp [byteLength]
  | cons c cs ih =>
    simp only [byteLength, List.cons_append, List.foldr_cons] at ih ⊢
    rw [ih, Nat.add_assoc]

/-- A `(` behind a name sends the scanner into the arguments. -/
theorem complete_open {word : List Char} (h : opensArguments word = true) (inner : List Char)
    (tokens : List (List Char)) (offset : Nat) :
    complete ⟨.plain, word, tokens, offset⟩ ('(' :: inner) =
      match Token.arguments inner with
      | .error fault => .error (fault.toError (offset + byteLength ('(' :: inner)))
      | .ok (taken, rest) =>
        complete ⟨.plain, [], tokens ++ [word ++ '(' :: taken],
          offset + byteLength ('(' :: taken)⟩ rest := by
  have hquote : Condition.isQuote '(' = false := by decide
  have hblank : Text.isBlank '(' = false := by decide
  have hstep : step ⟨.plain, word, tokens, offset⟩ '(' =
      .ok ⟨.arguments, word ++ ['('], tokens, offset + Char.utf8Size '('⟩ := by
    simp [step_plain, hquote, hblank, h, keep]
  rw [complete_of_step hstep, complete_arguments]
  cases Token.arguments inner with
  | error fault => simp [byteLength, Nat.add_assoc]
  | ok result => simp [byteLength, Nat.add_assoc]

/-- Where a run stops, a word that no arguments follow is one more token. -/
theorem complete_flushed {word rest : List Char} (hword : word ≠ []) (hrest : Token.StopsRun rest)
    (hplain : ∀ inner, rest = '(' :: inner → opensArguments word = false)
    (tokens : List (List Char)) (offset : Nat) :
    complete ⟨.plain, word, tokens, offset⟩ rest =
      complete ⟨.plain, [], tokens ++ [word], offset⟩ rest := by
  cases rest with
  | nil => simp [finish, flushed, hword]
  | cons c rest =>
    rcases hrest with ⟨hquote, hbare⟩
    have hstep : step ⟨.plain, word, tokens, offset⟩ c =
        step ⟨.plain, [], tokens ++ [word], offset⟩ c := by
      by_cases hblank : Text.isBlank c = true
      · simp [step_plain, hquote, hblank, flushed, hword, between]
      · by_cases hclose : c = ')'
        · subst hclose
          simp [step_plain, hquote, hblank, flushed, hword, between]
        · have hopen : c = '(' := by
            simpa [Token.isBare, hquote, hblank, hclose] using hbare
          subst hopen
          have hnone : opensArguments [] = false := rfl
          simp [step_plain, hquote, hblank, hplain rest rfl, hnone, flushed, hword, between]
    rw [complete_cons, complete_cons, hstep]

theorem opensArguments_eq_isCallName {word : List Char} (h : word ≠ []) :
    opensArguments word = Token.isCallName word := by
  rw [Bool.eq_iff_iff]
  simp [opensArguments, Token.isCallName, h, ← Alphabet.isNameChar_iff,
    ← Alphabet.ofWord?_eq_none_iff, and_comm]

/-- The scanner makes a token of the word at the head of a text. -/
theorem complete_word {c : Char} {cs : List Char} (hc : Token.StartsWord c)
    (tokens : List (List Char)) (offset : Nat) :
    complete ⟨.plain, [], tokens, offset⟩ (c :: cs) =
      match Token.word (c :: cs) with
      | .error fault => .error (fault.toError (offset + byteLength (c :: cs)))
      | .ok (taken, rest) =>
        complete ⟨.plain, [], tokens ++ [taken], offset + byteLength taken⟩ rest := by
  have hrun := complete_run none (c :: cs) [] tokens offset
  rw [placeOf] at hrun
  rw [hrun, Token.word]
  cases hresult : Token.run none (c :: cs) with
  | error fault => rfl
  | ok result =>
    rcases result with ⟨head, rest⟩
    have hhead := Token.run_ne_nil hc.quote_or_bare hresult
    have hstops := Token.stopsRun_of_run hresult
    cases rest with
    | nil => exact complete_flushed hhead hstops (by simp) tokens _
    | cons c' inner =>
      by_cases hcall : (c' = '(' && Token.isCallName head) = true
      · have hlength : byteLength (c :: cs) = byteLength head + byteLength (c' :: inner) := by
          rw [Token.run_append hresult, byteLength_append]
        rw [hlength]
        simp only [Bool.and_eq_true, decide_eq_true_eq] at hcall
        rcases hcall with ⟨rfl, hname⟩
        have hopens : opensArguments head = true := by
          rw [opensArguments_eq_isCallName hhead, hname]
        simp only [List.nil_append, complete_open hopens, hname]
        cases Token.arguments inner with
        | error fault => simp [Nat.add_assoc]
        | ok result => simp [byteLength_append, Nat.add_assoc]
      · simp only [hcall]
        refine complete_flushed hhead hstops ?_ tokens _
        intro inner' hinner
        cases hinner
        simpa [opensArguments_eq_isCallName hhead] using hcall

/-- The scanner finds the tokens of a text, or the first fault in it. -/
theorem complete_tokens (cs : List Char) (tokens : List (List Char)) (offset : Nat) :
    complete ⟨.plain, [], tokens, offset⟩ cs =
      match Token.tokens cs with
      | .error fault => .error (fault.toError (offset + byteLength cs))
      | .ok later => .ok (tokens ++ later) := by
  fun_induction Token.tokens cs generalizing tokens offset with
  | case1 => simp [finish, flushed]
  | case2 c cs hblank ih =>
    have hquote := (Token.endsWord_blank hblank cs).stopsRun.1
    have hstep : step ⟨.plain, [], tokens, offset⟩ c =
        .ok ⟨.plain, [], tokens, offset + c.utf8Size⟩ := by
      simp [step_plain, hquote, hblank, between, flushed]
    rw [complete_of_step hstep, ih]
    simp [byteLength, Nat.add_assoc]
  | case3 c cs hblank hparen ih =>
    have hstep : step ⟨.plain, [], tokens, offset⟩ c =
        .ok ⟨.plain, [], tokens ++ [[c]], offset + c.utf8Size⟩ := by
      rcases hparen with rfl | rfl
      · rfl
      · rfl
    rw [complete_of_step hstep, ih]
    cases Token.tokens cs with
    | error fault => simp [Token.prepend, byteLength, Nat.add_assoc]
    | ok later => simp [Token.prepend]
  | case4 c cs hblank hparen fault hword =>
    rw [complete_word (Token.startsWord_of_not hblank hparen), hword]
  | case5 c cs hblank hparen taken rest hword ih =>
    have hlength : byteLength (c :: cs) = byteLength taken + byteLength rest := by
      rw [Token.word_append hword, byteLength_append]
    rw [complete_word (Token.startsWord_of_not hblank hparen), hword, hlength]
    simp only [ih]
    cases Token.tokens rest with
    | error fault => simp [Token.prepend, Nat.add_assoc]
    | ok later => simp [Token.prepend]

/-! ## Where the scanner stops -/

theorem offset_of_step {s' : Scanner} :
    s.step c = .ok s' → s'.offset = s.offset + c.utf8Size := by
  fun_cases step s c with
  | case2 =>
    intro h
    cases h
  | case1 | case3 | case4 | case5 | case6 | case7 | case8 | case9 | case10 =>
    intro h
    cases h
    rfl

theorem offset_of_read {s' : Scanner} (h : s.read cs = .ok s') :
    s'.offset = s.offset + byteLength cs := by
  induction cs generalizing s with
  | nil =>
    cases h
    rfl
  | cons c cs ih =>
    cases hstep : s.step c with
    | error e => simp [read_cons, hstep, Except.bind] at h
    | ok middle =>
      simp only [read_cons, hstep, Except.bind] at h
      calc
        s'.offset = middle.offset + byteLength cs := ih h
        _ = s.offset + c.utf8Size + byteLength cs := by rw [offset_of_step hstep]
        _ = s.offset + byteLength (c :: cs) := by simp [byteLength, Nat.add_assoc]

/-- One character is a fault only as a `(` between the arguments of a call. -/
theorem step_eq_error_iff {e : Error} :
    s.step c = .error e ↔ s.place = .arguments ∧ c = '(' ∧ e = .unclosedCall s.offset := by
  fun_cases step s c with
  | case2 hplace hopen => simp [hplace, hopen, eq_comm]
  | case1 quote hplace => simp [hplace]
  | case3 hplace hopen | case4 hplace hopen => simp [hplace, hopen]
  | case5 hplace | case6 hplace | case7 hplace | case8 hplace | case9 hplace | case10 hplace =>
    simp [hplace]

theorem read_append (s : Scanner) (cs cs' : List Char) :
    s.read (cs ++ cs') = (s.read cs).bind fun s' => s'.read cs' :=
  List.foldlM_append

/-- The scanner does not come through a text exactly when a `(` stands between arguments. -/
theorem read_eq_error_iff {e : Error} :
    s.read cs = .error e ↔ ∃ before after s', cs = before ++ '(' :: after ∧
      s.read before = .ok s' ∧ s'.place = .arguments ∧ e = .unclosedCall s'.offset := by
  constructor
  · intro h
    induction cs generalizing s with
    | nil => cases h
    | cons c cs ih =>
      cases hstep : s.step c with
      | error e' =>
        simp only [read_cons, hstep, Except.bind, Except.error.injEq] at h
        subst h
        rcases step_eq_error_iff.1 hstep with ⟨hplace, rfl, he⟩
        exact ⟨[], cs, s, rfl, rfl, hplace, he⟩
      | ok middle =>
        simp only [read_cons, hstep, Except.bind] at h
        rcases ih h with ⟨before, after, s', rfl, hread, hplace, he⟩
        refine ⟨c :: before, after, s', rfl, ?_, hplace, he⟩
        simp [read_cons, hstep, Except.bind, hread]
  · rintro ⟨before, after, s', rfl, hread, hplace, rfl⟩
    have hstep : s'.step '(' = .error (.unclosedCall s'.offset) :=
      step_eq_error_iff.2 ⟨hplace, rfl, rfl⟩
    simp [read_append, hread, Except.bind, read_cons, hstep]

theorem finish_eq_error_iff {e : Error} :
    s.finish = .error e ↔
      (∃ quote, s.place = .quoted quote ∧ e = .unclosedQuote s.offset quote) ∨
      s.place = .arguments ∧ e = .unclosedCall s.offset := by
  fun_cases finish s with
  | case1 hplace => simp [hplace]
  | case2 quote hplace => simp [hplace, eq_comm]
  | case3 hplace => simp [hplace, eq_comm]

/-- A scan fails behind the text or in it. -/
theorem complete_eq_error_iff {e : Error} :
    s.complete cs = .error e ↔
      (∃ s', s.read cs = .ok s' ∧ s'.finish = .error e) ∨ s.read cs = .error e := by
  cases h : s.read cs with
  | error e' => simp [complete, h, Except.bind]
  | ok s' => simp [complete, h, Except.bind]

end Scanner

theorem Token.byteLength_toList (text : String) :
    Token.byteLength text.toList = text.utf8ByteSize := by
  have hcount : ∀ cs, Token.byteLength cs = (String.ofList cs).utf8ByteSize := by
    intro cs
    induction cs with
    | nil => rfl
    | cons c cs ih =>
      rw [String.ofList_cons, String.utf8ByteSize_append, String.utf8ByteSize_singleton, ← ih]
      rfl
  rw [hcount, String.ofList_toList]

/-- The tokens of every text are those of the scanner, and so is the fault.  A quote that is not
closed and arguments that do not end are noticed at the end of the text, and a `(` between
arguments where it stands. -/
theorem tokenize_eq_scan (text : String) :
    tokenize text = Scanner.scan text ∧
    ∀ e, tokenize text = .error e ↔
      (∃ s quote, Scanner.start.read text.toList = .ok s ∧ s.place = .quoted quote ∧
        e = .unclosedQuote text.utf8ByteSize quote) ∨
      (∃ s, Scanner.start.read text.toList = .ok s ∧ s.place = .arguments ∧
        e = .unclosedCall text.utf8ByteSize) ∨
      (∃ before after s, text = before ++ "(" ++ after ∧
        Scanner.start.read before.toList = .ok s ∧ s.place = .arguments ∧
        e = .unclosedCall before.utf8ByteSize) := by
  have hscan : tokenize text = Scanner.scan text := by
    rw [tokenize, Scanner.scan, Scanner.start, Scanner.complete_tokens]
    cases Token.tokens text.toList with
    | error fault => simp [Except.map]
    | ok tokens => simp [Except.map]
  refine ⟨hscan, ?_⟩
  intro e
  have herror : Scanner.scan text = .error e ↔
      Scanner.start.complete text.toList = .error e := by
    cases h : Scanner.start.complete text.toList with
    | error e' => simp [Scanner.scan, h, Except.map]
    | ok tokens => simp [Scanner.scan, h, Except.map]
  have hoffset : ∀ {before : String} {s}, Scanner.start.read before.toList = .ok s →
      s.offset = before.utf8ByteSize := by
    intro before s hread
    simpa [Scanner.start, Token.byteLength_toList] using Scanner.offset_of_read hread
  rw [hscan, herror, Scanner.complete_eq_error_iff]
  constructor
  · rintro (⟨s, hread, hfinish⟩ | hread)
    · rcases Scanner.finish_eq_error_iff.1 hfinish with ⟨quote, hplace, rfl⟩ | ⟨hplace, rfl⟩
      · exact .inl ⟨s, quote, hread, hplace, by rw [hoffset hread]⟩
      · exact .inr (.inl ⟨s, hread, hplace, by rw [hoffset hread]⟩)
    · rcases Scanner.read_eq_error_iff.1 hread with ⟨before, after, s, htext, hbefore, hplace, rfl⟩
      rw [← String.toList_ofList (l := before)] at hbefore
      refine .inr (.inr ⟨String.ofList before, String.ofList after, s, ?_, hbefore, hplace, ?_⟩)
      · apply String.toList_injective
        simpa using htext
      · rw [hoffset hbefore]
  · rintro (⟨s, quote, hread, hplace, rfl⟩ | ⟨s, hread, hplace, rfl⟩ |
      ⟨before, after, s, htext, hread, hplace, rfl⟩)
    · refine .inl ⟨s, hread, Scanner.finish_eq_error_iff.2 (.inl ⟨quote, hplace, ?_⟩)⟩
      rw [hoffset hread]
    · refine .inl ⟨s, hread, Scanner.finish_eq_error_iff.2 (.inr ⟨hplace, ?_⟩)⟩
      rw [hoffset hread]
    · refine .inr (Scanner.read_eq_error_iff.2
        ⟨before.toList, after.toList, s, ?_, hread, hplace, ?_⟩)
      · simp [htext]
      · rw [hoffset hread]

/-- A keyword before a `(`, white space beyond ASCII, a name with all its kinds of characters and a
quote between its arguments; a `(` between arguments, whose place is counted in bytes; a quote that
stays open, whatever is behind it; and arguments that do not end. -/
theorem tokenize_eq_scan_quotes :
    tokenize "aNd(é)\u3000f.G_9('x)y" = .ok ["aNd", "(", "é", ")", "f.G_9('x)", "y"] ∧
    tokenize "é f(g(x))" = .error (.unclosedCall 6) ∧
    tokenize "é 'f(\"" = .error (.unclosedQuote 7 '\x27') ∧
    tokenize "é f('" = .error (.unclosedCall 6) := by
  refine ⟨?_, ?_, ?_, ?_⟩
  · rw [(tokenize_eq_scan _).1]
    rfl
  · rw [(tokenize_eq_scan _).2]
    exact .inr (.inr ⟨"é f(g", "x))", ⟨.arguments, ['f', '(', 'g'], [['é']], 6⟩, rfl, rfl, rfl, rfl⟩)
  · rw [(tokenize_eq_scan _).2]
    exact .inl ⟨⟨.quoted '\x27', ['\x27', 'f', '(', '"'], [['é']], 7⟩, '\x27', rfl, rfl, rfl⟩
  · rw [(tokenize_eq_scan _).2]
    exact .inr (.inl ⟨⟨.arguments, ['f', '(', '\x27'], [['é']], 6⟩, rfl, rfl, rfl⟩)

end Formula
end Eligibility
