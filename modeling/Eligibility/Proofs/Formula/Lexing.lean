import Eligibility.Formula.Token

/-!
# Lexing — tokens do not depend on what stands around them

A word ends at a blank, at a parenthesis or at the end of the text, except that the name of a
predicate takes what follows a `(`.  Hence the tokens of a text stay the same when it is put in
front of a blank or of a `)`, and every token is its own only token.

* `Token.EndsWord` — the texts that no word reaches into;
* `Token.word_cases` — the two ways to read a word;
* `Token.tokens_append` — the tokens of a text in front of another one;
* `Token.tokens_of_mem` — the tokens of a token;
* `Token.tokens_spaced`, `Token.tokens_group` — texts put together by a space or by parentheses;
* `Token.tokens_bare`, `Token.tokens_quoted` — plain words and quoted texts as tokens;
* `Token.isBare_of_ofWord?` — a keyword is a plain word;
* `HasTokens` — the same on strings.
-/

namespace Eligibility
namespace Formula
namespace Token

/-- A text that no word in front of it reaches into. -/
def EndsWord : List Char → Prop
  | [] => True
  | c :: _ => Text.isBlank c = true ∨ c = ')'

/-- A text at which a run of bare characters and quoted segments stops. -/
def StopsRun : List Char → Prop
  | [] => True
  | c :: _ => Condition.isQuote c = false ∧ isBare c = false

theorem endsWord_blank {c : Char} (h : Text.isBlank c = true) (cs : List Char) :
    EndsWord (c :: cs) :=
  .inl h

theorem endsWord_close (cs : List Char) : EndsWord (')' :: cs) :=
  .inr rfl

theorem isQuote_eq_true {c : Char} (h : Condition.isQuote c = true) : c = '"' ∨ c = '\x27' := by
  simpa [Condition.isQuote] using h

theorem EndsWord.stopsRun {cs : List Char} (h : EndsWord cs) : StopsRun cs := by
  cases cs with
  | nil => trivial
  | cons c rest =>
    rcases h with hblank | rfl
    · -- a blank is no bare character, and neither of the quotes is a blank
      refine ⟨?_, by simp [isBare, hblank]⟩
      cases hquote : Condition.isQuote c with
      | false => rfl
      | true =>
        rcases isQuote_eq_true hquote with rfl | rfl
        · exact absurd hblank (by decide)
        · exact absurd hblank (by decide)
    · exact ⟨by decide, by decide⟩

/-! ## Runs -/

theorem run_none_of_stopsRun {cs : List Char} (h : StopsRun cs) : run none cs = .ok ([], cs) := by
  cases cs with
  | nil => rfl
  | cons c rest =>
    rcases h with ⟨hquote, hbare⟩
    simp [run, hquote, hbare]

/-- A run takes the same once more in front of any text at which runs stop. -/
theorem run_again {quote : Option Char} {cs taken rest after : List Char}
    (h : run quote cs = .ok (taken, rest)) (hafter : StopsRun after) :
    run quote (taken ++ after) = .ok (taken, after) := by
  induction cs generalizing quote taken with
  | nil =>
    cases quote with
    | none =>
      cases h
      exact run_none_of_stopsRun hafter
    | some quote => cases h
  | cons c cs ih =>
    cases quote with
    | some quote =>
      obtain ⟨taken', h', rfl⟩ := consume_eq_ok_iff.1 h
      exact consume_eq_ok_iff.2 ⟨taken', ih h', rfl⟩
    | none =>
      by_cases hquote : Condition.isQuote c = true
      · simp only [run, hquote, if_true] at h
        obtain ⟨taken', h', rfl⟩ := consume_eq_ok_iff.1 h
        simp only [run, List.cons_append, hquote, if_true]
        exact consume_eq_ok_iff.2 ⟨taken', ih h', rfl⟩
      · by_cases hbare : isBare c = true
        · simp only [run, hquote, hbare, if_true] at h
          obtain ⟨taken', h', rfl⟩ := consume_eq_ok_iff.1 h
          simp only [run, List.cons_append, hquote, hbare, if_true]
          exact consume_eq_ok_iff.2 ⟨taken', ih h', rfl⟩
        · -- the run stops at `c` and takes nothing
          simp only [run, hquote, hbare] at h
          cases h
          exact run_none_of_stopsRun hafter

theorem stopsRun_of_run {quote : Option Char} {cs taken rest : List Char}
    (h : run quote cs = .ok (taken, rest)) : StopsRun rest := by
  -- the open quote changes on the way, so the induction is for every `quote`
  induction cs generalizing quote taken with
  | nil =>
    cases quote with
    | none =>
      cases h
      trivial
    | some quote => cases h
  | cons c cs ih =>
    cases quote with
    | some quote =>
      obtain ⟨taken', h', rfl⟩ := consume_eq_ok_iff.1 h
      exact ih h'
    | none =>
      cases hquote : Condition.isQuote c with
      | true =>
        simp only [run, hquote, if_true] at h
        obtain ⟨taken', h', rfl⟩ := consume_eq_ok_iff.1 h
        exact ih h'
      | false =>
        cases hbare : isBare c with
        | true =>
          simp only [run, hquote, hbare, Bool.false_eq_true, if_false, if_true] at h
          obtain ⟨taken', h', rfl⟩ := consume_eq_ok_iff.1 h
          exact ih h'
        | false =>
          simp only [run, hquote, hbare, Bool.false_eq_true, if_false] at h
          cases h
          exact ⟨hquote, hbare⟩

theorem StopsRun.append {cs after : List Char} (h : StopsRun cs) (hafter : StopsRun after) :
    StopsRun (cs ++ after) := by
  cases cs with
  | nil => exact hafter
  | cons c cs => exact h

/-- A run does not see what stands behind the place where it stops. -/
theorem run_append_rest {quote : Option Char} {cs taken rest after : List Char}
    (h : run quote cs = .ok (taken, rest)) (hafter : StopsRun after) :
    run quote (cs ++ after) = .ok (taken, rest ++ after) := by
  rw [run_append h, List.append_assoc]
  exact run_again h ((stopsRun_of_run h).append hafter)

/-- What a run takes is a run that goes to the end. -/
theorem run_taken {quote : Option Char} {cs taken rest : List Char}
    (h : run quote cs = .ok (taken, rest)) : run quote taken = .ok (taken, []) := by
  have hend : StopsRun [] := trivial
  have hagain := run_again h hend
  rwa [List.append_nil] at hagain

theorem run_bare {cs : List Char} (h : ∀ c ∈ cs, isBare c = true) : run none cs = .ok (cs, []) := by
  induction cs with
  | nil => rfl
  | cons c cs ih =>
    have hbare := h c (by simp)
    have hquote : Condition.isQuote c = false := by
      simp only [isBare, Bool.not_eq_true', Bool.or_eq_false_iff] at hbare
      exact hbare.2
    have hrest := ih fun c' hc' => h c' (by simp [hc'])
    simp [run, hquote, hbare, hrest, consume]

theorem run_quoted {quote : Char} {cs : List Char} (h : quote ∉ cs) :
    run (some quote) (cs ++ [quote]) = .ok (cs ++ [quote], []) := by
  induction cs with
  | nil => simp [run, consume]
  | cons c cs ih =>
    have hne : c ≠ quote := by
      rintro rfl
      simp at h
    have hrest := ih fun hmem => h (by simp [hmem])
    simp [run, hne, hrest, consume]

/-! ## Arguments -/

/-- Arguments end at their `)`, whatever follows. -/
theorem arguments_again {cs taken rest : List Char} (h : arguments cs = .ok (taken, rest))
    (after : List Char) : arguments (taken ++ after) = .ok (taken, after) := by
  induction cs generalizing taken with
  | nil => cases h
  | cons c cs ih =>
    by_cases hclose : c = ')'
    · simp only [arguments, hclose, if_true] at h
      cases h
      rfl
    · by_cases hopen : c = '('
      · simp [arguments, hopen] at h
      · simp only [arguments, hclose, hopen, if_false] at h
        obtain ⟨taken', h', rfl⟩ := consume_eq_ok_iff.1 h
        simp only [arguments, List.cons_append, hclose, hopen, if_false]
        exact consume_eq_ok_iff.2 ⟨taken', ih h', rfl⟩

theorem arguments_append_rest {cs taken rest : List Char} (h : arguments cs = .ok (taken, rest))
    (after : List Char) : arguments (cs ++ after) = .ok (taken, rest ++ after) := by
  rw [arguments_append h, List.append_assoc]
  exact arguments_again h (rest ++ after)

theorem arguments_taken {cs taken rest : List Char} (h : arguments cs = .ok (taken, rest)) :
    arguments taken = .ok (taken, []) := by
  have hagain := arguments_again h []
  rwa [List.append_nil] at hagain

/-! ## Words -/

/-- A run that takes no arguments is a word. -/
theorem word_of_run {cs taken rest : List Char} (hrun : run none cs = .ok (taken, rest))
    (hplain : ∀ inner, rest = '(' :: inner → isCallName taken = false) :
    word cs = .ok (taken, rest) := by
  cases rest with
  | nil => simp [word, hrun]
  | cons c inner =>
    by_cases hopen : c = '('
    · subst hopen
      simp [word, hrun, hplain inner rfl]
    · simp [word, hrun, hopen]

/-- A run that names a predicate is a word together with its arguments. -/
theorem word_of_call {cs head inner args rest : List Char}
    (hrun : run none cs = .ok (head, '(' :: inner)) (hname : isCallName head = true)
    (hargs : arguments inner = .ok (args, rest)) : word cs = .ok (head ++ '(' :: args, rest) := by
  simp [word, hrun, hname, hargs]

/-- These are the only words. -/
theorem word_cases {cs taken rest : List Char} (h : word cs = .ok (taken, rest)) :
    (run none cs = .ok (taken, rest) ∧ ∀ inner, rest = '(' :: inner → isCallName taken = false) ∨
      ∃ head inner args, run none cs = .ok (head, '(' :: inner) ∧ isCallName head = true ∧
        arguments inner = .ok (args, rest) ∧ taken = head ++ '(' :: args := by
  unfold word at h
  cases hrun : run none cs with
  | error fault => simp [hrun] at h
  | ok result =>
    rcases result with ⟨head, after⟩
    cases after with
    | nil =>
      simp only [hrun, Except.ok.injEq, Prod.mk.injEq] at h
      rcases h with ⟨rfl, rfl⟩
      exact .inl ⟨rfl, by simp⟩
    | cons c inner =>
      by_cases hcall : (c = '(' && isCallName head) = true
      · simp only [hrun, hcall, if_true] at h
        simp only [Bool.and_eq_true, decide_eq_true_eq] at hcall
        rcases hcall with ⟨rfl, hname⟩
        cases hargs : arguments inner with
        | error fault => simp [hargs] at h
        | ok result =>
          rcases result with ⟨args, rest'⟩
          simp only [hargs, Except.ok.injEq, Prod.mk.injEq] at h
          rcases h with ⟨rfl, rfl⟩
          exact .inr ⟨head, inner, args, rfl, hname, hargs, rfl⟩
      · simp only [hrun, hcall, Bool.false_eq_true, if_false, Except.ok.injEq, Prod.mk.injEq] at h
        rcases h with ⟨rfl, rfl⟩
        refine .inl ⟨rfl, ?_⟩
        intro inner' hinner
        cases hinner
        simpa using hcall

theorem word_append_rest {cs taken rest after : List Char} (h : word cs = .ok (taken, rest))
    (hafter : EndsWord after) : word (cs ++ after) = .ok (taken, rest ++ after) := by
  -- a plain run must not find a `(` behind it now; a call has its arguments already
  rcases word_cases h with ⟨hrun, hplain⟩ | ⟨head, inner, args, hrun, hname, hargs, rfl⟩
  · refine word_of_run (run_append_rest hrun hafter.stopsRun) ?_
    intro inner hinner
    cases rest with
    | nil =>
      -- what follows the word is `after`, which starts with no `(`
      rw [List.nil_append] at hinner
      subst hinner
      rcases hafter with hblank | hclose
      · exact absurd hblank (by decide)
      · exact absurd hclose (by decide)
    | cons c rest =>
      rw [List.cons_append, List.cons.injEq] at hinner
      exact hplain rest (by rw [hinner.1])
  · have hrun' := run_append_rest hrun hafter.stopsRun
    exact word_of_call hrun' hname (arguments_append_rest hargs after)

/-- A word is a text with nothing but itself to read. -/
theorem word_taken {cs taken rest : List Char} (h : word cs = .ok (taken, rest)) :
    word taken = .ok (taken, []) := by
  rcases word_cases h with ⟨hrun, _⟩ | ⟨head, inner, args, hrun, hname, hargs, rfl⟩
  · exact word_of_run (run_taken hrun) (by simp)
  · -- the run of the name ends again before the `(` of the arguments
    have hopen : StopsRun ('(' :: args) := ⟨by decide, by decide⟩
    have hrun' := run_append_rest (run_taken hrun) hopen
    exact word_of_call hrun' hname (arguments_taken hargs)

/-! ## Tokens -/

/-- A character at the head of a word. -/
def StartsWord (c : Char) : Prop :=
  Text.isBlank c = false ∧ c ≠ '(' ∧ c ≠ ')'

theorem startsWord_of_not {c : Char} (hblank : ¬ Text.isBlank c = true)
    (hparen : ¬ (c = '(' ∨ c = ')')) : StartsWord c := by
  rw [not_or] at hparen
  exact ⟨by simpa using hblank, hparen.1, hparen.2⟩

theorem StartsWord.quote_or_bare {c : Char} (h : StartsWord c) :
    Condition.isQuote c = true ∨ isBare c = true := by
  rcases h with ⟨hblank, hopen, hclose⟩
  cases hquote : Condition.isQuote c with
  | true => exact .inl rfl
  | false => exact .inr (by simp [isBare, hblank, hopen, hclose, hquote])

theorem prepend_eq_map (token : List Char) (result : Except Fault (List (List Char))) :
    prepend token result = result.map (token :: ·) := by
  cases result with
  | error fault => rfl
  | ok tokens => rfl

theorem tokens_blank {c : Char} (h : Text.isBlank c = true) (cs : List Char) :
    tokens (c :: cs) = tokens cs := by
  rw [tokens]
  simp [h]

theorem tokens_parenthesis {c : Char} (h : c = '(' ∨ c = ')') (cs : List Char) :
    tokens (c :: cs) = (tokens cs).map ([c] :: ·) := by
  have hblank : Text.isBlank c = false := by
    rcases h with rfl | rfl
    · decide
    · decide
  rw [tokens]
  simp [h, hblank, prepend_eq_map]

theorem tokens_word {c : Char} {cs taken rest : List Char} (hc : StartsWord c)
    (h : word (c :: cs) = .ok (taken, rest)) :
    tokens (c :: cs) = (tokens rest).map (taken :: ·) := by
  rcases hc with ⟨hblank, hopen, hclose⟩
  rw [tokens]
  simp only [hblank, hopen, hclose, or_self, dite_false, Bool.false_eq_true, if_false]
  split
  · rename_i hword
    rw [h] at hword
    cases hword
  · rename_i hword
    rw [h] at hword
    cases hword
    exact prepend_eq_map _ _

theorem prepend_eq_ok_iff {token : List Char} {result : Except Fault (List (List Char))}
    {ts : List (List Char)} :
    prepend token result = .ok ts ↔ ∃ rest, result = .ok rest ∧ ts = token :: rest := by
  cases result with
  | error fault => simp [prepend]
  | ok tokens => simp [prepend, eq_comm]

/-- Tokens do not see what stands behind a place where no word goes on. -/
theorem tokens_append {cs after : List Char} {ts : List (List Char)} (h : tokens cs = .ok ts)
    (hafter : EndsWord after) : tokens (cs ++ after) = (tokens after).map (ts ++ ·) := by
  -- only the last word of `cs` touches `after`, but the induction meets every word the same way
  fun_induction tokens cs generalizing ts with
  | case1 =>
    cases h
    rw [List.nil_append]
    cases tokens after with
    | error fault => rfl
    | ok rest => rfl
  | case2 c cs hblank ih =>
    rw [List.cons_append, tokens_blank hblank, ih h]
  | case3 c cs hblank hparen ih =>
    rcases prepend_eq_ok_iff.1 h with ⟨ts', hts', rfl⟩
    rw [List.cons_append, tokens_parenthesis hparen, ih hts']
    cases tokens after with
    | error fault => rfl
    | ok rest => rfl
  | case4 c cs hblank hparen fault hword => cases h
  | case5 c cs hblank hparen taken rest hword ih =>
    rcases prepend_eq_ok_iff.1 h with ⟨ts', hts', rfl⟩
    have hc := startsWord_of_not hblank hparen
    have hword' : word (c :: (cs ++ after)) = .ok (taken, rest ++ after) :=
      word_append_rest hword hafter
    rw [List.cons_append, tokens_word hc hword', ih hts']
    cases tokens after with
    | error fault => rfl
    | ok rest => rfl

/-- A token is a parenthesis, or else a word that was read somewhere in the text. -/
theorem parenthesis_or_word_of_mem {cs token : List Char} {ts : List (List Char)}
    (h : tokens cs = .ok ts) (htoken : token ∈ ts) :
    (∃ c, (c = '(' ∨ c = ')') ∧ token = [c]) ∨
      ∃ c inner rest, StartsWord c ∧ word (c :: inner) = .ok (token, rest) := by
  fun_induction tokens cs generalizing ts with
  | case1 =>
    cases h
    cases htoken
  | case2 c cs hblank ih => exact ih h htoken
  | case3 c cs hblank hparen ih =>
    rcases prepend_eq_ok_iff.1 h with ⟨ts', hts', rfl⟩
    rcases List.mem_cons.1 htoken with rfl | hmem
    · exact .inl ⟨c, hparen, rfl⟩
    · exact ih hts' hmem
  | case4 c cs hblank hparen fault hword => cases h
  | case5 c cs hblank hparen taken rest hword ih =>
    rcases prepend_eq_ok_iff.1 h with ⟨ts', hts', rfl⟩
    rcases List.mem_cons.1 htoken with rfl | hmem
    · exact .inr ⟨c, cs, rest, startsWord_of_not hblank hparen, hword⟩
    · exact ih hts' hmem

/-- A token is a text with nothing but itself to read. -/
theorem tokens_of_mem {cs token : List Char} {ts : List (List Char)} (h : tokens cs = .ok ts)
    (htoken : token ∈ ts) : tokens token = .ok [token] := by
  rcases parenthesis_or_word_of_mem h htoken with ⟨c, hparen, rfl⟩ | ⟨c, inner, rest, hc, hword⟩
  · rw [tokens_parenthesis hparen, tokens]
    rfl
  · have hne := word_ne_nil hc.quote_or_bare hword
    have happend := word_append hword
    have hself := word_taken hword
    -- the token starts with the character that the word started with
    cases token with
    | nil => exact absurd rfl hne
    | cons c' token' =>
      have hhead : c = c' := (List.cons.inj happend).1
      subst hhead
      rw [tokens_word hc hself, tokens]
      rfl

/-! ## Texts put together -/

theorem tokens_spaced {cs cs' : List Char} {ts ts' : List (List Char)} (h : tokens cs = .ok ts)
    (h' : tokens cs' = .ok ts') : tokens (cs ++ ' ' :: cs') = .ok (ts ++ ts') := by
  have hspace : Text.isBlank ' ' = true := by decide
  rw [tokens_append h (endsWord_blank hspace cs'), tokens_blank hspace, h']
  rfl

theorem tokens_group {cs : List Char} {ts : List (List Char)} (h : tokens cs = .ok ts) :
    tokens ('(' :: (cs ++ [')'])) = .ok (['('] :: (ts ++ [[')']])) := by
  have hclose : tokens [')'] = .ok [[')']] := by
    rw [tokens_parenthesis (.inr rfl), tokens]
    rfl
  rw [tokens_parenthesis (.inl rfl), tokens_append h (endsWord_close []), hclose]
  rfl

/-- A run that goes to the end of a text is its only token. -/
theorem tokens_of_run {c : Char} {cs : List Char} (hc : StartsWord c)
    (h : run none (c :: cs) = .ok (c :: cs, [])) : tokens (c :: cs) = .ok [c :: cs] := by
  rw [tokens_word hc (word_of_run h (by simp)), tokens]
  rfl

theorem startsWord_of_isBare {c : Char} (h : isBare c = true) : StartsWord c := by
  simp only [isBare, Bool.not_eq_true', Bool.or_eq_false_iff] at h
  rcases h with ⟨⟨⟨hblank, hopen⟩, hclose⟩, _⟩
  exact ⟨hblank, by simpa using hopen, by simpa using hclose⟩

theorem tokens_bare {cs : List Char} (hne : cs ≠ []) (h : ∀ c ∈ cs, isBare c = true) :
    tokens cs = .ok [cs] := by
  cases cs with
  | nil => exact absurd rfl hne
  | cons c cs =>
    have hc := startsWord_of_isBare (h c (by simp))
    exact tokens_of_run hc (run_bare h)

theorem tokens_quoted {quote : Char} {cs : List Char} (hquote : Condition.isQuote quote = true)
    (h : quote ∉ cs) : tokens (quote :: (cs ++ [quote])) = .ok [quote :: (cs ++ [quote])] := by
  have hc : StartsWord quote := by
    rcases isQuote_eq_true hquote with rfl | rfl
    · exact ⟨by decide, by decide, by decide⟩
    · exact ⟨by decide, by decide, by decide⟩
  have hrun : run none (quote :: (cs ++ [quote])) = .ok (quote :: (cs ++ [quote]), []) := by
    simp [run, hquote, run_quoted h, consume]
  exact tokens_of_run hc hrun

/-! ## Keywords -/

theorem isBare_of_isUpper {c : Char} (h : c.isUpper = true) : isBare c = true := by
  have hcode : 65 ≤ c.toNat ∧ c.toNat ≤ 90 := by
    have hrange : c.val ≥ 'A'.val ∧ c.val ≤ 'Z'.val := of_decide_eq_true h
    simpa [UInt32.le_iff_toNat_le] using hrange
  have hblank : Text.isBlank c = false := by
    simp only [Text.isBlank, Text.inRanges, Text.blankRanges, List.any_cons, List.any_nil,
      Bool.or_false, Bool.or_eq_false_iff, Bool.and_eq_false_iff, decide_eq_false_iff_not]
    omega
  have hne : ∀ mark : Char, mark.toNat < 65 → (c == mark) = false := by
    intro mark hmark
    refine beq_eq_false_iff_ne.2 ?_
    rintro rfl
    omega
  simp [isBare, Condition.isQuote, hblank, hne]

theorem isBare_of_toLower {c : Char} (h : isBare c.toLower = true) : isBare c = true := by
  cases hupper : c.isUpper with
  | true => exact isBare_of_isUpper hupper
  | false =>
    have hsame : c.toLower = c := dif_neg (of_decide_eq_false hupper)
    rwa [hsame] at h

/-- A keyword is a plain word, whatever the case of its letters. -/
theorem isBare_of_ofWord? {cs : List Char} {op : Connective}
    (h : Connective.ofWord? cs = some op) : ∀ c ∈ cs, isBare c = true := by
  have hlower : ∀ c ∈ Text.lower cs, isBare c = true := by
    rw [← List.all_eq_true]
    unfold Connective.ofWord? at h
    split at h
    · next hand =>
      rw [hand]
      decide
    · split at h
      · next hor =>
        rw [hor]
        decide
      · cases h
  intro c hc
  have hmem : c.toLower ∈ Text.lower cs := List.mem_map_of_mem hc
  exact isBare_of_toLower (hlower _ hmem)

end Token

/-! ## Texts as strings -/

/-- The tokens of a text are the given ones. -/
def HasTokens (text : String) (tokens : List String) : Prop :=
  Token.tokens text.toList = .ok (tokens.map String.toList)

theorem tokenize_of_hasTokens {text : String} {tokens : List String} (h : HasTokens text tokens) :
    tokenize text = .ok tokens := by
  have hmap : (tokens.map String.toList).map String.ofList = tokens := by
    simp [Function.comp_def]
  rw [tokenize, h]
  exact congrArg Except.ok hmap

theorem hasTokens_of_tokenize {text : String} {tokens : List String}
    (h : tokenize text = .ok tokens) : HasTokens text tokens := by
  unfold tokenize at h
  cases hread : Token.tokens text.toList with
  | error fault =>
    rw [hread] at h
    cases h
  | ok ts =>
    rw [hread] at h
    cases h
    simp [HasTokens, hread, Function.comp_def]

theorem hasTokens_spaced {text text' : String} {tokens tokens' : List String}
    (h : HasTokens text tokens) (h' : HasTokens text' tokens') :
    HasTokens (text ++ " " ++ text') (tokens ++ tokens') := by
  have hspaced := Token.tokens_spaced h h'
  simpa [HasTokens] using hspaced

theorem hasTokens_group {text : String} {tokens : List String} (h : HasTokens text tokens) :
    HasTokens ("(" ++ text ++ ")") ("(" :: (tokens ++ [")"])) := by
  have hgroup := Token.tokens_group h
  simpa [HasTokens] using hgroup

theorem hasTokens_bare {text : String} (hne : text ≠ "")
    (hbare : ∀ c ∈ text.toList, Token.isBare c = true) : HasTokens text [text] := by
  have hne' : text.toList ≠ [] := by simpa using hne
  exact Token.tokens_bare hne' hbare

theorem hasTokens_quoted {quote : Char} {content : String}
    (hquote : Condition.isQuote quote = true) (h : quote ∉ content.toList) :
    HasTokens (String.ofList (quote :: (content.toList ++ [quote])))
      [String.ofList (quote :: (content.toList ++ [quote]))] := by
  have htokens := Token.tokens_quoted hquote h
  simpa [HasTokens] using htokens

/-- A keyword in any letter case is one token. -/
theorem hasTokens_of_ofWord? {keyword : String} {op : Connective}
    (h : Connective.ofWord? keyword.toList = some op) : HasTokens keyword [keyword] := by
  have hne : keyword ≠ "" := by
    rintro rfl
    cases h
  exact hasTokens_bare hne (Token.isBare_of_ofWord? h)

theorem hasTokens_keyword (op : Connective) : HasTokens op.keyword [op.keyword] :=
  hasTokens_of_ofWord? (Connective.ofWord?_keyword op)

end Formula
end Eligibility
