import Eligibility.Proofs.Condition
import Eligibility.Proofs.Formula.Items

/-!
# Words — the shapes of a token

A token is a parenthesis, a run of bare characters and quoted segments, or the name of a predicate
with its arguments.  What would end a word stands in a token only behind a quote or among the
arguments of a call.

* `Token.Shape` — the shapes, and `Token.shape_of_mem`;
* `Token.exists_quote_of_run` — what stands in a run although it would end it;
* `Token.getLast?_run` — how a run ends;
* `Token.isCall_of_run`, `Token.isCall_of_arguments` — which of the shapes is a call to the reader;
* `Token.Shape.exists_mark_before_space` — what stands before a space.
-/

namespace Eligibility
namespace Formula
namespace Token

/-- The characters of a token. -/
inductive Shape : List Char → Prop where
  | openGroup : Shape ['(']
  | closeGroup : Shape [')']
  | plain {cs : List Char} (hne : cs ≠ []) (hrun : run none cs = .ok (cs, [])) : Shape cs
  | call {name args : List Char} (hne : name ≠ []) (hname : isCallName name = true)
      (hopen : '(' ∉ args) (hclose : ')' ∉ args) : Shape (name ++ '(' :: (args ++ [')']))

/-! ## Arguments -/

/-- Arguments hold no parenthesis before the one that ends them. -/
theorem exists_of_arguments {cs taken rest : List Char} (h : arguments cs = .ok (taken, rest)) :
    ∃ args, taken = args ++ [')'] ∧ '(' ∉ args ∧ ')' ∉ args := by
  induction cs generalizing taken with
  | nil => cases h
  | cons c cs ih =>
    simp only [arguments] at h
    split at h
    · next hclose =>
      cases h
      exact ⟨[], by simp [hclose], List.not_mem_nil, List.not_mem_nil⟩
    · next hclose =>
      split at h
      · cases h
      · next hopen =>
        rcases consume_eq_ok_iff.1 h with ⟨taken', htaken', rfl⟩
        rcases ih htaken' with ⟨args, rfl, hopens, hcloses⟩
        refine ⟨c :: args, rfl, ?_, ?_⟩
        · exact List.not_mem_cons_of_ne_of_not_mem (Ne.symm hopen) hopens
        · exact List.not_mem_cons_of_ne_of_not_mem (Ne.symm hclose) hcloses

/-! ## Runs -/

/-- A character that would end a run stands in it only behind a quote. -/
theorem exists_quote_of_run {cs taken rest before after : List Char} {c : Char}
    (h : run none cs = .ok (taken, rest)) (htaken : taken = before ++ c :: after)
    (hquote : Condition.isQuote c = false) (hbare : isBare c = false) :
    ∃ quote ∈ before, Condition.isQuote quote = true := by
  induction cs generalizing taken before with
  | nil =>
    cases h
    simp at htaken
  | cons first cs ih =>
    simp only [run] at h
    split at h
    · next hfirst =>
      -- the run opens a segment here, and nothing stood before
      rcases consume_eq_ok_iff.1 h with ⟨taken', _, rfl⟩
      cases before with
      | nil =>
        rw [(List.cons.inj htaken).1, hquote] at hfirst
        cases hfirst
      | cons b before =>
        rw [(List.cons.inj htaken).1] at hfirst
        exact ⟨b, List.mem_cons_self, hfirst⟩
    · split at h
      · next hfirst =>
        rcases consume_eq_ok_iff.1 h with ⟨taken', htaken', rfl⟩
        cases before with
        | nil =>
          rw [(List.cons.inj htaken).1, hbare] at hfirst
          cases hfirst
        | cons b before =>
          rcases ih htaken' (List.cons.inj htaken).2 with ⟨quote, hmem, hq⟩
          exact ⟨quote, List.mem_cons_of_mem b hmem, hq⟩
      · cases h
        simp at htaken

theorem ne_nil_of_run_some {quote : Char} {cs taken rest : List Char}
    (h : run (some quote) cs = .ok (taken, rest)) : taken ≠ [] := by
  cases cs with
  | nil => cases h
  | cons c cs =>
    rcases consume_eq_ok_iff.1 h with ⟨taken', _, rfl⟩
    exact List.cons_ne_nil c taken'

/-- A run ends in a bare character or in the quote that closes its last segment. -/
theorem getLast?_run {quote : Option Char} {cs taken rest : List Char}
    (hquote : ∀ q ∈ quote, Condition.isQuote q = true) (h : run quote cs = .ok (taken, rest)) :
    ∀ c ∈ taken.getLast?, Condition.isQuote c = true ∨ isBare c = true := by
  induction cs generalizing quote taken with
  | nil =>
    cases quote with
    | none =>
      cases h
      simp
    | some quote => cases h
  | cons first cs ih =>
    -- the first character counts when it is the only one, and then no segment is open behind it
    have hcons : ∀ {next : Option Char} {taken' : List Char},
        (∀ q ∈ next, Condition.isQuote q = true) → run next cs = .ok (taken', rest) →
        (next = none → Condition.isQuote first = true ∨ isBare first = true) →
        ∀ c ∈ (first :: taken').getLast?, Condition.isQuote c = true ∨ isBare c = true := by
      intro next taken' hnext hrest hfirst c hc
      cases hlast : taken'.getLast? with
      | some last =>
        rw [List.getLast?_cons, hlast] at hc
        exact ih hnext hrest c (hlast ▸ hc)
      | none =>
        rw [List.getLast?_cons, hlast] at hc
        cases hc
        cases next with
        | none => exact hfirst rfl
        | some q => exact absurd (List.getLast?_eq_none_iff.1 hlast) (ne_nil_of_run_some hrest)
    cases quote with
    | some quote =>
      rcases consume_eq_ok_iff.1 h with ⟨taken', htaken', rfl⟩
      have hq := hquote quote rfl
      refine hcons ?_ htaken' ?_
      · intro q hmem
        split at hmem
        · cases hmem
        · cases hmem
          exact hq
      · intro hnone
        split at hnone
        · next hclose => exact .inl (hclose ▸ hq)
        · cases hnone
    | none =>
      simp only [run] at h
      split at h
      · next hfirst =>
        rcases consume_eq_ok_iff.1 h with ⟨taken', htaken', rfl⟩
        refine hcons ?_ htaken' fun _ => .inl hfirst
        rintro q hmem
        cases hmem
        exact hfirst
      · split at h
        · next hfirst =>
          rcases consume_eq_ok_iff.1 h with ⟨taken', htaken', rfl⟩
          exact hcons (by simp) htaken' fun _ => .inr hfirst
        · cases h
          simp

/-! ## Tokens -/

theorem shape_of_word {c : Char} {cs taken rest : List Char} (hc : StartsWord c)
    (h : word (c :: cs) = .ok (taken, rest)) : Shape taken := by
  rcases word_cases h with ⟨hrun, _⟩ | ⟨head, inner, args, hrun, hname, hargs, rfl⟩
  · exact .plain (run_ne_nil hc.quote_or_bare hrun) (run_taken hrun)
  · rcases exists_of_arguments hargs with ⟨args', rfl, hopen, hclose⟩
    exact .call (run_ne_nil hc.quote_or_bare hrun) hname hopen hclose

theorem shape_of_mem {cs token : List Char} {ts : List (List Char)} (h : tokens cs = .ok ts)
    (htoken : token ∈ ts) : Shape token := by
  rcases parenthesis_or_word_of_mem h htoken with
    ⟨_, rfl | rfl, rfl⟩ | ⟨c, inner, rest, hc, hword⟩
  · exact .openGroup
  · exact .closeGroup
  · exact shape_of_word hc hword

/-- Only a call ends in a `)` that is no token of its own. -/
theorem isCall_of_run {cs : List Char} (h : run none cs = .ok (cs, [])) :
    Reduction.isCall cs = false := by
  have hlast : cs.getLast? ≠ some ')' := by
    intro hclose
    rcases getLast?_run (by simp) h ')' hclose with hquote | hbare
    · exact absurd hquote (by decide)
    · exact absurd hbare (by decide)
  simp [Reduction.isCall, hlast]

theorem isCall_of_arguments (name args : List Char) :
    Reduction.isCall (name ++ '(' :: (args ++ [')'])) = true := by
  have hlength : 1 < (name ++ '(' :: (args ++ [')'])).length := by
    simp only [List.length_append, List.length_cons, List.length_nil]
    omega
  simp only [Reduction.isCall, hlength]
  simp [List.getLast?_cons]

theorem not_mem_of_isCallName {name : List Char} (h : isCallName name = true) {c : Char}
    (hc : Text.isNameChar c = false) : c ∉ name := by
  intro hmem
  rw [isCallName, Bool.and_eq_true, List.all_eq_true] at h
  rw [h.2 c hmem] at hc
  cases hc

/-- A space stands in a token only behind a quote or behind the `(` of a call. -/
theorem Shape.exists_mark_before_space {token before after : List Char} (h : Shape token)
    (htoken : token = before ++ ' ' :: after) :
    ∃ mark ∈ before, Condition.isQuote mark = true ∨ mark = '(' := by
  cases h with
  | openGroup | closeGroup =>
    have hmem : ' ' ∈ before ++ ' ' :: after := by simp
    rw [← htoken] at hmem
    exact absurd hmem (by decide)
  | plain hne hrun =>
    rcases exists_quote_of_run hrun htoken (by decide) (by decide) with ⟨quote, hmem, hquote⟩
    exact ⟨quote, hmem, .inl hquote⟩
  | @call name args hne hname hopen hclose =>
    have hspace : ' ' ∉ name := not_mem_of_isCallName hname (by decide)
    rcases Condition.append_cons_cases htoken with ⟨_, hmark, _⟩ | ⟨inner, rfl⟩ | ⟨inner, rfl⟩
    · exact absurd hmark (by decide)
    · simp at hspace
    · exact ⟨'(', by simp, .inr rfl⟩

end Token
end Formula
end Eligibility
