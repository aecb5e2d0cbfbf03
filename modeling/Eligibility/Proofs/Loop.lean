/-!
# Loop — the rounds of a loop and what they come to

A loop is given by its round: from the state in which a round starts, either the state of the next
round or the result of the loop.

* `Loop.Round` — what a round comes to;
* `Loop.Passes`, `Loop.after` — the states in which a round starts, and one of them by its number;
* `Loop.Ends` — the loop is over after a number of rounds, with a result;
* `Loop.exists_ends` — a loop with a measure that goes down is over, and has the result that it
  had ahead all the time.
-/

namespace Eligibility
namespace Loop

/-- What a round comes to. -/
inductive Round (σ α : Type) where
  | next (state : σ)
  | done (result : α)
deriving DecidableEq, Repr

variable {σ α : Type} {round : σ → Round σ α}

/-- The result after a round, when the one that lies ahead of each state is given. -/
def Round.result (ahead : σ → α) : Round σ α → α
  | next state => ahead state
  | done result => result

/-- The states that a loop comes to before a round, its first state included. -/
inductive Passes (round : σ → Round σ α) (first : σ) : σ → Prop where
  | first : Passes round first first
  | next {s s' : σ} (h : Passes round first s) (hround : round s = .next s') :
      Passes round first s'

/-- The state after a number of rounds, unless the loop is over by then. -/
def after (round : σ → Round σ α) : Nat → σ → Option σ
  | 0, s => some s
  | rounds + 1, s =>
    match round s with
    | .next s' => after round rounds s'
    | .done _ => none

theorem Passes.after {first s s' : σ} {rounds : Nat} (h : Passes round first s)
    (hafter : after round rounds s = some s') : Passes round first s' := by
  induction rounds generalizing s with
  | zero => exact Option.some.inj hafter ▸ h
  | succ rounds ih =>
    rw [Loop.after] at hafter
    split at hafter
    · next s₁ hround => exact ih (h.next hround) hafter
    · cases hafter

/-- The loop is over after the given number of rounds, and this is its result. -/
inductive Ends (round : σ → Round σ α) : Nat → σ → α → Prop where
  | done {s : σ} {result : α} (hround : round s = .done result) : Ends round 0 s result
  | next {rounds : Nat} {s s' : σ} {result : α} (hround : round s = .next s')
      (h : Ends round rounds s' result) : Ends round (rounds + 1) s result

/-- A loop whose measure goes down in every round is over after at most as many rounds, and its
result is the one that lies ahead, if no round changes that. -/
theorem exists_ends {ahead : σ → α} {measure : σ → Nat}
    (hahead : ∀ s, (round s).result ahead = ahead s)
    (hmeasure : ∀ s s', round s = .next s' → measure s' < measure s) (s : σ) :
    ∃ rounds, rounds ≤ measure s ∧ Ends round rounds s (ahead s) := by
  -- on the measure, as the states themselves are of any kind
  generalize hbound : measure s = bound
  induction bound using Nat.strongRecOn generalizing s with
  | ind bound ih =>
    have hs := hahead s
    cases hround : round s with
    | done result =>
      rw [hround, Round.result] at hs
      exact ⟨0, Nat.zero_le bound, .done (hs ▸ hround)⟩
    | next s' =>
      rw [hround, Round.result] at hs
      have hlt := hmeasure s s' hround
      rw [hbound] at hlt
      rcases ih (measure s') hlt s' rfl with ⟨rounds, hle, hends⟩
      exact ⟨rounds + 1, Nat.lt_of_le_of_lt hle hlt, hs ▸ .next hround hends⟩

end Loop
end Eligibility
