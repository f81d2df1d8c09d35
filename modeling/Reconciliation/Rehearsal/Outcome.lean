import Reconciliation.Party

/-!
# Outcomes of rehearsed steps

A rehearsal is a scripted run on a single thread, with a virtual clock: the steps are done in
order, and after each of them everybody acts until nobody can.  A step that calls somebody is
known by its position, and so is the party that calls.  `Outcome` says which calls were
answered during a step: the step's own call, or earlier ones that were still open.
-/

namespace Reconciliation.Rehearsal

/-- The answers given during one step. -/
structure Outcome (ρ : Type) where
  /-- The answer to the step's own call, if the call is over. -/
  result : Option ρ
  /-- The answers to earlier calls, with their positions, in that order. -/
  resolved : List (Nat × ρ)
  deriving DecidableEq, Repr

/-- The outcome of the step at a position, from the answers given during it. -/
def Outcome.ofAnswers {ρ : Type} (position : Nat) (answers : List (Nat × ρ)) : Outcome ρ :=
  { result := answers.lookup position
    resolved := (answers.filter (fun a => a.1 != position)).mergeSort (fun a b => a.1 ≤ b.1) }

/-- An answer for the caller of that position, if the party is a caller. -/
def answerTo {ρ : Type} (party : Party) (answer : ρ) : List (Nat × ρ) :=
  match party with
  | .caller n => [(n, answer)]
  | .keeper _ => []
  | .body _ => []
  | .worker _ => []

/-- The outcomes of steps, each with its position. -/
def play {σ τ ω : Type} (step : σ → Nat → τ → σ × ω) (start : σ) (steps : List τ) : List ω :=
  go start 0 steps
where
  go (s : σ) (position : Nat) : List τ → List ω
    | [] => []
    | t :: steps =>
      let (s, outcome) := step s position t
      outcome :: go s (position + 1) steps

end Reconciliation.Rehearsal
