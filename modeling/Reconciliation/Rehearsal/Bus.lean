import Reconciliation.Bus
import Reconciliation.Rehearsal.Outcome
import Reconciliation.System

/-!
# Rehearsals of the bus

Scripted runs of a notice bus with any number of publishers and takers.
-/

namespace Reconciliation.Rehearsal

/-- The answers to steps. -/
inductive BusAnswer where
  | done
  | replied (reply : Bus.Reply)
  deriving DecidableEq, Repr

/-- A bus on stage, and the answers given during the current step. -/
structure BusScene where
  bus : Bus
  answers : List (Nat × BusAnswer) := []
  deriving DecidableEq, Repr

/-- The steps of a script for the bus. -/
inductive BusStep where
  | publish (token : Token) (notice : Notice)
  | next
  | close
  | cancel (token : Token)
  deriving DecidableEq, Repr

/-- What a step of a script for the bus shows. -/
structure BusOutcome where
  calls : Outcome BusAnswer
  isClosed : Bool
  deriving DecidableEq, Repr

namespace BusScene

/-- The scene after an action on the bus. -/
def apply (s : BusScene) (a : Bus.Action) : Option BusScene :=
  (s.bus.apply a).map fun (bus, reply) =>
    let answers := match a.party?, reply with
      | some p, some r => answerTo p (.replied r)
      | _, _ => []
    { bus, answers := s.answers ++ answers }

/-- The bus and its callers. -/
def system : System BusScene Bus.Action where
  apply := apply
  parties s := s.bus.waiting
  options _ p := Bus.options p
  work s := s.bus.work

/-- The action that a step begins with. -/
def opening (position : Nat) : BusStep → Bus.Action
  | .publish token notice => .publish (.caller position) token notice
  | .next => .next (.caller position)
  | .close => .close
  | .cancel token => .fire token

/-- The answers that a step gets at once. -/
def immediate (position : Nat) : BusStep → List (Nat × BusAnswer)
  | .publish _ _ => []
  | .next => []
  | .close => [(position, .done)]
  | .cancel _ => [(position, .done)]

/-- Doing one step and letting everybody act. -/
def step (s : BusScene) (position : Nat) (t : BusStep) : BusScene × BusOutcome :=
  let s := { s with answers := immediate position t }
  let s := system.settle ((s.apply (opening position t)).getD s)
  (s, { calls := Outcome.ofAnswers position s.answers, isClosed := !s.bus.isOpen })

end BusScene

/-- What the steps of a script show on a new bus. -/
def playBus (capacity : Nat) (steps : List BusStep) : List BusOutcome :=
  play BusScene.step { bus := .ofCapacity capacity } steps

end Reconciliation.Rehearsal
