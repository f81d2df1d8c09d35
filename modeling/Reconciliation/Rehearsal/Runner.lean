import Reconciliation.Rehearsal.Outcome
import Reconciliation.Runner
import Reconciliation.System

/-!
# Rehearsals of the task runner

Scripted runs of a task runner.  The tasks are errands: an errand leaves a mark when it
starts, waits at its gate, if it has one, leaves a mark when it is done, and ends in the way
that is laid down for it.  An errand that heeds its token also stops waiting once that fires.
-/

namespace Reconciliation.Rehearsal

/-- A task that is scripted. -/
structure Errand where
  name : String
  gate : Option String
  heeds : Bool
  ending : TaskOutcome
  deriving DecidableEq, Repr

/-- What an errand does. -/
inductive Deed where
  | started
  | ended
  | canceled
  deriving DecidableEq, Repr

/-- The mark of an errand. -/
structure Mark where
  deed : Deed
  name : String
  deriving DecidableEq, Repr

/-- Where the body of an errand stands. -/
inductive ErrandPhase where
  | fresh
  | waiting
  | ended
  deriving DecidableEq, Repr

/-- An errand, the token it was submitted under, and how far its body is. -/
structure ErrandRun where
  errand : Errand
  token : Token
  phase : ErrandPhase := .fresh
  deriving DecidableEq, Repr

/-- The answers of the runner to callers. -/
inductive RunnerAnswer where
  | done
  | waited (errors : List Fault)
  deriving DecidableEq, Repr

/-- A runner on stage: the errands by task number, the open gates, and what the current step
has brought so far. -/
structure RunnerScene where
  runner : Runner
  errands : Keyed Nat ErrandRun := []
  gates : List String := []
  answers : List (Nat × RunnerAnswer) := []
  trace : List Mark := []
  log : List LogEntry := []
  deriving DecidableEq, Repr

/-- The steps of a script for the runner. -/
inductive RunnerStep where
  | submit (errand : Errand) (token : Token)
  | openGate (gate : String)
  | cancel (token : Token)
  | wait
  deriving DecidableEq, Repr

/-- What a step of a script for the runner shows. -/
structure RunnerOutcome where
  calls : Outcome RunnerAnswer
  freeSlots : Nat
  trace : List Mark
  log : List LogEntry
  deriving DecidableEq, Repr

/-- The actions on stage. -/
inductive RunnerMove where
  /-- A caller or a keeper acts. -/
  | runner (action : Runner.Action)
  /-- A body starts. -/
  | begin (task : Nat)
  /-- A body passes its gate and ends. -/
  | pass (task : Nat)
  /-- A body that heeds its token stops waiting. -/
  | heed (task : Nat)
  deriving DecidableEq, Repr

namespace RunnerScene

/-- The answer that a reply of the runner makes. -/
def ofReply? : Runner.Reply → Option RunnerAnswer
  | .admitted _ => some .done
  | .dropped _ => some .done
  | .reported errors => some (.waited errors)
  | .collected _ _ => none

/-- The log entries about an outcome that is collected. -/
def collectionLog : Runner.Reply → List LogEntry
  | .collected _ (.panicked payload) => [.taskPanicked payload]
  | _ => []

/-- The scene with what the runner replied to the one who acts. -/
def hear (s : RunnerScene) (action : Runner.Action) (reply : Runner.Reply) : RunnerScene :=
  let answers := match action.caller?, ofReply? reply with
    | some p, some a => answerTo p a
    | _, _ => []
  { s with answers := s.answers ++ answers, log := s.log ++ collectionLog reply }

/-- The log entries of a body that ends. -/
def endingLog : TaskOutcome → List LogEntry
  | .panicked payload => [.panicCaptured payload]
  | .succeeded => []
  | .failed _ => []

/-- The scene once the body of an errand has ended. -/
def finish (s : RunnerScene) (task : Nat) (run : ErrandRun) (deed : Deed)
    (outcome : TaskOutcome) : Option RunnerScene :=
  (s.runner.finish? task outcome).map fun runner =>
    { s with
      runner
      errands := s.errands.modify task (fun r => { r with phase := .ended })
      trace := s.trace ++ [{ deed, name := run.errand.name }]
      log := s.log ++ endingLog outcome }

/-- The scene after an action. -/
def apply (s : RunnerScene) : RunnerMove → Option RunnerScene
  | .runner action =>
    (s.runner.apply action).map fun (runner, reply) =>
      reply.elim { s with runner } ({ s with runner }.hear action)
  | .begin task =>
    match s.errands.get? task, s.runner.phase? task with
    | some { errand, phase := .fresh, .. }, some .running =>
      some { s with
        errands := s.errands.modify task (fun r => { r with phase := .waiting })
        trace := s.trace ++ [{ deed := .started, name := errand.name }] }
    | _, _ => none
  | .pass task =>
    match s.errands.get? task with
    | some run =>
      if run.phase = .waiting ∧ run.errand.gate.all (fun g => s.gates.contains g) then
        s.finish task run .ended run.errand.ending
      else none
    | none => none
  | .heed task =>
    match s.errands.get? task with
    | some run =>
      if run.phase = .waiting ∧ run.errand.heeds ∧ run.token ∈ s.runner.fired then
        s.finish task run .canceled (.failed .canceled)
      else none
    | none => none

/-- The parties under way: those at the runner, and the bodies of the errands. -/
def parties (s : RunnerScene) : List Party :=
  s.runner.waiting ++ s.runner.underWay.map Party.body

/-- What a party may do. -/
def options (p : Party) : List RunnerMove :=
  match p with
  | .body task => [.begin task, .pass task, .heed task]
  | p => (Runner.options p).map .runner

/-- The number of actions that the body of an errand can still take. -/
def errandWork : ErrandPhase → Nat
  | .fresh => 2
  | .waiting => 1
  | .ended => 0

/-- The runner, its callers and its errands. -/
def system : System RunnerScene RunnerMove where
  apply := apply
  parties := parties
  options _ p := options p
  work s := s.runner.work + s.errands.total (fun e => errandWork e.phase)

/-- The beginning of a step. -/
def opening (s : RunnerScene) (position : Nat) : RunnerStep → RunnerScene
  | .submit errand token =>
    { s with
      errands := s.errands.add s.runner.submitted { errand, token }
      runner := s.runner.submit (.caller position) token }
  | .openGate gate =>
    { s with gates := gate :: s.gates, answers := answerTo (.caller position) .done }
  | .cancel token =>
    { s with runner := s.runner.fire token, answers := answerTo (.caller position) .done }
  | .wait => { s with runner := s.runner.wait (.caller position) }

/-- Doing one step and letting everybody act. -/
def step (s : RunnerScene) (position : Nat) (t : RunnerStep) : RunnerScene × RunnerOutcome :=
  let s := { s with answers := [], trace := [], log := [] }
  let s := system.settle (s.opening position t)
  (s, {
    calls := Outcome.ofAnswers position s.answers
    freeSlots := s.runner.free
    trace := s.trace
    log := s.log })

end RunnerScene

/-- What the steps of a script show on a new runner. -/
def playRunner (capacity : Nat) (steps : List RunnerStep) : List RunnerOutcome :=
  play RunnerScene.step { runner := .ofCapacity capacity } steps

end Reconciliation.Rehearsal
