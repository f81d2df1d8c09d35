import Reconciliation.Fault
import Reconciliation.Keyed
import Reconciliation.LogEntry
import Reconciliation.Party

/-!
# The task runner

The runner runs background tasks, a limited number at a time.  A submitted task waits, in the
order of submission, for a free slot, which it keeps until it has ended; it is dropped if its
token fires before that.  An admitted task whose token has fired by the time its keeper looks
after it is skipped.  All other tasks run to their own end, and the keeper collects the
outcome: a fault goes into the list of errors, a panic only into the log.

`Runner.wait` takes over the tasks admitted so far.  Once all of them have ended it reports
the errors collected by then, of all tasks.
-/

namespace Reconciliation

/-- How the body of a task ends. -/
inductive TaskOutcome where
  | succeeded
  | failed (fault : Fault)
  | panicked (payload : PanicPayload)
  deriving DecidableEq, Repr

/-- Where an admitted task stands. -/
inductive TaskPhase where
  /-- It has a slot, and its keeper has not looked after it yet. -/
  | admitted
  | running
  /-- Its body has ended, and its keeper has not collected the outcome yet. -/
  | returned (outcome : TaskOutcome)
  /-- It was skipped because its token had fired. -/
  | skipped
  | ended (outcome : TaskOutcome)
  deriving DecidableEq, Repr

/-- A task that is over and done with. -/
def TaskPhase.isOver : TaskPhase → Bool
  | .admitted => false
  | .running => false
  | .returned _ => false
  | .skipped => true
  | .ended _ => true

/-- An admitted task. -/
structure Task where
  token : Token
  phase : TaskPhase := .admitted
  deriving DecidableEq, Repr

/-- A submitted task that waits for a slot. -/
structure Submission where
  caller : Party
  task : Nat
  token : Token
  deriving DecidableEq, Repr

/-- A caller that waits for tasks to end. -/
structure Wait where
  caller : Party
  tasks : List Nat
  deriving DecidableEq, Repr

/-- Background tasks and the slots for them. -/
structure Runner where
  capacity : Nat
  /-- The number of free slots. -/
  free : Nat
  /-- The tasks that wait for a slot, in the order of submission. -/
  line : List Submission := []
  /-- The admitted tasks by number, in the order of admission. -/
  tasks : Keyed Nat Task := []
  /-- The admitted tasks that no wait has taken over. -/
  current : List Nat := []
  waits : List Wait := []
  /-- The errors of tasks, in the order of collection. -/
  errors : List Fault := []
  /-- The number of tasks submitted. -/
  submitted : Nat := 0
  /-- The tokens that have fired. -/
  fired : List Token := []
  deriving DecidableEq, Repr

namespace Runner

/-- The number of slots of a runner that is asked for none. -/
def usualCapacity : Nat := 10

/-- The runner with so many slots, all of them free. -/
def ofCapacity (n : Nat) : Runner :=
  let capacity := if n = 0 then usualCapacity else n
  { capacity, free := capacity }

/-- The steps of callers, keepers and bodies. -/
inductive Action where
  | submit (caller : Party) (token : Token)
  /-- The first submitted task gets a slot. -/
  | enter (caller : Party)
  /-- A submitted task whose token has fired is dropped. -/
  | drop (caller : Party)
  /-- An admitted task whose token has fired is skipped. -/
  | skip (task : Nat)
  /-- The body of an admitted task starts. -/
  | start (task : Nat)
  /-- The body of a task ends. -/
  | finish (task : Nat) (outcome : TaskOutcome)
  /-- The outcome of a task is collected and its slot given back. -/
  | collect (task : Nat)
  /-- A caller takes over the tasks admitted so far. -/
  | wait (caller : Party)
  /-- A caller learns that all its tasks have ended. -/
  | report (caller : Party)
  | fire (token : Token)
  deriving DecidableEq, Repr

/-- The caller who acts. -/
def Action.caller? : Action → Option Party
  | .submit caller _ | .enter caller | .drop caller | .wait caller | .report caller => some caller
  | .skip _ | .start _ | .finish _ _ | .collect _ | .fire _ => none

/-- What an action tells the one who acts. -/
inductive Reply where
  | admitted (task : Nat)
  | dropped (task : Nat)
  | collected (task : Nat) (outcome : TaskOutcome)
  | reported (errors : List Fault)
  deriving DecidableEq, Repr

/-- The phase of an admitted task. -/
def phase? (r : Runner) (task : Nat) : Option TaskPhase :=
  (r.tasks.get? task).map Task.phase

/-- The runner with an admitted task in another phase. -/
def setPhase (r : Runner) (task : Nat) (phase : TaskPhase) : Runner :=
  { r with tasks := r.tasks.modify task (fun t => { t with phase }) }

/-- An admitted task that is over. -/
def isOver (r : Runner) (task : Nat) : Bool :=
  match r.phase? task with
  | some phase => phase.isOver
  | none => false

/-- The runner with one more task waiting for a slot. -/
def submit (r : Runner) (caller : Party) (token : Token) : Runner :=
  { r with
    line := r.line ++ [{ caller, task := r.submitted, token }]
    submitted := r.submitted + 1 }

/-- The first submitted task, and the runner once that task has its slot. -/
def enter? (r : Runner) (caller : Party) : Option (Nat × Runner) :=
  match r.line with
  | [] => none
  | s :: line =>
    if s.caller = caller ∧ 0 < r.free then
      some (s.task, { r with
        free := r.free - 1
        line
        tasks := r.tasks.add s.task { token := s.token }
        current := r.current ++ [s.task] })
    else none

/-- A submitted task whose token has fired, and the runner without it. -/
def drop? (r : Runner) (caller : Party) : Option (Nat × Runner) :=
  match r.line.find? (fun s => s.caller == caller) with
  | none => none
  | some s =>
    if s.token ∈ r.fired then
      some (s.task, { r with line := r.line.eraseP (fun s => s.caller == caller) })
    else none

/-- The runner once an admitted task is skipped and its slot given back. -/
def skip? (r : Runner) (task : Nat) : Option Runner :=
  match r.tasks.get? task with
  | some { token, phase := .admitted } =>
    if token ∈ r.fired then some { r.setPhase task .skipped with free := r.free + 1 }
    else none
  | _ => none

/-- The runner once the body of an admitted task has started. -/
def start? (r : Runner) (task : Nat) : Option Runner :=
  match r.tasks.get? task with
  | some { token, phase := .admitted } =>
    if token ∈ r.fired then none else some (r.setPhase task .running)
  | _ => none

/-- The runner once the body of a running task has ended. -/
def finish? (r : Runner) (task : Nat) (outcome : TaskOutcome) : Option Runner :=
  match r.phase? task with
  | some .running => some (r.setPhase task (.returned outcome))
  | _ => none

/-- The errors once an outcome is collected. -/
def errorsWith (errors : List Fault) : TaskOutcome → List Fault
  | .failed fault => errors ++ [fault]
  | .succeeded => errors
  | .panicked _ => errors

/-- The outcome of a task whose body has ended, and the runner once the task has ended. -/
def collect? (r : Runner) (task : Nat) : Option (TaskOutcome × Runner) :=
  match r.phase? task with
  | some (.returned outcome) =>
    some (outcome, { r.setPhase task (.ended outcome) with
      free := r.free + 1
      errors := errorsWith r.errors outcome })
  | _ => none

/-- The runner with one more caller waiting, who takes over the tasks admitted so far. -/
def wait (r : Runner) (caller : Party) : Runner :=
  { r with waits := r.waits ++ [{ caller, tasks := r.current }], current := [] }

/-- The errors so far, and the runner without a caller whose tasks have all ended. -/
def report? (r : Runner) (caller : Party) : Option (List Fault × Runner) :=
  match r.waits.find? (fun w => w.caller == caller) with
  | none => none
  | some w =>
    if w.tasks.all r.isOver then
      some (r.errors, { r with waits := r.waits.eraseP (fun w => w.caller == caller) })
    else none

/-- The runner once a token has fired. -/
def fire (r : Runner) (token : Token) : Runner :=
  { r with fired := token :: r.fired }

/-- The runner after an action, and what the acting party learns. -/
def apply (r : Runner) : Action → Option (Runner × Option Reply)
  | .submit caller token => some (r.submit caller token, none)
  | .enter caller => (r.enter? caller).map (fun (task, r) => (r, some (.admitted task)))
  | .drop caller => (r.drop? caller).map (fun (task, r) => (r, some (.dropped task)))
  | .skip task => (r.skip? task).map (·, none)
  | .start task => (r.start? task).map (·, none)
  | .finish task outcome => (r.finish? task outcome).map (·, none)
  | .collect task =>
    (r.collect? task).map (fun (outcome, r) => (r, some (.collected task outcome)))
  | .wait caller => some (r.wait caller, none)
  | .report caller => (r.report? caller).map (fun (errors, r) => (r, some (.reported errors)))
  | .fire token => some (r.fire token, none)

/-- The tasks that are admitted and not over, in the order of admission. -/
def underWay (r : Runner) : List Nat :=
  (r.tasks.filter (fun entry => !entry.2.phase.isOver)).map Prod.fst

/-- The callers that wait at the runner, and the keepers of its tasks. -/
def waiting (r : Runner) : List Party :=
  r.line.map Submission.caller ++ r.underWay.map Party.keeper ++ r.waits.map Wait.caller

/-- What a caller that waits at the runner, or a keeper, may do. -/
def options : Party → List Action
  | .caller n => [.enter (.caller n), .drop (.caller n), .report (.caller n)]
  | .keeper task => [.skip task, .start task, .collect task]
  | .body _ => []
  | .worker _ => []

/-- The number of actions that the keeper of a task can still take. -/
def phaseWork : TaskPhase → Nat
  | .admitted => 2
  | .running => 1
  | .returned _ => 1
  | .skipped => 0
  | .ended _ => 0

/-- A bound on the number of actions that callers and keepers can still take. -/
def work (r : Runner) : Nat :=
  3 * r.line.length + r.tasks.total (fun t => phaseWork t.phase) + r.waits.length

end Runner

end Reconciliation
