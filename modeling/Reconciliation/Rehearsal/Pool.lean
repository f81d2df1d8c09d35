import Reconciliation.Pool
import Reconciliation.Rehearsal.Outcome
import Reconciliation.System

/-!
# Rehearsals of the worker pool

Scripted runs of a worker pool at a bus, with a handler whose verdicts are laid down and with
a virtual clock.
-/

namespace Reconciliation.Rehearsal

/-- The verdicts that are laid down for a handler. -/
structure HandlerScript where
  /-- For some events, the number of calls that fail, beginning with the first. -/
  failures : List (String × Nat) := []
  /-- The number of calls that fail for all other events. -/
  otherFailures : Nat := 0
  /-- The events whose calls panic. -/
  panics : List String := []
  millis : Nat := 0
  deriving DecidableEq, Repr

/-- The handler that follows a script. -/
def HandlerScript.handler (script : HandlerScript) : Handler where
  verdict n nth :=
    if n.event ∈ script.panics then .panicked
    else if nth ≤ (script.failures.lookup n.event).getD script.otherFailures then
      .failed (.unreconciled n.event "downstream unavailable")
    else .reconciled
  millis := script.millis

/-- The answers to steps. -/
inductive PoolAnswer where
  | done
  | published (reply : Bus.Reply)
  | stopped (result : Except Fault Unit)

/-- A pool and its bus on stage, and the answers given during the current step. -/
structure PoolScene where
  bus : Bus
  pool : Pool
  answers : List (Nat × PoolAnswer) := []

/-- The steps of a script for the pool. -/
inductive PoolStep where
  | start
  | publish (token : Token) (notice : Notice)
  | sleep (millis : Nat)
  | shutDown
  | stop (timeout : Nat)
  deriving DecidableEq, Repr

/-- What a step of a script for the pool shows. -/
structure PoolOutcome where
  result : Outcome PoolAnswer
  time : Nat
  /-- The calls of the handler that began during the step. -/
  calls : List Call
  /-- The number of identities seen. -/
  seen : Nat
  log : List LogEntry

/-- The actions on stage. -/
inductive PoolMove where
  | bus (action : Bus.Action)
  | pool (action : Pool.Action)
  deriving DecidableEq, Repr

namespace PoolScene

/-- The scene after an action. -/
def apply (s : PoolScene) : PoolMove → Option PoolScene
  | .bus action =>
    (s.bus.apply action).map fun (bus, reply) =>
      let answers := match action.party?, reply with
        | some p, some r => answerTo p (.published r)
        | _, _ => []
      { s with bus, answers := s.answers ++ answers }
  | .pool action =>
    (s.pool.apply s.bus action).map fun (bus, pool, reply) =>
      let answers := match action.caller?, reply with
        | some p, some r => answerTo p (.stopped r)
        | _, _ => []
      { bus, pool, answers := s.answers ++ answers }

/-- The parties under way: those who stop the pool, the publishers, and the workers. -/
def parties (s : PoolScene) : List Party :=
  s.bus.offers.map Offer.publisher ++ s.pool.parties

/-- What a party may do. -/
def options (p : Party) : List PoolMove :=
  [.bus (.accept p), .bus (.withdraw p)] ++ (Pool.options p).map .pool

/-- The pool, its bus and their callers. -/
def system : System PoolScene PoolMove where
  apply := apply
  parties := parties
  options _ p := options p
  work s := s.bus.offers.length + s.pool.work (s.bus.offers.length + s.bus.queue.length)

/-- The scene with the clock moved and everybody acting. -/
def passTo (s : PoolScene) (time : Nat) : PoolScene :=
  system.settle { s with pool := s.pool.passTo time }

/-- The scene once the clock has moved to a time, with everybody acting whenever they can. -/
def sleepTo (target : Nat) : Nat → PoolScene → PoolScene
  | 0, s => s.passTo target
  | fuel + 1, s =>
    match s.pool.nextDue? with
    | some due => if due ≤ target then sleepTo target fuel (s.passTo due) else s.passTo target
    | none => s.passTo target

/-- The scene once a caller who stops the pool has an answer. -/
def awaitStop (caller : Party) : Nat → PoolScene → PoolScene
  | 0, s => s
  | fuel + 1, s =>
    match s.pool.stop? caller, s.pool.nextDue? with
    | some _, some due => awaitStop caller fuel (s.passTo due)
    | _, _ => s

/-- A bound on the number of times at which somebody can still go on. -/
def moments (s : PoolScene) : Nat :=
  system.work s + 1

/-- Doing one step and letting everybody act. -/
def perform (s : PoolScene) (position : Nat) (t : PoolStep) : PoolScene :=
  let caller := Party.caller position
  let done := { s with answers := answerTo caller .done }
  match t with
  | .start => system.settle { done with pool := s.pool.start }
  | .publish token notice =>
    let (bus, reply) := s.bus.publish caller token notice
    let answers := match reply with
      | some r => answerTo caller (.published r)
      | none => []
    system.settle { s with bus, answers }
  | .sleep millis => sleepTo (s.pool.now + millis) s.moments done
  | .shutDown => system.settle { done with pool := s.pool.shutDown }
  | .stop timeout =>
    let s := { s with bus := s.bus.close, pool := s.pool.stop caller timeout, answers := [] }
    awaitStop caller s.moments (system.settle s)

/-- Doing one step, and what it shows. -/
def step (s : PoolScene) (position : Nat) (t : PoolStep) : PoolScene × PoolOutcome :=
  let before := s.pool.calls.length
  let s := { s with pool := { s.pool with log := [] } }.perform position t
  (s, {
    result := Outcome.ofAnswers position s.answers
    time := s.pool.now
    calls := s.pool.calls.drop before
    seen := s.pool.seen.length
    log := s.pool.log })

end PoolScene

/-- What the steps of a script show on a new pool. -/
def playPool (capacity : Nat) (pool : Pool) (steps : List PoolStep) : List PoolOutcome :=
  play PoolScene.step { bus := .ofCapacity capacity, pool } steps

end Reconciliation.Rehearsal
