import Reconciliation.Bus
import Reconciliation.DeliveryPlan
import Reconciliation.Handler
import Reconciliation.Keyed

/-!
# The worker pool

The workers of a pool take notices from the bus and hand each one to the handler.  An event
that was taken before is skipped, unless it has no identity.  A call that fails is repeated
after a delay that doubles each time, up to the number of repetitions of the plan; a shutdown
ends the waiting for a repetition, and with it the work on the notice, but not the worker.  A
worker ends when the bus has ended, or when the handler panics.

Time is counted in milliseconds and passes only where `Pool.passTo` says so.
-/

namespace Reconciliation

/-- What a worker is doing. -/
inductive WorkerPhase where
  | idle
  /-- Waiting for a notice. -/
  | waiting
  /-- With a notice just taken. -/
  | holding (notice : Notice)
  /-- In the call for a notice, the `nth` one for its event, after `attempt` failed ones for
  this notice; the call ends at the time `finish`. -/
  | calling (notice : Notice) (attempt nth finish : Nat)
  /-- Waiting to repeat the call for a notice at the time `due`. -/
  | asleep (notice : Notice) (attempt due : Nat)
  /-- Ended because the bus has ended. -/
  | ended
  /-- Ended by a panic of the handler. -/
  | crashed
  deriving DecidableEq, Repr

/-- A worker that has ended. -/
def WorkerPhase.isOver : WorkerPhase → Bool
  | .ended => true
  | .crashed => true
  | _ => false

/-- A call of the handler. -/
structure Call where
  /-- When the call began. -/
  time : Nat
  notice : Notice
  /-- How many calls there had been for the notice's event, this one included. -/
  nth : Nat
  deriving DecidableEq, Repr

/-- A caller who waits for workers to end. -/
structure Stop where
  caller : Party
  workers : List Nat
  timeout : Nat
  deadline : Nat
  deriving DecidableEq, Repr

/-- Workers, and what they share. -/
structure Pool where
  plan : DeliveryPlan
  handler : Handler
  /-- The workers by number, in the order in which they were started. -/
  workers : Keyed Nat WorkerPhase := []
  /-- The workers that no stop has taken over. -/
  handles : List Nat := []
  stops : List Stop := []
  /-- The identities of the events taken so far. -/
  seen : List String := []
  /-- The calls of the handler so far. -/
  calls : List Call := []
  now : Nat := 0
  isShutDown : Bool := false
  log : List LogEntry := []

namespace Pool

/-- The pool of a plan, with no worker started. -/
def ofPlan (plan : DeliveryPlan) (handler : Handler) : Pool :=
  { plan := plan.normalized, handler, log := plan.warnings }

/-- The pool with the plan's number of further workers. -/
def start (p : Pool) : Pool :=
  let fresh := (List.range p.plan.workers).map (· + p.workers.length)
  { p with
    workers := p.workers ++ fresh.map (fun w => (w, .idle))
    handles := p.handles ++ fresh }

/-- The pool with the waits for repetitions called off, now and later. -/
def shutDown (p : Pool) : Pool :=
  { p with isShutDown := true }

/-- The pool with one more caller waiting for the workers to end, for so many milliseconds at
most; the caller takes over the workers that no earlier stop has taken over. -/
def stop (p : Pool) (caller : Party) (timeout : Nat) : Pool :=
  let stop := { caller, workers := p.handles, timeout, deadline := p.now + timeout }
  { p with stops := p.stops ++ [stop], handles := [] }

/-- The pool at a later time. -/
def passTo (p : Pool) (time : Nat) : Pool :=
  { p with now := time }

/-- The pool with a worker in another phase. -/
def setPhase (p : Pool) (worker : Nat) (phase : WorkerPhase) : Pool :=
  { p with workers := p.workers.modify worker (fun _ => phase) }

/-- The pool with one more log entry. -/
def note (p : Pool) (e : LogEntry) : Pool :=
  { p with log := p.log ++ [e] }

/-- The steps of workers and of callers who stop the pool. -/
inductive Action where
  /-- An idle worker asks the bus for a notice. -/
  | ask (worker : Nat)
  | receive (worker : Nat)
  /-- A worker learns that the bus has ended. -/
  | dismiss (worker : Nat)
  /-- A worker sets about a notice that it has taken. -/
  | begin (worker : Nat)
  /-- The handler's call ends. -/
  | conclude (worker : Nat)
  /-- A worker repeats a call once the delay is over. -/
  | retry (worker : Nat)
  /-- A worker lets go of a notice because of the shutdown. -/
  | abandon (worker : Nat)
  /-- A caller learns that the workers have ended. -/
  | confirm (caller : Party)
  /-- A caller gives up waiting. -/
  | expire (caller : Party)
  deriving DecidableEq, Repr

/-- The caller who acts. -/
def Action.caller? : Action → Option Party
  | .confirm caller | .expire caller => some caller
  | .ask _ | .receive _ | .dismiss _ | .begin _ | .conclude _ | .retry _ | .abandon _ => none

/-- The pool with a call begun. -/
def call (p : Pool) (worker : Nat) (notice : Notice) (attempt : Nat) : Pool :=
  let nth := p.calls.countP (fun c => c.notice.event == notice.event) + 1
  let begun := p.setPhase worker (.calling notice attempt nth (p.now + p.handler.millis))
  { begun with calls := p.calls ++ [{ time := p.now, notice, nth }] }

/-- The pool once a worker has set about a notice: an event that was seen before is skipped. -/
def process (p : Pool) (worker : Nat) (notice : Notice) : Pool :=
  if notice.event.isEmpty then p.call worker notice 0
  else if notice.event ∈ p.seen then
    (p.setPhase worker .idle).note (.duplicateSkipped notice)
  else { p with seen := notice.event :: p.seen }.call worker notice 0

/-- The delay before the call for a notice is repeated. -/
def delay (p : Pool) (attempt : Nat) : Duration :=
  p.plan.delay.backoff attempt

/-- The pool once a call has failed: the last one is given up, others are repeated. -/
def fail (p : Pool) (worker : Nat) (notice : Notice) (attempt : Nat) (fault : Fault) : Pool :=
  if attempt < p.plan.retries then
    let delay := p.delay attempt
    (p.setPhase worker (.asleep notice attempt (p.now + delay.toMillisCeil))).note
      (.attemptFailed notice (attempt + 1) (delay.toMillis % 0x10000000000000000) fault)
  else (p.setPhase worker .idle).note (.gaveUp notice (attempt + 1) fault)

/-- The pool once a call has ended. -/
def settleCall (p : Pool) (worker : Nat) (notice : Notice) (attempt : Nat) : Verdict → Pool
  | .reconciled =>
    let p := p.setPhase worker .idle
    if p.handler.announces then p.note (.reconciled notice) else p
  | .failed fault => p.fail worker notice attempt fault
  | .panicked => p.setPhase worker .crashed

/-- A worker that has ended. -/
def isOver (p : Pool) (worker : Nat) : Bool :=
  (p.workers.get? worker).any WorkerPhase.isOver

/-- The log entries about those workers that were ended by a panic. -/
def crashes (p : Pool) (workers : List Nat) : List LogEntry :=
  (workers.filter (fun w => p.workers.get? w == some .crashed)).map (fun _ => .workerCrashed)

/-- The pool without the stop of a caller. -/
def forget (p : Pool) (caller : Party) : Pool :=
  { p with stops := p.stops.eraseP (fun s => s.caller == caller) }

/-- The stop of a caller. -/
def stop? (p : Pool) (caller : Party) : Option Stop :=
  p.stops.find? (fun s => s.caller == caller)

/-- What a stop times out waiting for. -/
def draining : String := "reconciliation consumer to drain"

/-- The pool after an action, the bus, and what a caller who stops the pool learns. -/
def apply (b : Bus) (p : Pool) :
    Action → Option (Bus × Pool × Option (Except Fault Unit))
  | .ask w =>
    match p.workers.get? w with
    | some .idle => some (b.next (.worker w), p.setPhase w .waiting, none)
    | _ => none
  | .receive w =>
    (b.take? (.worker w)).map fun (n, b) => (b, p.setPhase w (.holding n), none)
  | .dismiss w => (b.finish? (.worker w)).map fun b => (b, p.setPhase w .ended, none)
  | .begin w =>
    match p.workers.get? w with
    | some (.holding n) => some (b, p.process w n, none)
    | _ => none
  | .conclude w =>
    match p.workers.get? w with
    | some (.calling n attempt nth finish) =>
      if finish ≤ p.now then some (b, p.settleCall w n attempt (p.handler.verdict n nth), none)
      else none
    | _ => none
  | .retry w =>
    match p.workers.get? w with
    | some (.asleep n attempt due) =>
      if due ≤ p.now then some (b, p.call w n (attempt + 1), none) else none
    | _ => none
  | .abandon w =>
    match p.workers.get? w with
    | some (.asleep n _ _) =>
      if p.isShutDown then some (b, (p.setPhase w .idle).note (.retryAbandoned n), none)
      else none
    | _ => none
  | .confirm caller =>
    (p.stop? caller).bind fun s =>
      if s.workers.all p.isOver then
        let p := p.forget caller
        some (b, { p with log := p.log ++ p.crashes s.workers }, some (.ok ()))
      else none
  | .expire caller =>
    (p.stop? caller).bind fun s =>
      if s.deadline ≤ p.now then
        some (b, p.forget caller, some (.error (.timeout draining (s.timeout % 0x10000000000000000))))
      else none

/-- The callers who stop the pool, and the workers that have not ended. -/
def parties (p : Pool) : List Party :=
  p.stops.map Stop.caller ++
    (p.workers.filter (fun w => !w.2.isOver)).map (fun w => .worker w.1)

/-- What a worker or a caller may do. -/
def options : Party → List Action
  | .caller n => [.confirm (.caller n), .expire (.caller n)]
  | .worker w =>
    [.ask w, .receive w, .dismiss w, .begin w, .conclude w, .retry w, .abandon w]
  | .keeper _ => []
  | .body _ => []

/-- The number of actions that a notice can still cost, from the moment it is taken. -/
def noticeWork (retries : Nat) : Nat :=
  2 * retries + 5

/-- The number of actions that a worker can still take without another notice. -/
def phaseWork (retries : Nat) : WorkerPhase → Nat
  | .idle => 2
  | .waiting => 1
  | .holding _ => noticeWork retries
  | .calling _ attempt _ _ => 2 * (retries + 1 - attempt) + 2
  | .asleep _ attempt _ => 2 * (retries + 1 - attempt) + 1
  | .ended => 0
  | .crashed => 0

/-- A bound on the number of actions that the workers and callers can still take, with so many
notices on their way. -/
def work (p : Pool) (notices : Nat) : Nat :=
  p.stops.length + notices * noticeWork p.plan.retries +
    p.workers.total (phaseWork p.plan.retries)

/-- The time at which a worker goes on, unless something happens before. -/
def due? : WorkerPhase → Option Nat
  | .calling _ _ _ finish => some finish
  | .asleep _ _ due => some due
  | _ => none

/-- The first time after now at which somebody goes on. -/
def nextDue? (p : Pool) : Option Nat :=
  let dues := p.workers.filterMap (fun w => due? w.2) ++ p.stops.map Stop.deadline
  (dues.filter (p.now < ·)).min?

end Pool

end Reconciliation
