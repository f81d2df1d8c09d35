import Reconciliation.Proofs.Exchange
import Reconciliation.Proofs.Workers

/-!
# Workshops

A `Workshop` is a bus with its callers and a pool of workers that take the notices from it, together
with a record of each notice that was taken: which worker took it, how often the handler was called
for it and with which verdicts, and how the worker was done with it.  Anybody may publish, close the
bus, start workers, shut the pool down or stop it at any time, and time passes as it likes; those
who can go on do so in any order.

`Workshop.Step` lists all that one move can do.
-/

namespace Reconciliation

/-- The call has failed. -/
def Verdict.isFailed : Verdict → Bool
  | .failed _ => true
  | .reconciled => false
  | .panicked => false

/-- How a worker is done with a notice. -/
inductive Fate where
  /-- The event was seen before. -/
  | duplicate
  | reconciled
  /-- The last call that the plan allows has failed. -/
  | exhausted
  /-- A shutdown has called off the repetition of a failed call. -/
  | abandoned
  | panicked
  deriving DecidableEq, Repr

/-- The fate of a notice after a verdict, if the worker is done with it after each failure or
not. -/
def Fate.ofVerdict (isDone : Bool) : Verdict → Option Fate
  | .reconciled => some .reconciled
  | .panicked => some .panicked
  | .failed _ => if isDone then some .exhausted else none

/-- What has happened with a notice since it was taken. -/
structure Case where
  worker : Nat
  notice : Notice
  /-- How often the handler was called for it. -/
  calls : Nat := 0
  /-- The verdicts on those calls that have ended. -/
  verdicts : List Verdict := []
  fate : Option Fate := none
  deriving DecidableEq, Repr

namespace Case

/-- The notice is in the hands of a worker. -/
def isWith (c : Case) (worker : Nat) : Bool :=
  c.worker == worker && c.fate.isNone

def called (c : Case) : Case :=
  { c with calls := c.calls + 1 }

def judged (verdict : Verdict) (fate : Option Fate) (c : Case) : Case :=
  { c with verdicts := c.verdicts ++ [verdict], fate }

def closed (fate : Fate) (c : Case) : Case :=
  { c with fate := some fate }

/-- The cases once something has happened with the notice in the hands of a worker. -/
def amend (cases : List Case) (worker : Nat) (change : Case → Case) : List Case :=
  cases.map (fun c => if c.isWith worker then change c else c)

end Case

/-- The action is one of publishers, or of those who close the bus or fire a token. -/
def Bus.Action.isOutside : Bus.Action → Bool
  | .publish (.worker _) _ _ => false
  | .publish _ _ _ | .accept _ | .withdraw _ | .close | .fire _ => true
  | .next _ | .take _ | .finish _ => false

/-- The exchange after what a worker does at its bus. -/
def Exchange.follow (x : Exchange) : Pool.Action → Option Exchange
  | .ask w => x.move (.next (.worker w))
  | .receive w => x.move (.take (.worker w))
  | .dismiss w => x.move (.finish (.worker w))
  | .begin _ | .conclude _ | .retry _ | .abandon _ | .confirm _ | .expire _ => some x

/-- A bus, a pool of workers, what has happened with the notices that were taken, and which calls to
stop the pool have timed out. -/
structure Workshop where
  exchange : Exchange
  pool : Pool
  /-- The notices that were taken, in that order. -/
  cases : List Case := []
  /-- The calls to stop the pool that have timed out. -/
  late : List Stop := []

namespace Workshop

/-- What may happen. -/
inductive Move where
  | bus (a : Bus.Action)
  | work (a : Pool.Action)
  | start
  | shutDown
  | stop (caller : Party) (timeout : Nat)
  | pass (millis : Nat)
  deriving DecidableEq, Repr

/-- A new bus, and a pool with no worker started. -/
def opened (capacity : Nat) (plan : DeliveryPlan) (handler : Handler) : Workshop :=
  { exchange := .opened capacity, pool := .ofPlan plan handler }

def bus (s : Workshop) : Bus :=
  s.exchange.bus

/-- What has happened with a worker's notice, seen from what the worker does next. -/
def filed (s : Workshop) (pool : Pool) : Pool.Action → List Case
  | .receive w =>
    s.cases ++ s.bus.queue.head?.toList.map (fun notice => { worker := w, notice })
  | .begin w =>
    Case.amend s.cases w
      (if pool.workers.get? w = some .idle then .closed .duplicate else .called)
  | .conclude w =>
    match s.pool.workers.get? w with
    | some (.calling n _ nth _) =>
      let verdict := s.pool.handler.verdict n nth
      Case.amend s.cases w
        (.judged verdict (Fate.ofVerdict (pool.workers.get? w = some .idle) verdict))
    | _ => s.cases
  | .retry w => Case.amend s.cases w .called
  | .abandon w => Case.amend s.cases w (.closed .abandoned)
  | .ask _ | .dismiss _ | .confirm _ | .expire _ => s.cases

/-- The calls to stop the pool that have timed out after an action of the pool. -/
def lateAfter (s : Workshop) : Pool.Action → List Stop
  | .expire caller => s.late ++ (s.pool.stop? caller).toList
  | .ask _ | .receive _ | .dismiss _ | .begin _ | .conclude _ | .retry _ | .abandon _
  | .confirm _ => s.late

/-- The workshop after a move, if the move is possible.  A caller who stops the pool closes the bus,
and makes no other call to stop it before that one is answered. -/
def move (s : Workshop) : Move → Option Workshop
  | .bus a =>
    if a.isOutside then (s.exchange.move a).map fun exchange => { s with exchange } else none
  | .work a => do
    let (_, pool, _) ← s.pool.apply s.bus a
    let exchange ← s.exchange.follow a
    return { exchange, pool, cases := s.filed pool a, late := s.lateAfter a }
  | .start => some { s with pool := s.pool.start }
  | .shutDown => some { s with pool := s.pool.shutDown }
  | .stop caller timeout =>
    if caller ∈ s.pool.stops.map Stop.caller then none
    else (s.exchange.move .close).map fun exchange =>
      { s with exchange, pool := s.pool.stop caller timeout }
  | .pass millis => some { s with pool := s.pool.passTo (s.pool.now + millis) }

/-- A move leads from one workshop to the other. -/
def Leads (s t : Workshop) : Prop :=
  ∃ m, s.move m = some t

/-- Moves, in any number and order, lead from one workshop to the other. -/
def Runs : Workshop → Workshop → Prop :=
  Relation.ReflTransGen Leads

/-- A caller who stops the pool may learn how that went. -/
def Answers (s : Workshop) (caller : Party) (result : Except Fault Unit) : Prop :=
  ∃ a bus pool, a.caller? = some caller ∧ s.pool.apply s.bus a = some (bus, pool, some result)

end Workshop

/-! ### What workers do with notices -/

/-- The identity of the event of a notice, if it has one. -/
def Notice.marks (n : Notice) : List String :=
  if n.event = "" then [] else [n.event]

namespace Pool

variable {b b' : Bus} {p p' : Pool} {w : Nat} {n : Notice}

/-- The place of the next call for a notice among those for its event. -/
def nth (p : Pool) (n : Notice) : Nat :=
  p.calls.countP (fun c => c.notice.event == n.event) + 1

/-- What a worker does with a notice as it goes from one phase to the next, what this means for the
case, and which events it has seen and which calls it begins. -/
inductive Treats (p : Pool) (n : Notice) :
    WorkerPhase → WorkerPhase → (Case → Case) → List String → List Call → Prop where
  | skip (hevent : n.event ≠ "") (hseen : n.event ∈ p.seen) :
    Treats p n (.holding n) .idle (.closed .duplicate) [] []
  | begin (hnew : ∀ e ∈ n.marks, e ∉ p.seen) :
    Treats p n (.holding n) (.calling n 0 (p.nth n) (p.now + p.handler.millis)) .called n.marks
      [{ time := p.now, notice := n, nth := p.nth n }]
  | reconcile {attempt nth finish : Nat} (hverdict : p.handler.verdict n nth = .reconciled) :
    Treats p n (.calling n attempt nth finish) .idle (.judged .reconciled (some .reconciled)) [] []
  | postpone {attempt nth finish : Nat} {fault : Fault} (due : Nat)
      (hverdict : p.handler.verdict n nth = .failed fault) (hattempt : attempt < p.plan.retries) :
    Treats p n (.calling n attempt nth finish) (.asleep n attempt due)
      (.judged (.failed fault) none) [] []
  | exhaust {attempt nth finish : Nat} {fault : Fault}
      (hverdict : p.handler.verdict n nth = .failed fault) (hattempt : ¬ attempt < p.plan.retries) :
    Treats p n (.calling n attempt nth finish) .idle
      (.judged (.failed fault) (some .exhausted)) [] []
  | crash {attempt nth finish : Nat} (hverdict : p.handler.verdict n nth = .panicked) :
    Treats p n (.calling n attempt nth finish) .crashed (.judged .panicked (some .panicked)) [] []
  | retry {attempt due : Nat} :
    Treats p n (.asleep n attempt due)
      (.calling n (attempt + 1) (p.nth n) (p.now + p.handler.millis)) .called []
      [{ time := p.now, notice := n, nth := p.nth n }]
  | abandon {attempt due : Nat} (hdown : p.isShutDown) :
    Treats p n (.asleep n attempt due) .idle (.closed .abandoned) [] []

/-- The pool once a worker has gone on to another phase, with what it has seen and the calls it has
begun. -/
structure Advances (p : Pool) (w : Nat) (new : WorkerPhase) (seen : List String)
    (calls : List Call) (p' : Pool) : Prop extends IsLikeNow p p' where
  workers : p'.workers = (p.setPhase w new).workers
  seen : p'.seen = seen ++ p.seen
  calls : p'.calls = p.calls ++ calls
  isShutDown : p'.isShutDown = p.isShutDown
  stops : p'.stops = p.stops
  handles : p'.handles = p.handles

theorem Advances.get? {old new : WorkerPhase} {seen : List String} {calls : List Call}
    (h : p.Advances w new seen calls p') (hw : p.workers.get? w = some old) (k : Nat) :
  p'.workers.get? k = if k = w then some new else p.workers.get? k
  := by
  rw [h.workers, setPhase, Keyed.get?_modify hw]

theorem advances_call (p : Pool) (w : Nat) (n : Notice) (attempt : Nat) :
  p.Advances w (.calling n attempt (p.nth n) (p.now + p.handler.millis)) []
    [{ time := p.now, notice := n, nth := p.nth n }] (p.call w n attempt)
  where
    plan := rfl
    handler := rfl
    now := rfl
    workers := rfl
    seen := rfl
    calls := rfl
    isShutDown := rfl
    stops := rfl
    handles := rfl

theorem advances_setPhase (p : Pool) (w : Nat) (new : WorkerPhase) :
  p.Advances w new [] [] (p.setPhase w new)
  where
    plan := rfl
    handler := rfl
    now := rfl
    workers := rfl
    seen := rfl
    calls := (List.append_nil _).symm
    isShutDown := rfl
    stops := rfl
    handles := rfl

theorem Advances.note {new : WorkerPhase} {seen : List String} {calls : List Call}
    (h : p.Advances w new seen calls p') (e : LogEntry) :
  p.Advances w new seen calls (p'.note e)
  := { h with }

/-- A worker skips a notice, or calls the handler for it. -/
theorem treats_process (hw : p.workers.get? w = some (.holding n)) :
  ∃ new seen calls,
    p.Treats n (.holding n) new
      (if (p.process w n).workers.get? w = some .idle then .closed .duplicate else .called)
      seen calls ∧
    p.Advances w new seen calls (p.process w n)
  := by
  rw [process]
  split
  · next hempty =>
    have hevent : n.event = "" := by simpa using hempty
    have hmarks : n.marks = [] := if_pos hevent
    have hadvances := p.advances_call w n 0
    refine ⟨_, _, _, ?_, hadvances⟩
    rw [if_neg (by simp [(hadvances.get? hw w).trans (if_pos rfl)])]
    have htreats := Treats.begin (p := p) (n := n) (by simp [hmarks])
    rw [hmarks] at htreats
    exact htreats
  · next hempty =>
    have hevent : n.event ≠ "" := by simpa using hempty
    have hmarks : n.marks = [n.event] := if_neg hevent
    split
    · next hseen =>
      have hadvances := (p.advances_setPhase w .idle).note (.duplicateSkipped n)
      refine ⟨_, _, _, ?_, hadvances⟩
      rw [if_pos ((hadvances.get? hw w).trans (if_pos rfl))]
      exact .skip hevent hseen
    · next hseen =>
      have hcall := { p with seen := n.event :: p.seen }.advances_call w n 0
      have hadvances : p.Advances w (.calling n 0 (p.nth n) (p.now + p.handler.millis)) n.marks
          [{ time := p.now, notice := n, nth := p.nth n }]
          ({ p with seen := n.event :: p.seen }.call w n 0) := by
        rw [hmarks]
        exact { hcall with seen := rfl }
      refine ⟨_, _, _, ?_, hadvances⟩
      rw [if_neg (by simp [(hadvances.get? hw w).trans (if_pos rfl)])]
      refine .begin ?_
      rw [hmarks]
      intro e he
      rw [List.mem_singleton.1 he]
      exact hseen

/-- A worker is done with a notice, or waits to repeat the call for it. -/
theorem treats_settleCall {attempt nth finish : Nat}
    (hw : p.workers.get? w = some (.calling n attempt nth finish)) :
  ∃ new,
    p.Treats n (.calling n attempt nth finish) new
      (.judged (p.handler.verdict n nth)
        (Fate.ofVerdict ((p.settleCall w n attempt (p.handler.verdict n nth)).workers.get? w
          = some .idle) (p.handler.verdict n nth))) [] [] ∧
    p.Advances w new [] [] (p.settleCall w n attempt (p.handler.verdict n nth))
  := by
  cases hverdict : p.handler.verdict n nth with
  | reconciled =>
    refine ⟨.idle, .reconcile hverdict, ?_⟩
    rw [settleCall]
    split
    · exact (p.advances_setPhase w .idle).note _
    · exact p.advances_setPhase w .idle
  | failed fault =>
    rw [settleCall, fail]
    split
    · next hattempt =>
      have hadvances := (p.advances_setPhase w
        (.asleep n attempt (p.now + (p.delay attempt).toMillisCeil))).note
        (.attemptFailed n (attempt + 1) ((p.delay attempt).toMillis % 2 ^ 64) fault)
      refine ⟨_, ?_, hadvances⟩
      have hidle := (hadvances.get? hw w).trans (if_pos rfl)
      rw [Fate.ofVerdict, if_neg]
      · exact .postpone _ hverdict hattempt
      · rw [decide_eq_true_eq]
        intro h
        cases hidle.symm.trans h
    · next hattempt =>
      have hadvances := (p.advances_setPhase w .idle).note (.gaveUp n (attempt + 1) fault)
      refine ⟨_, ?_, hadvances⟩
      have hidle := (hadvances.get? hw w).trans (if_pos rfl)
      rw [Fate.ofVerdict, if_pos (decide_eq_true hidle)]
      exact .exhaust hverdict hattempt
  | panicked => exact ⟨.crashed, .crash hverdict, p.advances_setPhase w .crashed⟩

end Pool

/-! ### Steps -/

namespace Workshop

variable {s t : Workshop}

/-- What one move does. -/
inductive Step (s : Workshop) : Workshop → Prop where
  | outside {a : Bus.Action} {exchange : Exchange} (ha : a.isOutside)
      (h : s.exchange.move a = some exchange) :
    Step s { s with exchange }
  | ask {w : Nat} (hw : s.pool.workers.get? w = some .idle)
      (hidle : .worker w ∉ s.bus.waiting) :
    Step s { s with
      exchange := { s.exchange with
        bus := s.bus.next (.worker w)
        asked := s.exchange.asked ++ [.worker w] }
      pool := s.pool.setPhase w .waiting }
  | take {w : Nat} {takers : List Party} {n : Notice} {queue : List Notice}
      (htakers : s.bus.takers = .worker w :: takers) (hqueue : s.bus.queue = n :: queue) :
    Step s { s with
      exchange := { s.exchange with
        bus := { s.bus with takers, queue }
        told := s.exchange.told ++ [(.worker w, some n)] }
      pool := s.pool.setPhase w (.holding n)
      cases := s.cases ++ [{ worker := w, notice := n }] }
  | leave {w : Nat} {takers : List Party} (htakers : s.bus.takers = .worker w :: takers)
      (hended : s.bus.hasEnded) :
    Step s { s with
      exchange := { s.exchange with
        bus := { s.bus with takers }
        told := s.exchange.told ++ [(.worker w, none)] }
      pool := s.pool.setPhase w .ended }
  /-- A worker goes on with the notice in its hands. -/
  | treat {w : Nat} {n : Notice} {old new : WorkerPhase} {change : Case → Case}
      {seen : List String} {calls : List Call} {pool : Pool}
      (hw : s.pool.workers.get? w = some old) (htreats : s.pool.Treats n old new change seen calls)
      (hpool : s.pool.Advances w new seen calls pool) :
    Step s { s with pool, cases := Case.amend s.cases w change }
  | confirm {stop : Stop} (hstop : s.pool.stop? stop.caller = some stop)
      (hover : stop.workers.all s.pool.isOver) (log : List LogEntry) :
    Step s { s with pool := { s.pool.forget stop.caller with log } }
  | expire {stop : Stop} (hstop : s.pool.stop? stop.caller = some stop)
      (hdeadline : stop.deadline ≤ s.pool.now) :
    Step s { s with pool := s.pool.forget stop.caller, late := s.late ++ [stop] }
  | start :
    Step s { s with pool := s.pool.start }
  | shutDown :
    Step s { s with pool := s.pool.shutDown }
  | stop {caller : Party} {timeout : Nat} (hidle : caller ∉ s.pool.stops.map Stop.caller) :
    Step s { s with
      exchange := { s.exchange with bus := s.bus.close, isClosed := true }
      pool := s.pool.stop caller timeout }
  | pass (millis : Nat) :
    Step s { s with pool := s.pool.passTo (s.pool.now + millis) }

/-- What a worker does is one of the steps. -/
theorem step_of_work {a : Pool.Action} (h : s.move (.work a) = some t) :
  s.Step t
  := by
  obtain ⟨⟨bus, pool, answer⟩, happly, h⟩ := Option.bind_eq_some_iff.1 h
  obtain ⟨exchange, hfollow, h⟩ := Option.bind_eq_some_iff.1 h
  cases h
  cases a with
  | ask w =>
    obtain ⟨hw, -, rfl, -⟩ := Pool.apply_ask_eq_some happly
    obtain ⟨hidle, bus, reply, hnext, rfl⟩ := Exchange.move_eq_some hfollow
    cases hnext
    exact .ask hw (hidle _ rfl)
  | receive w =>
    obtain ⟨takers, n, queue, htakers, hqueue, -, rfl, -⟩ := Pool.apply_receive_eq_some happly
    obtain ⟨-, bus, reply, hmove, rfl⟩ := Exchange.move_eq_some hfollow
    obtain ⟨⟨n', bus'⟩, htake, heq⟩ := Option.map_eq_some_iff.1 hmove
    cases heq
    obtain ⟨takers', queue', htakers', hqueue', rfl⟩ := Bus.take?_eq_some htake
    cases htakers.symm.trans htakers'
    cases hqueue.symm.trans hqueue'
    rw [filed, hqueue]
    exact .take htakers hqueue
  | dismiss w =>
    obtain ⟨takers, htakers, hended, -, rfl, -⟩ := Pool.apply_dismiss_eq_some happly
    obtain ⟨-, bus, reply, hmove, rfl⟩ := Exchange.move_eq_some hfollow
    obtain ⟨bus', hfinish, heq⟩ := Option.map_eq_some_iff.1 hmove
    cases heq
    obtain ⟨takers', htakers', -, rfl⟩ := Bus.finish?_eq_some hfinish
    cases htakers.symm.trans htakers'
    exact .leave htakers hended
  | begin w =>
    obtain ⟨n, hw, -, rfl, -⟩ := Pool.apply_begin_eq_some happly
    cases hfollow
    obtain ⟨new, seen, calls, htreats, hpool⟩ := Pool.treats_process hw
    exact .treat hw htreats hpool
  | conclude w =>
    obtain ⟨n, attempt, nth, finish, hw, -, -, rfl, -⟩ := Pool.apply_conclude_eq_some happly
    cases hfollow
    obtain ⟨new, htreats, hpool⟩ := Pool.treats_settleCall hw
    simp only [filed, hw]
    exact .treat hw htreats hpool
  | retry w =>
    obtain ⟨n, attempt, due, hw, -, -, rfl, -⟩ := Pool.apply_retry_eq_some happly
    cases hfollow
    exact .treat hw .retry (s.pool.advances_call w n (attempt + 1))
  | abandon w =>
    obtain ⟨n, attempt, due, hw, hdown, -, rfl, -⟩ := Pool.apply_abandon_eq_some happly
    cases hfollow
    exact .treat hw (.abandon hdown) ((s.pool.advances_setPhase w .idle).note _)
  | confirm caller =>
    obtain ⟨stop, hstop, rfl, hover, -, rfl, -⟩ := Pool.apply_confirm_eq_some happly
    cases hfollow
    exact .confirm hstop hover _
  | expire caller =>
    obtain ⟨stop, hstop, rfl, hdeadline, -, rfl, -⟩ := Pool.apply_expire_eq_some happly
    cases hfollow
    rw [lateAfter, hstop]
    exact .expire hstop hdeadline

/-- A move is one of the steps. -/
theorem step_of_move {m : Move} (h : s.move m = some t) :
  s.Step t
  := by
  cases m with
  | work a => exact step_of_work h
  | bus a =>
    simp only [move] at h
    split at h
    case isFalse => cases h
    case isTrue ha =>
    obtain ⟨exchange, hmove, rfl⟩ := Option.map_eq_some_iff.1 h
    exact .outside ha hmove
  | start =>
    cases h
    exact .start
  | shutDown =>
    cases h
    exact .shutDown
  | stop caller timeout =>
    simp only [move] at h
    split at h
    case isTrue => cases h
    case isFalse hidle =>
    cases h
    exact .stop hidle
  | pass millis =>
    cases h
    exact .pass millis

/-! ### Runs -/

variable {capacity : Nat} {plan : DeliveryPlan} {handler : Handler}

/-- The plan and the handler stay. -/
theorem Step.settings (h : s.Step t) :
  t.pool.plan = s.pool.plan ∧ t.pool.handler = s.pool.handler
  := by
  cases h with
  | treat _ _ hpool => exact ⟨hpool.plan, hpool.handler⟩
  | outside | ask | take | leave | confirm | expire | start | shutDown | stop | pass =>
    exact ⟨rfl, rfl⟩

theorem Runs.settings (h : (opened capacity plan handler).Runs s) :
  s.pool.plan = plan.normalized ∧ s.pool.handler = handler
  := by
  induction h with
  | refl => exact ⟨rfl, rfl⟩
  | tail _ hleads ih =>
    obtain ⟨m, hm⟩ := hleads
    obtain ⟨hplan, hhandler⟩ := (step_of_move hm).settings
    exact ⟨hplan.trans ih.1, hhandler.trans ih.2⟩

/-- What happens at the bus of a workshop may happen at the bus alone. -/
theorem Leads.exchange (h : s.Leads t) :
  s.exchange.Runs t.exchange
  := by
  obtain ⟨m, hm⟩ := h
  cases m with
  | bus a =>
    simp only [move] at hm
    split at hm
    case isFalse => cases hm
    case isTrue =>
    obtain ⟨exchange, hmove, rfl⟩ := Option.map_eq_some_iff.1 hm
    exact .single ⟨a, hmove⟩
  | work a =>
    obtain ⟨⟨bus, pool, answer⟩, -, hm⟩ := Option.bind_eq_some_iff.1 hm
    obtain ⟨exchange, hfollow, hm⟩ := Option.bind_eq_some_iff.1 hm
    cases hm
    cases a with
    | ask w | receive w | dismiss w => exact .single ⟨_, hfollow⟩
    | begin | conclude | retry | abandon | confirm | expire =>
      cases hfollow
      exact .refl
  | stop caller timeout =>
    simp only [move] at hm
    split at hm
    case isTrue => cases hm
    case isFalse =>
    cases hm
    exact .single ⟨.close, rfl⟩
  | start | shutDown | pass =>
    cases hm
    exact .refl

theorem Runs.exchange (h : s.Runs t) :
  s.exchange.Runs t.exchange
  := by
  induction h with
  | refl => exact .refl
  | tail _ hleads ih => exact ih.trans hleads.exchange

end Workshop

end Reconciliation
