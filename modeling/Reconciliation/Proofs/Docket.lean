import Reconciliation.Proofs.Effort
import Reconciliation.Proofs.System
import Reconciliation.Proofs.Tasks

/-!
# Dockets

A `Docket` is a runner together with what became of the tasks that were submitted to it.  Anybody
may submit a task, wait for tasks, end a body that runs or fire a token at any time, except that a
caller makes one call at a time; those at the runner go on in any order.

`Docket.Step` lists all that one move can do.
-/

namespace Reconciliation

/-! ### Phases -/

namespace TaskPhase

/-- The body of the task has started. -/
def hasStarted : TaskPhase → Bool
  | .admitted => false
  | .skipped => false
  | .running => true
  | .returned _ => true
  | .ended _ => true

/-- How a task goes from one phase to the next.  Its keeper skips it if its token has fired, and
starts it otherwise; a body ends as it likes. -/
inductive Next (isFired : Prop) : TaskPhase → TaskPhase → Prop where
  | skip (h : isFired) : Next isFired .admitted .skipped
  | start (h : ¬ isFired) : Next isFired .admitted .running
  | finish (outcome : TaskOutcome) : Next isFired .running (.returned outcome)
  | collect (outcome : TaskOutcome) : Next isFired (.returned outcome) (.ended outcome)

variable {isFired : Prop} {old new : TaskPhase}

theorem Next.isOver_old (h : Next isFired old new) :
  old.isOver = false
  := by
  cases h with
  | _ => rfl

theorem Next.of_skipped (h : Next isFired old new) (hnew : new = .skipped) :
  isFired
  := by
  cases h with
  | skip h => exact h
  | start | finish | collect => cases hnew

end TaskPhase

namespace Runner

/-! ### Actions -/

/-- The party that makes a call with an action, and waits for the answer. -/
def Action.call? : Action → Option Party
  | .submit p _ | .wait p => some p
  | .enter _ | .drop _ | .skip _ | .start _ | .finish _ _ | .collect _ | .report _ | .fire _ => none

/-- Those at the runner go on by themselves: nobody calls, no body ends, and no token fires. -/
def Action.isTurn : Action → Bool
  | .enter _ | .drop _ | .skip _ | .start _ | .collect _ | .report _ => true
  | .submit _ _ | .finish _ _ | .wait _ | .fire _ => false

/-- The callers that wait at the runner. -/
def callers (r : Runner) : List Party :=
  r.line.map Submission.caller ++ r.waits.map Wait.caller

end Runner

/-! ### Dockets -/

/-- A runner, and what became of the tasks submitted so far. -/
structure Docket where
  runner : Runner
  /-- The tokens of the tasks, in the order of submission: tasks are numbered in that order. -/
  tokens : List Token := []
  /-- The tasks that got a slot, in the order of their admission. -/
  admitted : List Nat := []
  /-- The tasks that left the line without a slot. -/
  dropped : List Nat := []
  /-- The admitted tasks whose bodies were never to start. -/
  skipped : List Nat := []
  /-- The tasks whose bodies started, in the order in which they did. -/
  started : List Nat := []
  /-- The tasks whose bodies ended, and how. -/
  ended : List (Nat × TaskOutcome) := []
  deriving DecidableEq

namespace Docket

/-- A new runner to which nothing was submitted. -/
def opened (capacity : Nat) : Docket :=
  { runner := .ofCapacity capacity }

/-- The docket once a task has come to a phase. -/
def marked (d : Docket) (task : Nat) : TaskPhase → Docket
  | .skipped => { d with skipped := d.skipped ++ [task] }
  | .running => { d with started := d.started ++ [task] }
  | .returned outcome => { d with ended := d.ended ++ [(task, outcome)] }
  | .admitted => d
  | .ended _ => d

/-- What the docket says after an action of its runner. -/
def noted (d : Docket) : Runner.Action → Option Runner.Reply → Docket
  | .submit _ token, _ => { d with tokens := d.tokens ++ [token] }
  | .enter _, some (.admitted task) => { d with admitted := d.admitted ++ [task] }
  | .drop _, some (.dropped task) => { d with dropped := d.dropped ++ [task] }
  | .skip task, _ => d.marked task .skipped
  | .start task, _ => d.marked task .running
  | .finish task outcome, _ => d.marked task (.returned outcome)
  | _, _ => d

/-- The docket after an action, unless a caller that waits for an answer makes another call. -/
def move (d : Docket) (a : Runner.Action) : Option Docket :=
  if ∀ p ∈ a.call?, p ∉ d.runner.callers then
    (d.runner.apply a).map fun (runner, reply) => { d.noted a reply with runner }
  else none

/-- A move leads from one docket to the other. -/
def Leads (d e : Docket) : Prop :=
  ∃ a, d.move a = some e

/-- Moves, in any number and order, lead from one docket to the other. -/
def Runs : Docket → Docket → Prop :=
  Relation.ReflTransGen Leads

/-- The tasks whose bodies run. -/
def running (d : Docket) : List Nat :=
  d.started.filter (fun k => decide (k ∉ d.ended.map Prod.fst))

/-- The admitted tasks that were not skipped and whose bodies have not ended. -/
def unended (d : Docket) : List Nat :=
  d.admitted.filter (fun k => decide (k ∉ d.skipped ∧ k ∉ d.ended.map Prod.fst))

/-! ### Steps -/

variable {d e : Docket}

/-- What one move does. -/
inductive Step (d : Docket) : Docket → Prop where
  | submit (caller : Party) (token : Token) (hidle : caller ∉ d.runner.callers) :
    Step d { d with runner := d.runner.submit caller token, tokens := d.tokens ++ [token] }
  | enter {caller : Party} {task : Nat} {r : Runner}
      (h : d.runner.enter? caller = some (task, r)) :
    Step d { d with runner := r, admitted := d.admitted ++ [task] }
  | drop {caller : Party} {task : Nat} {r : Runner}
      (h : d.runner.drop? caller = some (task, r)) :
    Step d { d with runner := r, dropped := d.dropped ++ [task] }
  /-- A task goes to its next phase. -/
  | turn {task : Nat} {t : Task} {new : TaskPhase} {free : Nat}
      (h : d.runner.tasks.get? task = some t)
      (hnext : t.phase.Next (t.token ∈ d.runner.fired) new)
      (hfree : free + new.slots = d.runner.free + t.phase.slots) :
    Step d { d.marked task new with
      runner := { d.runner.setPhase task new with free, errors := d.runner.errors ++ new.faults } }
  | wait (caller : Party) (hidle : caller ∉ d.runner.callers) :
    Step d { d with runner := d.runner.wait caller }
  | report {caller : Party} {errors : List Fault} {r : Runner}
      (h : d.runner.report? caller = some (errors, r)) :
    Step d { d with runner := r }
  | fire (token : Token) :
    Step d { d with runner := d.runner.fire token }

theorem move_eq_some {a : Runner.Action} (h : d.move a = some e) :
  (∀ p ∈ a.call?, p ∉ d.runner.callers) ∧
    ∃ runner reply, d.runner.apply a = some (runner, reply) ∧
      e = { d.noted a reply with runner }
  := by
  unfold move at h
  split at h
  case isFalse => cases h
  case isTrue hidle =>
  obtain ⟨⟨runner, reply⟩, happly, rfl⟩ := Option.map_eq_some_iff.1 h
  exact ⟨hidle, runner, reply, happly, rfl⟩

theorem step_of_skip {task : Nat} {r : Runner} (h : d.runner.skip? task = some r) :
  d.Step { d.marked task .skipped with runner := r }
  := by
  obtain ⟨t, ht, hphase, hfired, rfl⟩ := Runner.skip?_eq_some h
  have hnext : t.phase.Next (t.token ∈ d.runner.fired) .skipped := by
    rw [hphase]
    exact .skip hfired
  have hfree : d.runner.free + 1 + TaskPhase.skipped.slots = d.runner.free + t.phase.slots := by
    rw [hphase]
    rfl
  have hstep := Step.turn ht hnext hfree
  rw [TaskPhase.faults, List.append_nil] at hstep
  exact hstep

theorem step_of_start {task : Nat} {r : Runner} (h : d.runner.start? task = some r) :
  d.Step { d.marked task .running with runner := r }
  := by
  obtain ⟨t, ht, hphase, hfired, rfl⟩ := Runner.start?_eq_some h
  have hnext : t.phase.Next (t.token ∈ d.runner.fired) .running := by
    rw [hphase]
    exact .start hfired
  have hfree : d.runner.free + TaskPhase.running.slots = d.runner.free + t.phase.slots := by
    rw [hphase]
    rfl
  have hstep := Step.turn ht hnext hfree
  rw [TaskPhase.faults, List.append_nil] at hstep
  exact hstep

theorem step_of_finish {task : Nat} {outcome : TaskOutcome} {r : Runner}
    (h : d.runner.finish? task outcome = some r) :
  d.Step { d.marked task (.returned outcome) with runner := r }
  := by
  obtain ⟨hrunning, rfl⟩ := Runner.finish?_eq_some.1 h
  obtain ⟨t, ht, hphase⟩ := Runner.exists_of_phase? hrunning
  have hnext : t.phase.Next (t.token ∈ d.runner.fired) (.returned outcome) := by
    rw [hphase]
    exact .finish outcome
  have hfree : d.runner.free + (TaskPhase.returned outcome).slots
      = d.runner.free + t.phase.slots := by
    rw [hphase]
    rfl
  have hstep := Step.turn ht hnext hfree
  rw [TaskPhase.faults, List.append_nil] at hstep
  exact hstep

theorem step_of_collect {task : Nat} {outcome : TaskOutcome} {r : Runner}
    (h : d.runner.collect? task = some (outcome, r)) :
  d.Step { d with runner := r }
  := by
  obtain ⟨hreturned, rfl⟩ := Runner.collect?_eq_some h
  obtain ⟨t, ht, hphase⟩ := Runner.exists_of_phase? hreturned
  have hnext : t.phase.Next (t.token ∈ d.runner.fired) (.ended outcome) := by
    rw [hphase]
    exact .collect outcome
  have hfree : d.runner.free + 1 + (TaskPhase.ended outcome).slots
      = d.runner.free + t.phase.slots := by
    rw [hphase]
    rfl
  rw [Runner.errorsWith_eq]
  exact .turn ht hnext hfree

/-- A move is one of the steps. -/
theorem step_of_move {a : Runner.Action} (h : d.move a = some e) :
  d.Step e
  := by
  obtain ⟨hidle, runner, reply, happly, rfl⟩ := move_eq_some h
  cases a with
  | submit caller token =>
    cases happly
    exact .submit caller token (hidle caller rfl)
  | enter caller =>
    obtain ⟨⟨task, r⟩, henter, heq⟩ := Option.map_eq_some_iff.1 happly
    cases heq
    exact .enter henter
  | drop caller =>
    obtain ⟨⟨task, r⟩, hdrop, heq⟩ := Option.map_eq_some_iff.1 happly
    cases heq
    exact .drop hdrop
  | skip task =>
    obtain ⟨r, hskip, heq⟩ := Option.map_eq_some_iff.1 happly
    cases heq
    exact step_of_skip hskip
  | start task =>
    obtain ⟨r, hstart, heq⟩ := Option.map_eq_some_iff.1 happly
    cases heq
    exact step_of_start hstart
  | finish task outcome =>
    obtain ⟨r, hfinish, heq⟩ := Option.map_eq_some_iff.1 happly
    cases heq
    exact step_of_finish hfinish
  | collect task =>
    obtain ⟨⟨outcome, r⟩, hcollect, heq⟩ := Option.map_eq_some_iff.1 happly
    cases heq
    exact step_of_collect hcollect
  | wait caller =>
    cases happly
    exact .wait caller (hidle caller rfl)
  | report caller =>
    obtain ⟨⟨errors, r⟩, hreport, heq⟩ := Option.map_eq_some_iff.1 happly
    cases heq
    exact .report hreport
  | fire token =>
    cases happly
    exact .fire token

end Docket

end Reconciliation
