import Reconciliation.Proofs.Runner
import Reconciliation.Proofs.Store
import Reconciliation.Processor

/-!
# The body of a task, stage by stage

For each stage of a job, the processor after the body of its task has gone on.  The record of
the upload is there and the task is running, so each step is possible; the only stages in which
a body cannot go on by itself are those in which it waits for its publisher, or has ended.
-/

namespace Reconciliation.Processor

variable {p q : Processor} {task : Nat} {id : String} {r : UploadRecord}

/-- The processor with the record of an upload replaced. -/
def putRecord (p : Processor) (id : String) (r : UploadRecord) : Processor :=
  { p with store := p.store.replace id r }

/-- The record of an upload that is being processed. -/
def begun (now : Int64) (r : UploadRecord) : UploadRecord :=
  { r with upload := { r.upload with stage := .processing, startedAt := now } }

/-- The record of an upload with the results of a tally. -/
def saved (tally : Tally) (r : UploadRecord) : UploadRecord :=
  { upload := { r.upload with counts := tally.counts }
    balance := tally.balance
    issues := tally.issues }

/-- The record of an upload at its final stage. -/
def closed (now : Int64) (tally : Tally) (fatal : Option Fault) (r : UploadRecord) :
    UploadRecord :=
  { r with upload := concluded now tally fatal r.upload }

/-- The processor once the body of a running task has ended. -/
def ending (p : Processor) (task : Nat) (outcome : TaskOutcome) : Processor :=
  { p.setStage task .ended with runner := p.runner.setPhase task (.returned outcome) }

theorem finish_of_running (h : p.runner.phase? task = some .running) (outcome : TaskOutcome) :
  p.finish task outcome = some (p.ending task outcome)
  := by
  have hfinish : p.runner.finish? task outcome
      = some (p.runner.setPhase task (.returned outcome)) :=
    Runner.finish?_eq_some.2 ⟨h, rfl⟩
  rw [finish, hfinish]
  rfl

theorem begin_of_record (h : p.store.get? id = some r) (s : Statement) :
  p.begin task id s
    = some ((p.putRecord id (begun p.clock.now r)).setStage task
        (.reading (.ofStatement s) {}))
  := by
  rw [begin, revised, Store.revise_of_get? h]
  rfl

theorem save_of_record (h : p.store.get? id = some r) (tally : Tally) (fatal : Option Fault) :
  p.save task id tally fatal
    = some ((p.putRecord id (saved tally r)).setStage task (.closing tally fatal))
  := by
  rw [save, Store.saveResults_of_get? h]
  rfl

theorem conclude_of_record (h : p.store.get? id = some r)
    (hphase : p.runner.phase? task = some .running) (tally : Tally) (fatal : Option Fault) :
  p.conclude task id tally fatal
    = some ((p.putRecord id (closed p.clock.now tally fatal r)).ending task (conclusion fatal))
  := by
  rw [conclude, revised, Store.revise_of_get? h]
  exact finish_of_running (p := p.putRecord id (closed p.clock.now tally fatal r)) hphase _

theorem published_eq (p : Processor) (task : Nat) (reader : Reader) (tally : Tally)
    (notice : Notice) (fault : Option Fault) :
  ∃ log, p.published task reader tally notice fault
    = { p.setStage task (.reading reader (tally.record notice.transaction)) with log }
  := by
  cases fault with
  | none => exact ⟨p.log, rfl⟩
  | some fault => exact ⟨p.log ++ [.publishFailed notice fault], rfl⟩

/-- A body that goes on belongs to a running task that has a job. -/
theorem exists_of_proceed (h : p.proceed task = some q) :
  p.runner.phase? task = some .running ∧ ∃ job, p.jobs.get? task = some job
  := by
  rw [proceed] at h
  split at h
  · next job hphase hjob => exact ⟨hphase, job, hjob⟩
  · cases h

theorem proceed_of_job {job : Job} (hphase : p.runner.phase? task = some .running)
    (hjob : p.jobs.get? task = some job) :
  p.proceed task =
    match job.stage with
    | .fresh statement => p.begin task job.upload statement
    | .reading reader tally => p.read task job.upload reader tally
    | .announcing reader tally t => some (p.announce task job.upload reader tally t)
    | .offering reader tally notice => some (p.offer task reader tally notice)
    | .publishing _ _ _ => none
    | .saving tally fatal => p.save task job.upload tally fatal
    | .closing tally fatal => p.conclude task job.upload tally fatal
    | .ended => none
  := by
  cases hstage : job.stage with
  | fresh | reading | announcing | offering | publishing | saving | closing | ended =>
    simp only [proceed, hphase, hjob, hstage]

/-- A task that leaves the bus was waiting there with its notice. -/
theorem leaveBus_eq_some {bus : Option Bus} {fault : Option Fault}
    (h : p.leaveBus task bus fault = some q) :
  ∃ b id reader tally notice, bus = some b ∧
    p.jobs.get? task = some { upload := id, stage := .publishing reader tally notice } ∧
    q = { p with bus := b }.published task reader tally notice fault
  := by
  unfold leaveBus at h
  split at h
  · next b id reader tally notice hjob =>
    cases h
    exact ⟨b, id, reader, tally, notice, rfl, hjob, rfl⟩
  · cases h

/-! ### Uploads -/

/-- The processor with a statement accepted. -/
def accepting (p : Processor) (caller : Party) (statement : Statement) (store : Store) :
    Processor :=
  { p with
    ids := p.ids.advance
    store
    jobs := p.jobs.add p.runner.submitted { upload := p.ids.peek, stage := .fresh statement }
    runner := p.runner.submit caller root }

theorem need_eq_ok_iff {part : Part} :
  p.need part = .ok () ↔ part ∉ p.missing
  := by
  rw [need]
  split
  · next h => simp [h]
  · next h => simp [h]

theorem need_of_mem {part : Part} (h : part ∈ p.missing) :
  p.need part = .error (.missingDependency part.name)
  := if_pos h

/-- An upload is refused for want of a part, with nothing changed; or because the identity drawn
for it is taken, with only that identity gone; or it is accepted. -/
theorem upload_cases (p : Processor) (caller : Party) (statement : Statement) :
  (∃ part ∈ [Part.store, .runner, .ids], part ∈ p.missing ∧
    p.upload caller statement = (p, .error (.missingDependency part.name))) ∨
  (p.store.get? p.ids.peek ≠ none ∧ p.upload caller statement
    = ({ p with ids := p.ids.advance }, .error (.uploadConflict p.ids.peek))) ∨
  ((∀ part ∈ [Part.store, .runner, .ids], part ∉ p.missing) ∧
    ∃ store, p.store.create (.accepted p.ids.peek) = .ok store ∧
      p.upload caller statement = (p.accepting caller statement store, .ok p.ids.peek))
  := by
  by_cases hstore : .store ∈ p.missing
  · exact .inl ⟨.store, by simp, hstore, by rw [upload, need_of_mem hstore]⟩
  by_cases hrunner : .runner ∈ p.missing
  · exact .inl ⟨.runner, by simp, hrunner, by
      rw [upload, need_eq_ok_iff.2 hstore, need_of_mem hrunner]⟩
  by_cases hids : .ids ∈ p.missing
  · exact .inl ⟨.ids, by simp, hids, by
      rw [upload, need_eq_ok_iff.2 hstore, need_eq_ok_iff.2 hrunner, need_of_mem hids]⟩
  right
  rw [upload, need_eq_ok_iff.2 hstore, need_eq_ok_iff.2 hrunner, need_eq_ok_iff.2 hids]
  by_cases hfree : p.store.get? p.ids.peek = none
  · right
    have hcreate : p.store.create (.accepted p.ids.peek) = .ok _ :=
      Store.create_eq_ok_iff.2 ⟨hfree, rfl⟩
    refine ⟨by simp [hstore, hrunner, hids], _, hcreate, ?_⟩
    dsimp only [IdSource.draw]
    rw [hcreate]
    rfl
  · left
    refine ⟨hfree, ?_⟩
    obtain ⟨r, hr⟩ := Option.ne_none_iff_exists'.1 hfree
    dsimp only [IdSource.draw]
    rw [Store.create, show (Upload.accepted p.ids.peek).id = p.ids.peek from rfl, hr]
    rfl

end Reconciliation.Processor
