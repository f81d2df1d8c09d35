import Reconciliation.Proofs.Agreement

/-!
# The results of an upload

When the body of a task has ended, the record of its upload is a function of the statement
alone: `Statement.result`.  Nothing that happens besides has any influence on it but for the two
times; in particular it does not matter what the publisher answers, or what other uploads there
are.  The task returns the fault that ended the reading, if there was one, and it has called the
publisher once for each failed transaction, in the order of the statement.
-/

namespace Reconciliation

/-- The record that a statement comes to, processed between two instants. -/
def Statement.result (s : Statement) (id : String) (startedAt endedAt : Int64) : UploadRecord :=
  { upload := {
      id
      stage := if s.fatal?.isSome then .failed else .done
      error := s.fatal?.map Fault.message
      startedAt, endedAt
      counts := s.counts }
    balance := s.balance
    issues := s.issues }

/-- The record that a job writes with the tally of its statement. -/
theorem closed_eq_result (s : Statement) (id : String) (startedAt endedAt : Int64) :
  Processor.closed endedAt (.of s.outcomes) s.fatal?
      (Processor.saved (.of s.outcomes) (Processor.begun startedAt (.accepted id)))
    = s.result id startedAt endedAt
  := by
  rw [s.tally_outcomes]
  rfl

namespace Session

variable {start s : Session} {task : Nat} {id : String} {statement : Statement}

/-- When the body of a task has ended, the record of its upload is the result of the statement,
the task returns the fault that ended the reading, which carries the number of lines, and the
publisher has been called once for each failed transaction, in order. -/
theorem Runs.result_of_ended {o : TaskOutcome} (hnew : start.IsNew) (h : start.Runs s)
    (haccepted : s.journal.accepted[task]? = some (id, statement))
    (hending : ∀ m, statement.ending ≠ .panicking m)
    (houtcome : (s.processor.runner.phase? task).bind TaskPhase.outcome? = some o) :
  (∃ startedAt endedAt,
    s.processor.store.get? id = some (statement.result id startedAt endedAt)) ∧
  o = Processor.conclusion statement.fatal? ∧
  (∀ f, statement.fatal? = some f →
    ∃ m, f = .unreadable (some statement.counts.total) m) ∧
  (s.journal.publishedBy task).map (fun n => (n.upload, n.transaction))
    = if .events ∈ start.processor.missing then []
      else statement.failures.map (fun x => (id, x))
  := by
  obtain ⟨c, hc, hagrees⟩ := h.agrees hnew haccepted
  rw [hc.phase] at houtcome
  obtain ⟨-, htell, hclosed⟩ := hagrees.ended_of_outcome? houtcome
  cases hclosed with
  | panicked hpanics =>
    obtain ⟨m, hm⟩ := Statement.ending_of_panics hpanics
    exact absurd hm (hending m)
  | finished _ begin close hrecord hconclusion =>
    refine ⟨⟨begin, close, ?_⟩, ?_, fun f => statement.line_of_fatal?, ?_⟩
    · rw [hc.record, hrecord, closed_eq_result]
    · rw [Course.outcome?] at hconclusion
      simpa only [Option.some.injEq] using houtcome.symm.trans hconclusion
    · rw [hc.published, htell.map_eq, announced_outcomes]
      split
      · rfl
      · rfl

theorem result_of_small :
  (∃ startedAt endedAt,
    smallEnd.processor.store.get? "u" = some (small.result "u" startedAt endedAt)) ∧
  .succeeded = Processor.conclusion small.fatal? ∧
  (∀ f, small.fatal? = some f → ∃ m, f = .unreadable (some small.counts.total) m) ∧
  (smallEnd.journal.publishedBy 0).map (fun n => (n.upload, n.transaction))
    = if .events ∈ smallStart.processor.missing then []
      else small.failures.map (fun x => ("u", x))
  := by
  apply Runs.result_of_ended isNew_smallStart runs_small
  · decide +kernel
  · exact nofun
  · decide +kernel

end Session

end Reconciliation
