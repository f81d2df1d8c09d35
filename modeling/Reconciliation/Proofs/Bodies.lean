import Reconciliation.Proofs.Agreement
import Reconciliation.Proofs.Traffic

/-!
# Tasks that can go on

A task that is under way can go on, whatever the others do: its keeper starts it, skips it or
collects its outcome, or its body does what comes next (`Session.Runs.goesOn`).  The only thing
that a body waits for is the answer of the bus to an offer.
-/

namespace Reconciliation

/-! ### Bodies -/

namespace Processor

variable {p : Processor} {task : Nat} {id : String} {r : UploadRecord}

theorem isSome_finish (h : p.runner.phase? task = some .running) (outcome : TaskOutcome) :
  (p.finish task outcome).isSome
  := by
  rw [finish_of_running h]
  rfl

theorem isSome_read (h : p.runner.phase? task = some .running) (reader : Reader)
    (tally : Tally) :
  (p.read task id reader tally).isSome
  := by
  rw [read]
  dsimp only
  split
  · split
    · rfl
    · rfl
  · rfl
  · rfl
  · rfl
  · next m _ => exact isSome_finish (p := p.note (.panicCaptured (.text m))) h _

/-- A body goes on, unless it waits at the bus. -/
theorem isSome_proceed {stage : JobStage} (hphase : p.runner.phase? task = some .running)
    (hjob : p.jobs.get? task = some { upload := id, stage })
    (hrecord : p.store.get? id = some r) (hwaits : stage.offer? task = none)
    (hended : stage ≠ .ended) :
  (p.proceed task).isSome
  := by
  rw [proceed_of_job hphase hjob]
  cases stage with
  | fresh s =>
    dsimp only
    rw [begin_of_record hrecord]
    rfl
  | reading reader tally => exact isSome_read hphase reader tally
  | announcing | offering => rfl
  | publishing => cases hwaits
  | saving tally fatal =>
    dsimp only
    rw [save_of_record hrecord]
    rfl
  | closing tally fatal =>
    dsimp only
    rw [conclude_of_record hrecord hphase]
    rfl
  | ended => exact absurd rfl hended

end Processor

/-! ### Tasks -/

namespace Session

variable {start s : Session} {task : Nat} {phase : TaskPhase}

/-- The keeper of an admitted task starts it, or skips it if its token has fired. -/
theorem goesOn_of_admitted (h : s.processor.runner.phase? task = some .admitted) :
  ∃ a ∈ Processor.options (.keeper task), (s.processor.apply a).isSome
  := by
  obtain ⟨⟨token, _⟩, ht, rfl⟩ := Runner.exists_of_phase? h
  by_cases hfired : token ∈ s.processor.runner.fired
  · refine ⟨.skip task, by simp [Processor.options], ?_⟩
    simp [Processor.apply, Runner.skip?, ht, hfired]
  · refine ⟨.start task, by simp [Processor.options], ?_⟩
    simp [Processor.apply, Runner.start?, ht, hfired]

/-- The job of a running task has not ended. -/
theorem Runs.stage_of_running (hnew : start.IsNew) (h : start.Runs s) {id : String} {c : Course}
    (hc : s.Shows task id c) (hphase : c.phase = some .running) :
  c.stage ≠ .ended
  := by
  intro hstage
  obtain ⟨c', hc', hagrees⟩ := h.agrees hnew
    (List.getElem?_eq_getElem ((h.sound hnew.sound).lt_of_shows hc))
  obtain ⟨-, rfl⟩ := hc.unique hc'
  have hnone : c.outcome? = none := by
    rw [Course.outcome?, hphase]
    rfl
  rw [Course.Agrees, hstage] at hagrees
  cases hagrees.2 with
  | finished _ _ _ _ houtcome => cases hnone.symm.trans houtcome
  | panicked _ _ _ _ houtcome => cases hnone.symm.trans houtcome

/-- A task that is under way can go on, unless it waits for the bus to take its notice. -/
theorem Runs.goesOn (hnew : start.IsNew) (h : start.Runs s)
    (hphase : s.processor.runner.phase? task = some phase) (hover : phase.isOver = false) :
  (∃ job, s.processor.jobs.get? task = some job ∧ (job.stage.offer? task).isSome) ∨
  ∃ party, (party = .keeper task ∨ party = .body task) ∧
    ∃ a ∈ Processor.options party, (s.processor.apply a).isSome
  := by
  cases phase with
  | admitted => exact .inr ⟨.keeper task, .inl rfl, goesOn_of_admitted hphase⟩
  | returned outcome =>
    refine .inr ⟨.keeper task, .inl rfl, .collect task, by simp [Processor.options], ?_⟩
    simp [Processor.apply, Runner.collect?, hphase]
  | running =>
    obtain ⟨id, c, hc, hcphase⟩ := (h.sound hnew.sound).exists_shows_of_phase hphase
    cases hwaits : c.stage.offer? task with
    | some o => exact .inl ⟨_, hc.job, by rw [hwaits]; rfl⟩
    | none =>
      refine .inr ⟨.body task, .inr rfl, .proceed task, by simp [Processor.options], ?_⟩
      rw [Processor.apply, Option.isSome_map]
      exact Processor.isSome_proceed hphase hc.job hc.record hwaits
        (h.stage_of_running hnew hc hcphase)
  | skipped | ended => cases hover

end Session

end Reconciliation
