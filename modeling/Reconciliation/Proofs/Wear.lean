import Reconciliation.Proofs.Intake
import Reconciliation.Proofs.System

/-!
# Every action is a step towards the end

The work that `Engine.system` counts is an upper bound on the actions that are left: an input that
is not uploaded yet counts for all actions that its task can still cost, a job for those of its
body, a task for those of its keeper, and a worker for its own, with the notices that can still
come to it.  Every action of a run lowers it (`Engine.wears_start`), whoever acts.
-/

namespace Reconciliation

namespace Processor

/-- A statement that is accepted costs what its task and its keeper have to do. -/
theorem work_accepting (p : Processor) (caller : Party) (s : Statement) (store : Store) :
  (p.accepting caller s store).work = p.work + 4 * s.bytes.length + 7
  := by
  have htotal : Keyed.total (fun j => stageWork j.stage)
        (p.jobs.add p.runner.submitted { upload := p.ids.peek, stage := .fresh s })
      = Keyed.total (fun j => stageWork j.stage) p.jobs + (4 * s.bytes.length + 4) :=
    Keyed.total_add _ _ _ _
  simp only [work, accepting, Runner.work, Runner.submit, List.length_append,
    List.length_singleton]
  omega

theorem load_accepting (p : Processor) (caller : Party) (s : Statement) (store : Store) :
  (p.accepting caller s store).load = p.load + s.bytes.length
  := by
  have htotal : Keyed.total (fun j => stageNotices j.stage)
        (p.jobs.add p.runner.submitted { upload := p.ids.peek, stage := .fresh s })
      = Keyed.total (fun j => stageNotices j.stage) p.jobs + s.bytes.length :=
    Keyed.total_add _ _ _ _
  simp only [load, notices, accepting]
  omega

theorem work_wait (p : Processor) (caller : Party) :
  (p.wait caller).work = p.work + 1
  := by
  simp only [work, wait, Runner.work, Runner.wait, List.length_append, List.length_singleton]
  omega

end Processor

namespace Engine

variable {base : Service} {inputs rest : List Input} {e e' : Engine} {j : Journal}
  {input : Input}

theorem notices_eq (e : Engine) :
  e.notices
    = sumOf (fun i => i.statement.bytes.length) (remaining e.intake) + e.processor.load
  := by
  simp only [notices, Processor.load, Bus.load]
  omega

/-- The work is that of the usher, that of the processor, and that of the workers. -/
theorem work_eq (e : Engine) :
  system.work e = sumOf inputWork (remaining e.intake) + intakeWork e.intake +
    e.processor.work + e.pool.work e.notices
  := rfl

/-- What the usher hears does not add to the work. -/
theorem Awaits.hear (h : e.Awaits) {q : Processor} {reply : Option Processor.Reply}
    (hacts : e.processor.Acts q reply) :
  remaining ({ e with processor := q }.hear reply).intake = remaining e.intake ∧
    intakeWork ({ e with processor := q }.hear reply).intake = intakeWork e.intake
  := by
  have haccepted : ∀ (p : Processor) id,
      remaining ({ e with processor := p }.hear (some (.accepted id))).intake
          = remaining e.intake ∧
        intakeWork ({ e with processor := p }.hear (some (.accepted id))).intake
          = intakeWork e.intake := by
    intro p id
    cases e.intake with
    | ready | entering | waiting | processed | closed | refused => exact ⟨rfl, rfl⟩
  cases hacts with
  | @enter _ task _ _ | @drop _ task _ _ =>
    rw [Processor.accepted]
    cases e.processor.jobs.get? task with
    | none => exact ⟨rfl, rfl⟩
    | some job => exact haccepted _ job.upload
  | report hreport =>
    obtain ⟨w, hw, -⟩ := Runner.report?_eq_some hreport
    obtain ⟨hintake, -⟩ := h.waiting_of_mem hw
    rw [hintake]
    exact ⟨rfl, rfl⟩
  | skip | start | collect | body => exact ⟨rfl, rfl⟩

namespace Orderly

/-- Every action of an engine in good order lowers the work. -/
theorem work_lt (h : e.Orderly base inputs j) (hnew : base.IsNew)
    (hmissing : base.session.processor.missing = [])
    (hserves : base.session.processor.ids.Serves (demand inputs)) {a : Action}
    (ha : e.apply a = some e') :
  system.work e' < system.work e
  := by
  have hs := h.runs.sound hnew
  cases a with
  | upload =>
    obtain ⟨input, rest, hintake⟩ := exists_of_apply_upload ha
    obtain ⟨store, -, happly⟩ := h.exists_upload hnew hmissing hserves hintake
    cases happly.symm.trans ha
    rw [work_eq, work_eq, notices_eq, notices_eq]
    dsimp only
    rw [hintake, Processor.work_accepting, Processor.load_accepting]
    simp only [remaining, intakeWork, sumOf, List.foldr_cons, inputWork]
    have hnotices : rest.foldr (fun i n => i.statement.bytes.length + n) 0 +
          (e.processor.load + input.statement.bytes.length)
        = input.statement.bytes.length + rest.foldr (fun i n => i.statement.bytes.length + n) 0 +
          e.processor.load := by
      omega
    rw [hnotices]
    omega
  | wait =>
    obtain ⟨hintake, rfl⟩ := apply_wait_eq_some ha
    rw [work_eq, work_eq, notices_eq, notices_eq]
    dsimp only
    rw [hintake, Processor.work_wait]
    have hload : (e.processor.wait usher).load = e.processor.load := rfl
    simp only [remaining, intakeWork, hload]
    omega
  | close =>
    obtain ⟨hintake, rfl⟩ := apply_close_eq_some ha
    rw [work_eq, work_eq, notices_eq, notices_eq, hintake]
    show 0 + 0 + e.processor.work + e.pool.work (0 + e.processor.load)
      < 0 + 1 + e.processor.work + e.pool.work (0 + e.processor.load)
    omega
  | processor a =>
    obtain ⟨⟨q, reply⟩, hq, rfl⟩ := Option.map_eq_some_iff.1 ha
    have hacts := Processor.acts_of_apply hq
    have hwork := hacts.work_lt hs.numbered.keys hs.keys
    have hload := hacts.load_le hs.keys
    obtain ⟨hremaining, hintake⟩ := h.awaits.hear hacts
    have hprocessor : ({ e with processor := q }.hear reply).processor = q :=
      congrArg (fun s => s.session.processor) (service_hear { e with processor := q } reply j)
    have hpool : ({ e with processor := q }.hear reply).pool = e.pool := pool_hear _ _
    rw [work_eq, work_eq, notices_eq, notices_eq]
    simp only [hremaining, hintake, hprocessor, hpool]
    have hmono := e.pool.work_mono (Nat.add_le_add_left hload
      (sumOf (fun i => i.statement.bytes.length) (remaining e.intake)))
    omega
  | pool a =>
    obtain ⟨⟨b, pool, answer⟩, hpool, rfl⟩ := Option.map_eq_some_iff.1 ha
    have hpaired := h.runs.paired hnew
    have hstep := Pool.step_of_apply hpool
    have hoffers : b.offers = e.processor.bus.offers := by
      cases hstep with
      | ask | receive | dismiss | begin | conclude | retry | abandon | confirm | expire => rfl
    have hlt := Pool.work_lt hstep h.bounded hpaired.keys
      (fun w takers htaker => (Pool.takers_of_first hpaired.keys hpaired.takers htaker .idle rfl).1)
      (sumOf (fun i => i.statement.bytes.length) (remaining e.intake) +
        e.processor.notices + e.processor.bus.offers.length)
    rw [← hoffers] at hlt
    rw [work_eq, work_eq]
    simp only [notices, ← hoffers]
    exact Nat.add_lt_add_left hlt _

end Orderly

/-- Every action that is possible in a run lowers the work. -/
theorem wears_start (settings : Settings) {ids : IdSource} (clock : Clock)
    (hserves : ids.Serves (demand inputs)) :
  system.Wears (start settings ids clock inputs)
  := by
  intro e e' a he ha
  obtain ⟨j, hj⟩ := exists_orderly hserves he
  exact hj.work_lt (isNew_origin settings ids clock) rfl hserves ha

end Engine

end Reconciliation
