import Reconciliation.Proofs.Agreement

/-!
# The life of an upload

A job writes its record in three pieces: that processing has begun, the results, and the final
stage.  Readers may come between any two of them, and `Written` lists what they can find there.
From that list follows what holds of a record at any time, and that a record at a final stage
is never written again (`Session.Runs.lifecycle`).
-/

namespace Reconciliation

/-- A stage is followed by the other. -/
inductive Stage.Follows : Stage → Stage → Prop where
  | begin : Follows .queued .processing
  | finish : Follows .processing .done
  | fail : Follows .processing .failed

/-- What holds of the record of an upload at any time. -/
structure UploadRecord.Coherent (id : String) (r : UploadRecord) : Prop where
  id : r.upload.id = id
  total : r.upload.counts.total = r.upload.counts.parsed + r.upload.counts.rejected
  error : r.upload.error.isSome ↔ r.upload.stage = .failed
  endedAt : r.upload.stage.isTerminal = false → r.upload.endedAt = 0

/-- A record without results. -/
structure UploadRecord.IsBlank (r : UploadRecord) : Prop where
  balance : r.balance = 0
  issues : r.issues = []
  counts : r.upload.counts = {}

/-- A job has saved its results, if its body is at this stage, or has ended in this way. -/
def JobStage.hasSaved (outcome : Option TaskOutcome) : JobStage → Bool
  | .closing _ _ => true
  | .ended =>
    match outcome with
    | some (.panicked _) => false
    | _ => true
  | _ => false

theorem JobStage.hasSaved_of_isBusy {stage : JobStage} (h : stage.isBusy)
    (outcome : Option TaskOutcome) :
  stage.hasSaved outcome = false
  := by
  cases stage with
  | fresh | closing | ended => cases h
  | reading | announcing | offering | publishing | saving => rfl

/-- What the job of an upload writes into its record, and whether the results are among it. -/
inductive Written (id : String) (s : Statement) : Bool → UploadRecord → Prop where
  | accepted : Written id s false (.accepted id)
  | begun (now : Int64) : Written id s false (Processor.begun now (.accepted id))
  | saved (now : Int64) :
      Written id s true
        (Processor.saved (.of s.outcomes) (Processor.begun now (.accepted id)))
  | closed (now later : Int64) :
      Written id s true (Processor.closed later (.of s.outcomes) s.fatal?
        (Processor.saved (.of s.outcomes) (Processor.begun now (.accepted id))))

namespace Written

variable {id : String} {s : Statement} {saved : Bool} {r : UploadRecord}

theorem coherent (h : Written id s saved r) :
  r.Coherent id
  := by
  have htotal : (Tally.of s.outcomes).counts.total
      = (Tally.of s.outcomes).counts.parsed + (Tally.of s.outcomes).counts.rejected := by
    rw [s.tally_outcomes]
    rfl
  cases h with
  | accepted => exact ⟨rfl, rfl, ⟨nofun, nofun⟩, fun _ => rfl⟩
  | begun => exact ⟨rfl, rfl, ⟨nofun, nofun⟩, fun _ => rfl⟩
  | saved => exact ⟨rfl, htotal, ⟨nofun, nofun⟩, fun _ => rfl⟩
  | closed =>
    refine ⟨rfl, htotal, ?_, ?_⟩
    · rw [Processor.closed, Processor.concluded]
      cases s.fatal? with
      | none => exact ⟨nofun, nofun⟩
      | some f => exact ⟨fun _ => rfl, fun _ => rfl⟩
    · rw [Processor.closed, Processor.concluded]
      cases s.fatal? with
      | none => exact nofun
      | some f => exact nofun

theorem isBlank (h : Written id s false r) :
  r.IsBlank
  := by
  cases h with
  | accepted => exact ⟨rfl, rfl, rfl⟩
  | begun => exact ⟨rfl, rfl, rfl⟩

end Written

/-! ### Along a course -/

namespace Course.Agrees

variable {missing : List Part} {id : String} {s : Statement} {c c' : Course}

theorem written (h : c.Agrees missing id s) :
  Written id s (c.stage.hasSaved c.outcome?) c.record
  := by
  rcases h.stage_cases with ⟨hstage, -, hrecord, -⟩ | ⟨hbusy, -, now, hrecord⟩ |
    ⟨_, hstage, -, now, hrecord⟩ | ⟨hstage, -, hclosed⟩
  · rw [hstage, hrecord]
    exact .accepted
  · rw [JobStage.hasSaved_of_isBusy hbusy, hrecord]
    exact .begun now
  · rw [hstage, hrecord]
    exact .saved now
  · cases hclosed with
    | finished _ begin close hrecord houtcome =>
      have hsaved : JobStage.hasSaved (some (Processor.conclusion s.fatal?)) .ended = true := by
        cases s.fatal? with
        | none => rfl
        | some f => rfl
      rw [hstage, hrecord, houtcome, hsaved]
      exact .closed begin close
    | panicked _ begin hrecord m houtcome =>
      rw [hstage, hrecord, houtcome]
      exact .begun begin

/-- A step leaves a record as it is; or the record is not at a final stage, and stays at its
stage or goes on to one that follows. -/
theorem record_step (h : c.Agrees missing id s) (hstep : c.Step missing id c') :
  c'.record = c.record ∨
  (c.record.upload.stage.isTerminal = false ∧
    (c'.record.upload.stage = c.record.upload.stage ∨
      c.record.upload.stage.Follows c'.record.upload.stage))
  := by
  cases hstep with
  | begin now hp hs =>
    rw [Agrees, hs] at h
    obtain ⟨-, -, hrecord, -⟩ := h
    rw [hrecord]
    exact .inr ⟨rfl, .inr .begin⟩
  | save hp hs =>
    rw [Agrees, hs] at h
    obtain ⟨now, hrecord⟩ := h.1.record
    rw [hrecord]
    exact .inr ⟨rfl, .inl rfl⟩
  | @conclude t fatal now hp hs =>
    rw [Agrees, hs] at h
    obtain ⟨⟨begin, -, -, hrecord⟩, -⟩ := h
    rw [hrecord]
    refine .inr ⟨rfl, .inr ?_⟩
    rw [Processor.closed, Processor.concluded]
    cases fatal with
    | none => exact .finish
    | some f => exact .fail
  | enter | skip | start | parse | notice | reject | finish | fail | panic | announce | offer
  | call | answer | collect => exact .inl rfl

/-- A record at a final stage is never written again. -/
theorem record_of_terminal (h : c.Agrees missing id s)
    (hterminal : c.record.upload.stage.isTerminal) (hruns : c.Runs missing id c') :
  c'.record = c.record
  := by
  induction hruns with
  | refl => rfl
  | tail hruns hstep ih =>
    rcases (h.runs hruns).record_step hstep with hsame | ⟨hopen, -⟩
    · exact hsame.trans ih
    · rw [ih, hterminal] at hopen
      cases hopen

end Course.Agrees

/-! ### Questions -/

namespace Processor

variable {p q : Processor} {id : String}

/-- What a processor says about an upload depends on nothing but its record. -/
theorem status_congr (hmissing : q.missing = p.missing)
    (hrecord : q.store.get? id = p.store.get? id) :
  q.status id = p.status id
  := by
  rw [status, status, need, need, hmissing, Store.balance, Store.balance, Store.find,
    Store.find, hrecord]

theorem balance_congr (hmissing : q.missing = p.missing)
    (hrecord : q.store.get? id = p.store.get? id) :
  q.balance id = p.balance id
  := by
  rw [balance, balance, status_congr hmissing hrecord]

theorem issues_congr (hmissing : q.missing = p.missing)
    (hrecord : q.store.get? id = p.store.get? id) (filter : IssueFilter) (page : Page) :
  q.issues id filter page = p.issues id filter page
  := by
  rw [issues, issues, need, need, hmissing, Store.listIssues, Store.listIssues, Store.find,
    Store.find, hrecord]

end Processor

/-! ### In a session -/

namespace Session

variable {start s t : Session} {id : String} {r : UploadRecord}

/-- Every record is that of an accepted upload. -/
theorem Runs.exists_of_record (hnew : start.IsNew) (h : start.Runs s)
    (hr : s.processor.store.get? id = some r) :
  ∃ task statement c, s.Shows task id c ∧
    c.Agrees start.processor.missing id statement ∧ c.record = r
  := by
  have hmem : id ∈ s.journal.accepted.map Prod.fst := by
    rw [← (h.sound hnew.sound).stored, hr]
    rfl
  obtain ⟨⟨i, statement⟩, haccepted, rfl⟩ := List.mem_map.1 hmem
  obtain ⟨task, htask⟩ := List.getElem?_of_mem haccepted
  obtain ⟨c, hc, hagrees⟩ := h.agrees hnew htask
  have hrecord := hc.record.symm.trans hr
  simp only [Option.some.injEq] at hrecord
  exact ⟨task, statement, c, hc, hagrees, hrecord⟩

/-- A record is created as that of an upload that was just accepted. -/
theorem Change.record_of_new (h : s.Change t) (hnone : s.processor.store.get? id = none)
    (hr : t.processor.store.get? id = some r) :
  r = .accepted id
  := by
  cases h with
  | keeps h =>
    rw [h.store, hnone] at hr
    cases hr
  | @accepts id' _ h =>
    by_cases hid : id = id'
    · subst hid
      have hself := Store.get?_create_self h.store
      exact Option.some.inj (hr.symm.trans hself)
    · rw [Store.get?_create_of_ne h.store hid, hnone] at hr
      cases hr
  | takes _ _ h =>
    rw [h.record] at hr
    split at hr
    · next hid =>
      rw [hid, h.before.record] at hnone
      cases hnone
    · rw [hnone] at hr
      cases hr

/-- The life of an upload.  Its record is created at the stage of accepted uploads, and moves on
from stage to stage; it is coherent at any time, and has no results until they are saved; and
at a final stage it remains for ever what it is, and so do all answers about it. -/
theorem Runs.lifecycle (hnew : start.IsNew) (h : start.Runs s) (id : String) :
  (s.processor.store.get? id = none →
    ∀ t r, s.Leads t → t.processor.store.get? id = some r → r = .accepted id) ∧
  ∀ r, s.processor.store.get? id = some r →
    r.Coherent id ∧
    (∃ task stage, s.processor.jobs.get? task = some { upload := id, stage } ∧
      (stage.hasSaved ((s.processor.runner.phase? task).bind TaskPhase.outcome?) = false →
        r.IsBlank)) ∧
    (∀ t, s.Leads t → ∃ r', t.processor.store.get? id = some r' ∧
      (r'.upload.stage = r.upload.stage ∨ r.upload.stage.Follows r'.upload.stage)) ∧
    (r.upload.stage.isTerminal → ∀ t, s.Runs t →
      t.processor.store.get? id = some r ∧
      t.processor.status id = s.processor.status id ∧
      t.processor.balance id = s.processor.balance id ∧
      ∀ filter page, t.processor.issues id filter page = s.processor.issues id filter page)
  := by
  have hs := h.sound hnew.sound
  constructor
  · intro hnone t r ⟨m, hm⟩ hr
    exact (change_of_move hs hm).record_of_new hnone hr
  intro r hr
  obtain ⟨task, statement, c, hc, hagrees, rfl⟩ := h.exists_of_record hnew hr
  refine ⟨hagrees.written.coherent, ⟨task, c.stage, hc.job, ?_⟩, ?_, ?_⟩
  · intro hsaved
    have hwritten := hagrees.written
    rw [Course.outcome?, ← hc.phase, hsaved] at hwritten
    exact hwritten.isBlank
  · rintro t ⟨m, hm⟩
    obtain ⟨c', hc', hstep⟩ := (change_of_move hs hm).shows hs hc
    rw [h.missing hnew.sound] at hstep
    refine ⟨c'.record, hc'.record, ?_⟩
    cases hstep with
    | refl => exact .inl rfl
    | single hstep =>
      rcases hagrees.record_step hstep with hsame | ⟨-, hnext⟩
      · exact .inl (by rw [hsame])
      · exact hnext
  · intro hterminal t ht
    obtain ⟨c', hc', hruns⟩ := ht.shows hs hc
    rw [h.missing hnew.sound] at hruns
    have hrecord : t.processor.store.get? id = s.processor.store.get? id := by
      rw [hc'.record, hc.record, hagrees.record_of_terminal hterminal hruns]
    have hmissing := ht.missing hs
    refine ⟨hrecord.trans hc.record, ?_, ?_, ?_⟩
    · exact Processor.status_congr hmissing hrecord
    · exact Processor.balance_congr hmissing hrecord
    · exact Processor.issues_congr hmissing hrecord

theorem lifecycle_small :
  (smallEnd.processor.store.get? "u").map (fun r => r.upload.stage) = some .done ∧
  ∀ t, smallEnd.Runs t →
    t.processor.store.get? "u" = smallEnd.processor.store.get? "u"
  := by
  have hstage : (smallEnd.processor.store.get? "u").map (fun r => r.upload.stage)
      = some .done := by
    decide +kernel
  obtain ⟨r, hr, hdone⟩ := Option.map_eq_some_iff.1 hstage
  obtain ⟨-, -, -, hterminal⟩ := (Runs.lifecycle isNew_smallStart runs_small "u").2 r hr
  refine ⟨hstage, fun t ht => ?_⟩
  rw [hr]
  apply (hterminal _ t ht).1
  rw [hdone]
  rfl

end Session

end Reconciliation
