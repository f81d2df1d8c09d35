import Reconciliation.Proofs.Digest
import Reconciliation.Proofs.Moves

/-!
# Courses agree with their statements

`Course.Agrees` says, stage by stage, what the course of an upload has to do with its
statement: the tally is that of the lines read so far, the notices tell of the failed ones
among them, and the record is what the job has written by then.  Every step of a course keeps
it so (`Course.Agrees.step`), whatever the publisher answers, and therefore it holds of every
upload whenever a session is looked at (`Session.Runs.agrees`).
-/

namespace Reconciliation

/-! ### Reading on -/

/-- A reader has read some lines of a statement, and has the rest before it. -/
structure Statement.Reads (s : Statement) (lines : List Reading) (r : Reader) : Prop where
  outcomes : s.outcomes = lines ++ r.outcomes
  goesOn : ∀ x ∈ lines, x.goesOn

namespace Statement

variable {s : Statement} {lines : List Reading} {r : Reader} {x : Reading}

theorem reads_ofStatement (s : Statement) :
  s.Reads [] (.ofStatement s)
  where
    outcomes := rfl
    goesOn := nofun

theorem Reads.next (h : s.Reads lines r) (hr : r.next.1 = x) (hx : x.goesOn) :
  s.Reads (lines ++ [x]) r.next.2
  := by
  rw [← hr] at hx
  constructor
  · rw [h.outcomes, Reader.outcomes_of_goesOn hx, hr, List.append_assoc]
    rfl
  · intro y hy
    rcases List.mem_append.1 hy with hy | hy
    · exact h.goesOn y hy
    · rw [List.mem_singleton.1 hy, ← hr]
      exact hx

theorem Reads.ends (h : s.Reads lines r) (hr : r.next.1 = x) (hx : x.goesOn = false) :
  s.outcomes = lines ++ [x]
  := by
  rw [← hr] at hx
  rw [h.outcomes, Reader.outcomes_of_ends hx, hr]

theorem Reads.fatal? (h : s.Reads lines r) (hr : r.next.1 = x) (hx : x.goesOn = false) :
  s.fatal? = x.fatal?
  := by
  have hnone : ∀ y ∈ lines, y.fatal? = none := fun y hy =>
    Reading.fatal?_of_goesOn (h.goesOn y hy)
  rw [Statement.fatal?, h.ends hr hx, List.findSome?_append,
    List.findSome?_eq_none_iff.2 hnone]
  simp

theorem Reads.panics (h : s.Reads lines r) (hr : r.next.1 = x) (hx : x.goesOn = false) :
  s.panics = x.isPanic
  := by
  have hnone : ∀ y ∈ lines, y.isPanic = false := by
    intro y hy
    have hgo := h.goesOn y hy
    cases y with
    | parsed | rejected => rfl
    | finished | failed | panicked => cases hgo
  have hlines : lines.any Reading.isPanic = false := by simpa using hnone
  rw [Statement.panics, h.ends hr hx, List.any_append, hlines]
  simp

/-- Only a statement whose input ends that way brings the reading task down. -/
theorem ending_of_panics (h : s.panics) :
  ∃ m, s.ending = .panicking m
  := by
  obtain ⟨lines, last, houtcomes, hlines, -, -, hpanic⟩ := (Reader.ofStatement s).exists_outcomes
  obtain ⟨x, hx, hx'⟩ := List.any_eq_true.1 h
  rw [outcomes, houtcomes] at hx
  cases x with
  | panicked m =>
    rcases List.mem_append.1 hx with hx | hx
    · cases hlines _ hx
    · exact ⟨m, hpanic m (List.mem_singleton.1 hx).symm⟩
  | parsed | rejected | finished | failed => cases hx'

end Statement

/-! ### Notices -/

/-- The transactions among some outcomes that the publisher is called for. -/
def announced (missing : List Part) (outcomes : List Reading) : List Transaction :=
  if .events ∈ missing then []
  else (outcomes.filterMap Reading.transaction?).filter (fun t => t.outcome == .failed)

theorem announced_append (missing : List Part) (xs ys : List Reading) :
  announced missing (xs ++ ys) = announced missing xs ++ announced missing ys
  := by
  rw [announced, announced, announced]
  split
  · rfl
  · rw [List.filterMap_append, List.filter_append]

/-- An outcome that is no transaction is not announced. -/
theorem announced_of_transaction?_eq_none {missing : List Part} {x : Reading}
    (h : x.transaction? = none) :
  announced missing [x] = []
  := by
  rw [announced, List.filterMap_cons_none h]
  split
  · rfl
  · rfl

theorem announced_parsed (missing : List Part) (x : Transaction) :
  announced missing [.parsed x]
    = if x.outcome = .failed ∧ .events ∉ missing then [x] else []
  := by
  rw [announced]
  by_cases hevents : .events ∈ missing
  · simp [hevents]
  · by_cases hx : x.outcome = .failed
    · simp [hevents, hx, Reading.transaction?]
    · simp [hx, Reading.transaction?]

theorem announced_outcomes (missing : List Part) (s : Statement) :
  announced missing s.outcomes = if .events ∈ missing then [] else s.failures
  := rfl

/-- The notices are those of an upload, and tell of the failed transactions among some
outcomes, one of each. -/
structure Tell (missing : List Part) (id : String) (outcomes : List Reading)
    (notices : List Notice) : Prop where
  upload : ∀ n ∈ notices, n.upload = id
  transactions : notices.map Notice.transaction = announced missing outcomes

namespace Tell

variable {missing : List Part} {id : String} {outcomes : List Reading} {notices : List Notice}

theorem nil (missing : List Part) (id : String) :
  Tell missing id [] []
  where
    upload := nofun
    transactions := by
      rw [announced]
      split
      · rfl
      · rfl

/-- An outcome that is not announced needs no notice. -/
theorem quiet (h : Tell missing id outcomes notices) {x : Reading}
    (hx : announced missing [x] = []) :
  Tell missing id (outcomes ++ [x]) notices
  where
    upload := h.upload
    transactions := by
      rw [h.transactions, announced_append, hx, List.append_nil]

theorem call (h : Tell missing id outcomes notices) {n : Notice} (hupload : n.upload = id)
    (hn : announced missing [.parsed n.transaction] = [n.transaction]) :
  Tell missing id (outcomes ++ [.parsed n.transaction]) (notices ++ [n])
  where
    upload m hm := by
      rcases List.mem_append.1 hm with hm | hm
      · exact h.upload m hm
      · rw [List.mem_singleton.1 hm, hupload]
    transactions := by
      rw [List.map_append, h.transactions, announced_append, hn]
      rfl

/-- The notices are known but for the identities of their events. -/
theorem map_eq (h : Tell missing id outcomes notices) :
  notices.map (fun n => (n.upload, n.transaction))
    = (announced missing outcomes).map (fun x => (id, x))
  := by
  rw [← h.transactions, List.map_map]
  apply List.map_congr_left
  intro n hn
  rw [Function.comp_apply, h.upload n hn]

end Tell

/-! ### Agreement -/

/-- How the body of a task ended. -/
def TaskPhase.outcome? : TaskPhase → Option TaskOutcome
  | .returned o => some o
  | .ended o => some o
  | .admitted => none
  | .running => none
  | .skipped => none

/-- The job has begun, and not yet saved its results. -/
def JobStage.isBusy : JobStage → Bool
  | .fresh _ => false
  | .reading _ _ => true
  | .announcing _ _ _ => true
  | .offering _ _ _ => true
  | .publishing _ _ _ => true
  | .saving _ _ => true
  | .closing _ _ => false
  | .ended => false

/-- The record of an upload that was just accepted. -/
def UploadRecord.accepted (id : String) : UploadRecord :=
  { upload := .accepted id }

namespace Course

/-- How the body of the task ended. -/
def outcome? (c : Course) : Option TaskOutcome :=
  c.phase.bind TaskPhase.outcome?

/-- The job is at work, and its notices tell of some outcomes. -/
structure Busy (missing : List Part) (id : String) (c : Course) (told : List Reading) : Prop where
  phase : c.phase = some .running
  record : ∃ now, c.record = Processor.begun now (.accepted id)
  tell : Tell missing id told c.published

/-- The task has ended, in one of two ways: with everything written, or brought down by its
input. -/
inductive Closed (id : String) (s : Statement) (c : Course) : Prop where
  | finished (hpanics : s.panics = false) (begin close : Int64)
      (hrecord : c.record = Processor.closed close (.of s.outcomes) s.fatal?
        (Processor.saved (.of s.outcomes) (Processor.begun begin (.accepted id))))
      (houtcome : c.outcome? = some (Processor.conclusion s.fatal?))
  | panicked (hpanics : s.panics) (begin : Int64)
      (hrecord : c.record = Processor.begun begin (.accepted id)) (m : String)
      (houtcome : c.outcome? = some (.panicked (.text m)))

/-- A course is that of the upload `id` with this statement. -/
def Agrees (missing : List Part) (id : String) (s : Statement) (c : Course) : Prop :=
  match c.stage with
  | .fresh s' =>
    s' = s ∧ c.outcome? = none ∧ c.record = .accepted id ∧ c.published = []
  | .reading r t => ∃ lines, c.Busy missing id lines ∧ s.Reads lines r ∧ t = .of lines
  | .announcing r t x =>
    ∃ lines, c.Busy missing id lines ∧ s.Reads (lines ++ [.parsed x]) r ∧ t = .of lines ∧
      x.outcome = .failed ∧ .events ∉ missing
  | .offering r t n =>
    ∃ lines, c.Busy missing id lines ∧ s.Reads (lines ++ [.parsed n.transaction]) r ∧
      t = .of lines ∧ n.transaction.outcome = .failed ∧ .events ∉ missing ∧ n.upload = id
  | .publishing r t n =>
    ∃ lines, c.Busy missing id (lines ++ [.parsed n.transaction]) ∧
      s.Reads (lines ++ [.parsed n.transaction]) r ∧ t = .of lines
  | .saving t fatal =>
    c.Busy missing id s.outcomes ∧ s.panics = false ∧ t = .of s.outcomes ∧ fatal = s.fatal?
  | .closing t fatal =>
    (∃ begin, c.phase = some .running ∧ Tell missing id s.outcomes c.published ∧
      c.record = Processor.saved t (Processor.begun begin (.accepted id))) ∧
    s.panics = false ∧ t = .of s.outcomes ∧ fatal = s.fatal?
  | .ended => Tell missing id s.outcomes c.published ∧ c.Closed id s

variable {missing : List Part} {id : String} {s : Statement} {c c' : Course}

theorem agrees_initial (missing : List Part) (id : String) (s : Statement) :
  (initial id s).Agrees missing id s
  := ⟨rfl, rfl, rfl, rfl⟩

namespace Agrees

/-- Where a course is: before its job has touched anything, while the job reads, once the results
are saved, or at the end. -/
theorem stage_cases (h : c.Agrees missing id s) :
  (c.stage = .fresh s ∧ c.outcome? = none ∧ c.record = .accepted id ∧ c.published = []) ∨
  (c.stage.isBusy ∧ c.phase = some .running ∧
    ∃ now, c.record = Processor.begun now (.accepted id)) ∨
  (∃ fatal, c.stage = .closing (.of s.outcomes) fatal ∧ c.phase = some .running ∧
    ∃ now, c.record
      = Processor.saved (.of s.outcomes) (Processor.begun now (.accepted id))) ∨
  (c.stage = .ended ∧ Tell missing id s.outcomes c.published ∧ c.Closed id s)
  := by
  rw [Agrees] at h
  split at h
  · next s' hstage =>
    obtain ⟨rfl, h⟩ := h
    exact .inl ⟨hstage, h⟩
  · next hstage =>
    obtain ⟨_, hbusy, -⟩ := h
    exact .inr (.inl ⟨by rw [hstage]; rfl, hbusy.phase, hbusy.record⟩)
  · next hstage =>
    obtain ⟨_, hbusy, -⟩ := h
    exact .inr (.inl ⟨by rw [hstage]; rfl, hbusy.phase, hbusy.record⟩)
  · next hstage =>
    obtain ⟨_, hbusy, -⟩ := h
    exact .inr (.inl ⟨by rw [hstage]; rfl, hbusy.phase, hbusy.record⟩)
  · next hstage =>
    obtain ⟨_, hbusy, -⟩ := h
    exact .inr (.inl ⟨by rw [hstage]; rfl, hbusy.phase, hbusy.record⟩)
  · next hstage => exact .inr (.inl ⟨by rw [hstage]; rfl, h.1.phase, h.1.record⟩)
  · next fatal hstage =>
    obtain ⟨⟨now, hphase, -, hrecord⟩, -, rfl, -⟩ := h
    exact .inr (.inr (.inl ⟨fatal, hstage, hphase, now, hrecord⟩))
  · next hstage => exact .inr (.inr (.inr ⟨hstage, h⟩))

/-- A task that does not run, and has not ended, has not touched its upload. -/
theorem fresh_of_phase (h : c.Agrees missing id s) (hrunning : c.phase ≠ some .running)
    (hnone : c.outcome? = none) :
  c.stage = .fresh s ∧ c.record = .accepted id ∧ c.published = []
  := by
  rcases h.stage_cases with ⟨hstage, -, h⟩ | ⟨-, hphase, -⟩ | ⟨_, -, hphase, -⟩ | ⟨-, -, hclosed⟩
  · exact ⟨hstage, h⟩
  · exact absurd hphase hrunning
  · exact absurd hphase hrunning
  · cases hclosed with
    | finished _ _ _ _ houtcome => cases hnone.symm.trans houtcome
    | panicked _ _ _ _ houtcome => cases hnone.symm.trans houtcome

/-- A task whose body has ended has closed its job. -/
theorem ended_of_outcome? {o : TaskOutcome} (h : c.Agrees missing id s)
    (hsome : c.outcome? = some o) :
  c.stage = .ended ∧ Tell missing id s.outcomes c.published ∧ c.Closed id s
  := by
  have hrunning : c.phase ≠ some .running := by
    intro hphase
    rw [outcome?, hphase] at hsome
    cases hsome
  rcases h.stage_cases with ⟨-, hnone, -⟩ | ⟨-, hphase, -⟩ | ⟨_, -, hphase, -⟩ | hended
  · cases hnone.symm.trans hsome
  · exact absurd hphase hrunning
  · exact absurd hphase hrunning
  · exact hended

/-- The phase of a task that has not touched its upload makes no difference. -/
theorem setPhase (h : c.Agrees missing id s) (hrunning : c.phase ≠ some .running)
    (hnone : c.outcome? = none) {phase : TaskPhase} (hphase : phase.outcome? = none) :
  { c with phase := some phase }.Agrees missing id s
  := by
  obtain ⟨hstage, hrecord, hpublished⟩ := h.fresh_of_phase hrunning hnone
  rw [Agrees, hstage]
  exact ⟨rfl, hphase, hrecord, hpublished⟩

/-- Every step of a course keeps it in agreement with its statement. -/
theorem step (h : c.Agrees missing id s) (hstep : c.Step missing id c') :
  c'.Agrees missing id s
  := by
  cases hstep with
  | enter hp | skip hp | start hp =>
    apply h.setPhase
    · rw [hp]
      exact nofun
    · rw [outcome?, hp]
      rfl
    · rfl
  | begin now hp hs =>
    rw [Agrees, hs] at h
    obtain ⟨rfl, -, hrecord, hpublished⟩ := h
    refine ⟨[], ⟨hp, ⟨now, ?_⟩, ?_⟩, Statement.reads_ofStatement _, rfl⟩
    · rw [hrecord]
    · rw [hpublished]
      exact Tell.nil missing id
  | @parse r t x hp hs hr hx =>
    rw [Agrees, hs] at h
    obtain ⟨lines, hbusy, hreads, rfl⟩ := h
    have hreads' := hreads.next hr rfl
    have hquiet : announced missing [.parsed x] = [] := by
      rw [announced_parsed, if_neg hx]
    exact ⟨_, ⟨hp, hbusy.record, hbusy.tell.quiet hquiet⟩, hreads',
      (Tally.of_concat lines (.parsed x)).symm⟩
  | @notice r t x hp hs hr hx =>
    rw [Agrees, hs] at h
    obtain ⟨lines, hbusy, hreads, rfl⟩ := h
    have hreads' := hreads.next hr rfl
    exact ⟨lines, ⟨hp, hbusy.record, hbusy.tell⟩, hreads', rfl, hx⟩
  | @reject r t f hp hs hr =>
    rw [Agrees, hs] at h
    obtain ⟨lines, hbusy, hreads, rfl⟩ := h
    have hreads' := hreads.next hr rfl
    exact ⟨_, ⟨hp, hbusy.record, hbusy.tell.quiet (announced_of_transaction?_eq_none rfl)⟩,
      hreads', (Tally.of_concat lines (.rejected f)).symm⟩
  | @finish r t hp hs hr =>
    rw [Agrees, hs] at h
    obtain ⟨lines, hbusy, hreads, rfl⟩ := h
    have houtcomes := hreads.ends hr rfl
    refine ⟨⟨hp, hbusy.record, ?_⟩, hreads.panics hr rfl, ?_, (hreads.fatal? hr rfl).symm⟩
    · rw [houtcomes]
      exact hbusy.tell.quiet (announced_of_transaction?_eq_none rfl)
    · rw [houtcomes, Tally.of_concat]
      rfl
  | @fail r t f hp hs hr =>
    rw [Agrees, hs] at h
    obtain ⟨lines, hbusy, hreads, rfl⟩ := h
    have houtcomes := hreads.ends hr rfl
    refine ⟨⟨hp, hbusy.record, ?_⟩, hreads.panics hr rfl, ?_, (hreads.fatal? hr rfl).symm⟩
    · rw [houtcomes]
      exact hbusy.tell.quiet (announced_of_transaction?_eq_none rfl)
    · rw [houtcomes, Tally.of_concat]
      rfl
  | @panic r t m hp hs hr =>
    rw [Agrees, hs] at h
    obtain ⟨lines, hbusy, hreads, rfl⟩ := h
    obtain ⟨now, hrecord⟩ := hbusy.record
    refine ⟨?_, .panicked (hreads.panics hr rfl) now hrecord m rfl⟩
    rw [hreads.ends hr rfl]
    exact hbusy.tell.quiet (announced_of_transaction?_eq_none rfl)
  | announce event hp hs =>
    rw [Agrees, hs] at h
    obtain ⟨lines, hbusy, hreads, rfl, hfailed, hevents⟩ := h
    exact ⟨lines, ⟨hp, hbusy.record, hbusy.tell⟩, hreads, rfl, hfailed, hevents, rfl⟩
  | @offer r t n hp hs =>
    rw [Agrees, hs] at h
    obtain ⟨lines, hbusy, hreads, rfl, hfailed, hevents, hupload⟩ := h
    have hn : announced missing [.parsed n.transaction] = [n.transaction] := by
      rw [announced_parsed, if_pos ⟨hfailed, hevents⟩]
    exact ⟨lines, ⟨hp, hbusy.record, hbusy.tell.call hupload hn⟩, hreads, rfl⟩
  | @call r t n hp hs =>
    rw [Agrees, hs] at h
    obtain ⟨lines, hbusy, hreads, rfl, hfailed, hevents, hupload⟩ := h
    have hn : announced missing [.parsed n.transaction] = [n.transaction] := by
      rw [announced_parsed, if_pos ⟨hfailed, hevents⟩]
    exact ⟨_, ⟨hp, hbusy.record, hbusy.tell.call hupload hn⟩, hreads,
      (Tally.of_concat lines (.parsed n.transaction)).symm⟩
  | @answer r t n hs =>
    rw [Agrees, hs] at h
    obtain ⟨lines, hbusy, hreads, rfl⟩ := h
    exact ⟨_, ⟨hbusy.phase, hbusy.record, hbusy.tell⟩, hreads,
      (Tally.of_concat lines (.parsed n.transaction)).symm⟩
  | save hp hs =>
    rw [Agrees, hs] at h
    obtain ⟨hbusy, hpanics, htally, hfatal⟩ := h
    obtain ⟨now, hrecord⟩ := hbusy.record
    refine ⟨⟨now, hp, hbusy.tell, ?_⟩, hpanics, htally, hfatal⟩
    rw [hrecord]
  | conclude now hp hs =>
    rw [Agrees, hs] at h
    obtain ⟨⟨begin, -, htell, hrecord⟩, hpanics, rfl, rfl⟩ := h
    refine ⟨htell, .finished hpanics begin now ?_ rfl⟩
    rw [hrecord]
  | @collect outcome hp =>
    have hsome : c.outcome? = some outcome := by
      rw [outcome?, hp]
      rfl
    obtain ⟨hstage, htell, hclosed⟩ := h.ended_of_outcome? hsome
    rw [Agrees, hstage]
    refine ⟨htell, ?_⟩
    cases hclosed with
    | finished hpanics begin close hrecord houtcome =>
      exact .finished hpanics begin close hrecord (hsome.symm.trans houtcome)
    | panicked hpanics begin hrecord m houtcome =>
      exact .panicked hpanics begin hrecord m (hsome.symm.trans houtcome)

/-- A course that agrees with its statement goes on doing so. -/
theorem runs (h : c.Agrees missing id s) (hruns : c.Runs missing id c') :
  c'.Agrees missing id s
  := by
  induction hruns with
  | refl => exact h
  | tail _ hstep ih => exact ih.step hstep

end Agrees

end Course

namespace Session

variable {s t : Session} {task : Nat} {id : String} {statement : Statement}

/-- Whenever a session is looked at, every accepted upload has a course that agrees with its
statement. -/
theorem Runs.agrees (h : s.Runs t) (hnew : s.IsNew)
    (haccepted : t.journal.accepted[task]? = some (id, statement)) :
  ∃ c, t.Shows task id c ∧ c.Agrees s.processor.missing id statement
  := by
  obtain ⟨c, hc, hruns⟩ := h.course hnew haccepted
  exact ⟨c, hc, (Course.agrees_initial _ id statement).runs hruns⟩

end Session

end Reconciliation
