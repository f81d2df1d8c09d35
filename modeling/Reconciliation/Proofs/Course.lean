import Reconciliation.Proofs.Identity
import Reconciliation.Proofs.Processor
import Reconciliation.Proofs.Session

/-!
# The course of one upload

A `Course` is what a session shows of one upload: the phase of its task, the stage that the
task's job has reached, its record, and the notices that the task called the publisher for.
`Course.Step` lists the steps of a course.  A move of the session is a step of one course, and
leaves all other courses where they are (`Session.change_of_move`); so whatever holds at the
beginning of a course and is kept by its steps holds of every upload, whatever the other
uploads do meanwhile.
-/

namespace Reconciliation

/-- The identity of the event of the notice that a job is about to offer. -/
def JobStage.event? : JobStage → Option String
  | .offering _ _ n => some n.event
  | .fresh _ => none
  | .reading _ _ => none
  | .announcing _ _ _ => none
  | .publishing _ _ _ => none
  | .saving _ _ => none
  | .closing _ _ => none
  | .ended => none

/-- Only a body that offers its notice calls the publisher. -/
theorem Journal.published_afterProceed {j : Journal} {task : Nat} {id : String}
    {stage : JobStage} (h : stage.event? = none) :
  (j.afterProceed task id stage).published = j.published
  := by
  cases stage with
  | offering => cases h
  | fresh | reading | announcing | publishing | saving | closing | ended => rfl

/-- An action of the processor accepts no statement. -/
theorem Journal.accepted_after_act (j : Journal) (p : Processor) (a : Processor.Action) :
  (j.after p (.act a)).accepted = j.accepted
  := by
  cases a with
  | proceed task =>
    rw [after]
    split
    · next job _ =>
      cases job.stage with
      | fresh | reading | announcing | offering | publishing | saving | closing | ended => rfl
    · rfl
  | enter | drop | report | skip | start | collect | accept | withdraw => rfl

/-- No action of the processor loses an identity. -/
theorem Journal.lost_after_act (j : Journal) (p : Processor) (a : Processor.Action) :
  (j.after p (.act a)).lost = j.lost
  := by
  cases a with
  | proceed task =>
    rw [after]
    split
    · next job _ =>
      cases job.stage with
      | fresh | reading | announcing | offering | publishing | saving | closing | ended => rfl
    · rfl
  | enter | drop | report | skip | start | collect | accept | withdraw => rfl

/-- What a session shows of one upload. -/
structure Course where
  /-- The phase of the task, once it is admitted. -/
  phase : Option TaskPhase
  stage : JobStage
  record : UploadRecord
  published : List Notice

namespace Course

/-- The course of an upload that was just accepted. -/
def initial (id : String) (s : Statement) : Course :=
  { phase := none, stage := .fresh s, record := { upload := .accepted id }, published := [] }

/-- The identities of the events that the notices of an upload were made out for. -/
def events (c : Course) : List String :=
  c.published.map Notice.event ++ c.stage.event?.toList

section

variable {c c' : Course}

/-- The events are the same if the notices and the stage bring no other ones. -/
theorem events_eq (hpublished : c'.published = c.published)
    (hevent : c'.stage.event? = c.stage.event?) :
  c'.events = c.events ++ []
  := by
  rw [events, events, hpublished, hevent, List.append_nil]

/-- A notice that is published was about to be offered. -/
theorem events_call {n : Notice} (hpublished : c'.published = c.published ++ [n])
    (hevent : c.stage.event? = some n.event) (hevent' : c'.stage.event? = none) :
  c'.events = c.events ++ []
  := by
  rw [events, events, hpublished, hevent, hevent', List.map_append]
  simp

/-- A notice that is made out brings its event. -/
theorem events_announce {event : String} (hpublished : c'.published = c.published)
    (hevent : c.stage.event? = none) (hevent' : c'.stage.event? = some event) :
  c'.events = c.events ++ [event]
  := by
  rw [events, events, hpublished, hevent, hevent']
  simp

end

/-- The steps of the course of an upload, at a processor that misses some parts. -/
inductive Step (missing : List Part) (id : String) (c : Course) : Course → Prop where
  | enter (hp : c.phase = none) :
      Step missing id c { c with phase := some .admitted }
  | skip (hp : c.phase = some .admitted) :
      Step missing id c { c with phase := some .skipped }
  | start (hp : c.phase = some .admitted) :
      Step missing id c { c with phase := some .running }
  | begin {s : Statement} (now : Int64) (hp : c.phase = some .running)
      (hs : c.stage = .fresh s) :
      Step missing id c { c with
        stage := .reading (.ofStatement s) {}
        record := Processor.begun now c.record }
  /-- A line is a transaction that needs no notice. -/
  | parse {r : Reader} {t : Tally} {x : Transaction} (hp : c.phase = some .running)
      (hs : c.stage = .reading r t) (hr : r.next.1 = .parsed x)
      (hx : ¬(x.outcome = .failed ∧ .events ∉ missing)) :
      Step missing id c { c with stage := .reading r.next.2 (t.record x) }
  /-- A line is a failed transaction. -/
  | notice {r : Reader} {t : Tally} {x : Transaction} (hp : c.phase = some .running)
      (hs : c.stage = .reading r t) (hr : r.next.1 = .parsed x)
      (hx : x.outcome = .failed ∧ .events ∉ missing) :
      Step missing id c { c with stage := .announcing r.next.2 t x }
  | reject {r : Reader} {t : Tally} {f : Fault} (hp : c.phase = some .running)
      (hs : c.stage = .reading r t) (hr : r.next.1 = .rejected f) :
      Step missing id c { c with stage := .reading r.next.2 t.reject }
  | finish {r : Reader} {t : Tally} (hp : c.phase = some .running)
      (hs : c.stage = .reading r t) (hr : r.next.1 = .finished) :
      Step missing id c { c with stage := .saving t none }
  | fail {r : Reader} {t : Tally} {f : Fault} (hp : c.phase = some .running)
      (hs : c.stage = .reading r t) (hr : r.next.1 = .failed f) :
      Step missing id c { c with stage := .saving t.reject (some f) }
  | panic {r : Reader} {t : Tally} {m : String} (hp : c.phase = some .running)
      (hs : c.stage = .reading r t) (hr : r.next.1 = .panicked m) :
      Step missing id c { c with
        phase := some (.returned (.panicked (.text m)))
        stage := .ended }
  | announce {r : Reader} {t : Tally} {x : Transaction} (event : String)
      (hp : c.phase = some .running) (hs : c.stage = .announcing r t x) :
      Step missing id c { c with
        stage := .offering r t { event, upload := id, transaction := x } }
  /-- The publisher is called, and the answer is to come. -/
  | offer {r : Reader} {t : Tally} {n : Notice} (hp : c.phase = some .running)
      (hs : c.stage = .offering r t n) :
      Step missing id c { c with
        stage := .publishing r t n
        published := c.published ++ [n] }
  /-- The publisher is called, and answers. -/
  | call {r : Reader} {t : Tally} {n : Notice} (hp : c.phase = some .running)
      (hs : c.stage = .offering r t n) :
      Step missing id c { c with
        stage := .reading r (t.record n.transaction)
        published := c.published ++ [n] }
  | answer {r : Reader} {t : Tally} {n : Notice} (hs : c.stage = .publishing r t n) :
      Step missing id c { c with stage := .reading r (t.record n.transaction) }
  | save {t : Tally} {fatal : Option Fault} (hp : c.phase = some .running)
      (hs : c.stage = .saving t fatal) :
      Step missing id c { c with
        stage := .closing t fatal
        record := Processor.saved t c.record }
  | conclude {t : Tally} {fatal : Option Fault} (now : Int64) (hp : c.phase = some .running)
      (hs : c.stage = .closing t fatal) :
      Step missing id c { c with
        phase := some (.returned (Processor.conclusion fatal))
        stage := .ended
        record := Processor.closed now t fatal c.record }
  | collect {outcome : TaskOutcome} (hp : c.phase = some (.returned outcome)) :
      Step missing id c { c with phase := some (.ended outcome) }

/-- A job that has ended stays so. -/
theorem Step.stage_of_ended {missing : List Part} {id : String} {c c' : Course}
    (h : c.Step missing id c') (hended : c.stage = .ended) :
  c'.stage = .ended
  := by
  cases h with
  | enter | skip | start | collect => exact hended
  | begin _ _ hs | parse _ hs | notice _ hs | reject _ hs | finish _ hs | fail _ hs
  | announce _ _ hs | offer _ hs | call _ hs | answer hs | save _ hs =>
    cases hs.symm.trans hended
  | panic | conclude => rfl

/-- Any number of steps lead from one course to the other. -/
def Runs (missing : List Part) (id : String) : Course → Course → Prop :=
  Relation.ReflTransGen (Step missing id)

theorem Runs.stage_of_ended {missing : List Part} {id : String} {c c' : Course}
    (h : c.Runs missing id c') (hended : c.stage = .ended) :
  c'.stage = .ended
  := by
  induction h with
  | refl => exact hended
  | tail _ hstep ih => exact hstep.stage_of_ended ih

end Course

namespace Session

/-- The session shows this course for the upload `id`, whose task has this number. -/
structure Shows (s : Session) (task : Nat) (id : String) (c : Course) : Prop where
  job : s.processor.jobs.get? task = some { upload := id, stage := c.stage }
  record : s.processor.store.get? id = some c.record
  phase : s.processor.runner.phase? task = c.phase
  published : s.journal.publishedBy task = c.published

/-- A session shows one course of a task. -/
theorem Shows.unique {s : Session} {task : Nat} {id id' : String} {c c' : Course}
    (h : s.Shows task id c) (h' : s.Shows task id' c') :
  id = id' ∧ c = c'
  := by
  have hjob := h.job.symm.trans h'.job
  simp only [Option.some.injEq, Job.mk.injEq] at hjob
  obtain ⟨rfl, hstage⟩ := hjob
  have hrecord := h.record.symm.trans h'.record
  simp only [Option.some.injEq] at hrecord
  have hphase := h.phase.symm.trans h'.phase
  have hpublished := h.published.symm.trans h'.published
  cases c
  cases c'
  cases hstage
  cases hrecord
  cases hphase
  cases hpublished
  exact ⟨rfl, rfl⟩

/-- Tasks are numbered in the order in which their uploads were accepted, and each owns the
record of its upload. -/
structure Sound (s : Session) : Prop where
  keys : (s.processor.jobs.map Prod.fst).Nodup
  owner : ∀ k, (s.processor.jobs.get? k).map Job.upload = (s.journal.accepted[k]?).map Prod.fst
  distinct : (s.journal.accepted.map Prod.fst).Nodup
  stored : ∀ id, (s.processor.store.get? id).isSome ↔ id ∈ s.journal.accepted.map Prod.fst
  submitted : s.processor.runner.submitted = s.journal.accepted.length
  numbered : s.processor.runner.Numbered
  called : ∀ call ∈ s.journal.published, call.1 < s.journal.accepted.length

namespace Sound

variable {s : Session} {task other : Nat} {id id' : String} {c c' : Course}

/-- Every accepted upload has a course. -/
theorem exists_shows (h : s.Sound) (htask : task < s.journal.accepted.length) :
  ∃ c, s.Shows task (s.journal.accepted[task].1) c
  := by
  have howner := h.owner task
  rw [List.getElem?_eq_getElem htask, Option.map_some, Option.map_eq_some_iff] at howner
  obtain ⟨job, hjob, hupload⟩ := howner
  have hstored : (s.processor.store.get? s.journal.accepted[task].1).isSome :=
    (h.stored _).2 (List.mem_map_of_mem (List.getElem_mem htask))
  obtain ⟨record, hrecord⟩ := Option.isSome_iff_exists.1 hstored
  refine ⟨⟨_, job.stage, record, _⟩, ?_, hrecord, rfl, rfl⟩
  rw [hjob, ← hupload]

/-- A task that is shown is that of an accepted upload. -/
theorem accepted_of_shows (h : s.Sound) (hc : s.Shows task id c) :
  (s.journal.accepted[task]?).map Prod.fst = some id
  := by
  rw [← h.owner, hc.job]
  rfl

theorem lt_of_shows (h : s.Sound) (hc : s.Shows task id c) :
  task < s.journal.accepted.length
  := by
  have hsome := h.accepted_of_shows hc
  by_contra hlt
  rw [List.getElem?_eq_none (Nat.le_of_not_lt hlt)] at hsome
  cases hsome

/-- No two tasks own the same upload. -/
theorem upload_injective (h : s.Sound) (hc : s.Shows task id c) (hc' : s.Shows other id c') :
  other = task
  := by
  have h₁ := h.accepted_of_shows hc
  have h₂ := h.accepted_of_shows hc'
  rw [← List.getElem?_map] at h₁ h₂
  have hlt : other < (s.journal.accepted.map Prod.fst).length := by
    rw [List.length_map]
    exact h.lt_of_shows hc'
  exact (List.getElem?_inj hlt h.distinct).1 (h₂.trans h₁.symm)

/-- A task with a job belongs to an accepted upload. -/
theorem exists_shows_of_job (h : s.Sound) {stage : JobStage}
    (hjob : s.processor.jobs.get? task = some { upload := id, stage }) :
  ∃ c, s.Shows task id c ∧ c.stage = stage
  := by
  have howner := h.owner task
  rw [hjob] at howner
  have hlt : task < s.journal.accepted.length := by
    by_contra hlt
    rw [List.getElem?_eq_none (Nat.le_of_not_lt hlt)] at howner
    cases howner
  obtain ⟨c, hc⟩ := h.exists_shows hlt
  have heq := hc.job.symm.trans hjob
  simp only [Option.some.injEq, Job.mk.injEq] at heq
  rw [heq.1] at hc
  exact ⟨c, hc, heq.2⟩

/-- The numbers in use at the runner are those of accepted uploads. -/
theorem exists_shows_of_number (h : s.Sound) (hmem : task ∈ s.processor.runner.numbers) :
  ∃ id c, s.Shows task id c
  := by
  have hlt := h.numbered.lt_submitted task hmem
  rw [h.submitted] at hlt
  exact ⟨_, h.exists_shows hlt⟩

/-- A task with a phase was admitted, and so its upload was accepted. -/
theorem exists_shows_of_phase (h : s.Sound) {phase : TaskPhase}
    (hphase : s.processor.runner.phase? task = some phase) :
  ∃ id c, s.Shows task id c ∧ c.phase = some phase
  := by
  have hmem : task ∈ s.processor.runner.numbers := by
    apply List.mem_append_right
    by_contra hmem
    rw [← Runner.phase?_eq_none_iff, hphase] at hmem
    cases hmem
  obtain ⟨id, c, hc⟩ := h.exists_shows_of_number hmem
  exact ⟨id, c, hc, hc.phase.symm.trans hphase⟩

end Sound

/-! ### What a move does to the courses -/

/-- Some identities are drawn. -/
structure Draws (s t : Session) (ds : List String) : Prop where
  ids : s.processor.ids.Draws ds t.processor.ids
  drawn : t.journal.drawn = s.journal.drawn ++ ds

/-- Nothing that belongs to an upload changes. -/
structure Keeps (s t : Session) : Prop where
  missing : t.processor.missing = s.processor.missing
  accepted : t.journal.accepted = s.journal.accepted
  published : t.journal.published = s.journal.published
  jobs : t.processor.jobs = s.processor.jobs
  store : t.processor.store = s.processor.store
  submitted : t.processor.runner.submitted = s.processor.runner.submitted
  numbers : t.processor.runner.numbers.Sublist s.processor.runner.numbers
  phase : ∀ k, t.processor.runner.phase? k = s.processor.runner.phase? k
  draws : ∃ ds, s.Draws t ds ∧ t.journal.lost = s.journal.lost ++ ds

/-- A statement is accepted as the upload `id`, and nothing else happens. -/
structure Accepts (s t : Session) (id : String) (statement : Statement) : Prop where
  missing : t.processor.missing = s.processor.missing
  accepted : t.journal.accepted = s.journal.accepted ++ [(id, statement)]
  published : t.journal.published = s.journal.published
  free : s.processor.store.get? id = none
  jobs : t.processor.jobs = s.processor.jobs.add s.processor.runner.submitted
    { upload := id, stage := .fresh statement }
  store : s.processor.store.create (.accepted id) = .ok t.processor.store
  submitted : t.processor.runner.submitted = s.processor.runner.submitted + 1
  numbers : t.processor.runner.numbers.Perm
    (s.processor.runner.submitted :: s.processor.runner.numbers)
  phase : ∀ k, t.processor.runner.phase? k = s.processor.runner.phase? k
  draws : s.Draws t [id]
  lost : t.journal.lost = s.journal.lost

/-- The course of one upload goes on, with some identities drawn, and nothing else does. -/
structure Takes (s t : Session) (task : Nat) (id : String) (c c' : Course)
    (ds : List String) : Prop where
  before : s.Shows task id c
  missing : t.processor.missing = s.processor.missing
  accepted : t.journal.accepted = s.journal.accepted
  submitted : t.processor.runner.submitted = s.processor.runner.submitted
  numbers : t.processor.runner.numbers.Perm s.processor.runner.numbers
  jobs : ∃ f, t.processor.jobs = s.processor.jobs.modify task f ∧
    f { upload := id, stage := c.stage } = { upload := id, stage := c'.stage }
  record : ∀ i, t.processor.store.get? i =
    if i = id then some c'.record else s.processor.store.get? i
  phase : ∀ k, t.processor.runner.phase? k =
    if k = task then c'.phase else s.processor.runner.phase? k
  published : ∃ ns, t.journal.published = s.journal.published ++ ns.map (fun n => (task, n)) ∧
    c'.published = c.published ++ ns
  draws : s.Draws t ds
  lost : t.journal.lost = s.journal.lost

namespace Takes

variable {s t : Session} {task : Nat} {id : String} {c c' : Course} {ds : List String}

theorem keys (h : s.Takes t task id c c' ds) :
  t.processor.jobs.map Prod.fst = s.processor.jobs.map Prod.fst
  := by
  obtain ⟨f, hjobs, -⟩ := h.jobs
  rw [hjobs, Keyed.keys_modify]

theorem job (h : s.Takes t task id c c' ds) (k : Nat) :
  t.processor.jobs.get? k =
    if k = task then some { upload := id, stage := c'.stage } else s.processor.jobs.get? k
  := by
  obtain ⟨f, hjobs, hf⟩ := h.jobs
  rw [hjobs, Keyed.get?_modify h.before.job, hf]

theorem publishedBy (h : s.Takes t task id c c' ds) (k : Nat) :
  t.journal.publishedBy k = if k = task then c'.published else s.journal.publishedBy k
  := by
  obtain ⟨ns, hpublished, hns⟩ := h.published
  rw [Journal.publishedBy, hpublished, List.filter_append, List.map_append,
    ← Journal.publishedBy]
  split
  · next hk =>
    subst hk
    rw [h.before.published, hns, List.filter_eq_self.2 (by simp), List.map_map]
    exact congrArg _ (List.map_id ns)
  · next hk =>
    rw [List.filter_eq_nil_iff.2 (by simpa using fun n _ => Ne.symm hk)]
    simp

theorem called (h : s.Takes t task id c c' ds) :
  ∀ call ∈ t.journal.published, call ∈ s.journal.published ∨ call.1 = task
  := by
  obtain ⟨ns, hpublished, -⟩ := h.published
  intro call hcall
  rw [hpublished] at hcall
  rcases List.mem_append.1 hcall with hcall | hcall
  · exact .inl hcall
  · obtain ⟨n, -, rfl⟩ := List.mem_map.1 hcall
    exact .inr rfl

end Takes

section

variable {s t : Session} {task other : Nat} {id id' : String} {c c' d : Course}
  {ds : List String}

theorem Keeps.shows (h : s.Keeps t) (hc : s.Shows task id c) :
  t.Shows task id c
  := by
  constructor
  · rw [h.jobs, hc.job]
  · rw [h.store, hc.record]
  · rw [h.phase, hc.phase]
  · rw [Journal.publishedBy, h.published, ← Journal.publishedBy, hc.published]

theorem Accepts.shows_old (h : s.Accepts t id' statement) (hc : s.Shows task id c) :
  t.Shows task id c
  := by
  have hne : id ≠ id' := by
    rintro rfl
    have hfree := h.free
    rw [hc.record] at hfree
    cases hfree
  constructor
  · rw [h.jobs]
    exact Keyed.get?_add_of_some hc.job
  · rw [Store.get?_create_of_ne h.store hne, hc.record]
  · rw [h.phase, hc.phase]
  · rw [Journal.publishedBy, h.published, ← Journal.publishedBy, hc.published]

/-- The course of an upload that is accepted begins. -/
theorem Accepts.shows_new (hs : s.Sound) (h : s.Accepts t id statement) :
  t.Shows s.processor.runner.submitted id (.initial id statement)
  := by
  constructor
  · rw [h.jobs]
    apply Keyed.get?_add_self
    have howner := hs.owner s.processor.runner.submitted
    rw [hs.submitted, List.getElem?_eq_none (Nat.le_refl _)] at howner
    rw [hs.submitted]
    exact Option.map_eq_none_iff.1 howner
  · exact Store.get?_create_self h.store
  · rw [h.phase]
    exact hs.numbered.phase?_submitted
  · rw [Journal.publishedBy, h.published]
    apply List.map_eq_nil_iff.2
    apply List.filter_eq_nil_iff.2
    intro call hcall
    have hlt := hs.called call hcall
    rw [← hs.submitted] at hlt
    simpa using Nat.ne_of_lt hlt

theorem Takes.shows_self (h : s.Takes t task id c c' ds) :
  t.Shows task id c'
  := by
  constructor
  · rw [h.job, if_pos rfl]
  · rw [h.record, if_pos rfl]
  · rw [h.phase, if_pos rfl]
  · rw [h.publishedBy, if_pos rfl]

theorem Takes.shows_other (hs : s.Sound) (h : s.Takes t task id c c' ds)
    (hd : s.Shows other id' d) (hne : other ≠ task) :
  t.Shows other id' d
  := by
  have hid : id' ≠ id := by
    rintro rfl
    exact hne (hs.upload_injective h.before hd)
  constructor
  · rw [h.job, if_neg hne, hd.job]
  · rw [h.record, if_neg hid, hd.record]
  · rw [h.phase, if_neg hne, hd.phase]
  · rw [h.publishedBy, if_neg hne, hd.published]

end

/-! ### Steps of the session as steps of courses -/

section

variable {s t : Session} {task : Nat} {id : String} {c : Course}

theorem draws_nil {s t : Session} (hids : t.processor.ids = s.processor.ids)
    (hdrawn : t.journal.drawn = s.journal.drawn) :
  s.Draws t []
  where
    ids := by
      rw [hids]
      exact .nil _
    drawn := by
      rw [hdrawn, List.append_nil]

/-- A function that has a value at a place has it there, and elsewhere what it has. -/
theorem unchanged {α β : Type} [DecidableEq α] {f : α → β} {a : α} {b : β} (h : f a = b)
    (k : α) :
  f k = if k = a then b else f k
  := by
  split
  · next hk => rw [hk, h]
  · rfl

/-- Only the phase of a task changes. -/
theorem takes_phase (hc : s.Shows task id c) (phase : TaskPhase) {runner : Runner}
    {log : List LogEntry} (hsubmitted : runner.submitted = s.processor.runner.submitted)
    (hnumbers : runner.numbers.Perm s.processor.runner.numbers)
    (hphase : ∀ k, runner.phase? k =
      if k = task then some phase else s.processor.runner.phase? k) :
  s.Takes { s with processor := { s.processor with runner, log } } task id c
    { c with phase := some phase } []
  where
    before := hc
    missing := rfl
    accepted := rfl
    submitted := hsubmitted
    numbers := hnumbers
    jobs := ⟨fun job => job, (Keyed.modify_id _ _).symm, rfl⟩
    record := unchanged hc.record
    phase := hphase
    published := ⟨[], (List.append_nil _).symm, (List.append_nil _).symm⟩
    draws := draws_nil rfl rfl
    lost := rfl

/-- What does not belong to any upload changes. -/
theorem takes_self (hc : s.Shows task id c) {bus : Bus} {log : List LogEntry} :
  s.Takes { s with processor := { s.processor with bus, log } } task id c c []
  where
    before := hc
    missing := rfl
    accepted := rfl
    submitted := rfl
    numbers := .rfl
    jobs := ⟨fun job => job, (Keyed.modify_id _ _).symm, rfl⟩
    record := unchanged hc.record
    phase := unchanged hc.phase
    published := ⟨[], (List.append_nil _).symm, (List.append_nil _).symm⟩
    draws := draws_nil rfl rfl
    lost := rfl

/-- A job draws an identity. -/
theorem takes_draw (hc : s.Shows task id c) :
  s.Takes
    { processor := { s.processor with ids := s.processor.ids.advance }
      journal := { s.journal with drawn := s.journal.drawn ++ [s.processor.ids.peek] } }
    task id c c [s.processor.ids.peek]
  where
    before := hc
    missing := rfl
    accepted := rfl
    submitted := rfl
    numbers := .rfl
    jobs := ⟨fun job => job, (Keyed.modify_id _ _).symm, rfl⟩
    record := unchanged hc.record
    phase := unchanged hc.phase
    published := ⟨[], (List.append_nil _).symm, (List.append_nil _).symm⟩
    draws := ⟨IdSource.draws_one _, rfl⟩
    lost := rfl

/-- A job calls the publisher. -/
theorem takes_call (hc : s.Shows task id c) (notice : Notice) {bus : Bus}
    {log : List LogEntry} :
  s.Takes
    { processor := { s.processor with bus, log }
      journal := s.journal.afterCall task notice }
    task id c { c with published := c.published ++ [notice] } []
  where
    before := hc
    missing := rfl
    accepted := rfl
    submitted := rfl
    numbers := .rfl
    jobs := ⟨fun job => job, (Keyed.modify_id _ _).symm, rfl⟩
    record := unchanged hc.record
    phase := unchanged hc.phase
    published := ⟨[notice], rfl, rfl⟩
    draws := draws_nil rfl rfl
    lost := rfl

/-- A job changes its record. -/
theorem takes_record (hc : s.Shows task id c) (record : UploadRecord) :
  s.Takes { s with processor := s.processor.putRecord id record } task id c { c with record } []
  where
    before := hc
    missing := rfl
    accepted := rfl
    submitted := rfl
    numbers := .rfl
    jobs := ⟨fun job => job, (Keyed.modify_id _ _).symm, rfl⟩
    record := Store.get?_replace hc.record record
    phase := unchanged hc.phase
    published := ⟨[], (List.append_nil _).symm, (List.append_nil _).symm⟩
    draws := draws_nil rfl rfl
    lost := rfl

namespace Takes

variable {c' : Course} {ds : List String}

/-- A job goes on to another stage. -/
theorem setStage (h : s.Takes t task id c c' ds) (stage : JobStage) :
  s.Takes { t with processor := t.processor.setStage task stage } task id c
    { c' with stage } ds
  where
    before := h.before
    missing := h.missing
    accepted := h.accepted
    submitted := h.submitted
    numbers := h.numbers
    jobs := by
      obtain ⟨f, hjobs, hf⟩ := h.jobs
      refine ⟨(fun j => { j with stage }) ∘ f, ?_, ?_⟩
      · rw [Processor.setStage, hjobs, Keyed.modify_modify]
      · rw [Function.comp_apply, hf]
    record := h.record
    phase := h.phase
    published := h.published
    draws := ⟨h.draws.ids, h.draws.drawn⟩
    lost := h.lost

/-- Something is logged. -/
theorem setLog (h : s.Takes t task id c c' ds) (log : List LogEntry) :
  s.Takes { t with processor := { t.processor with log } } task id c c' ds
  where
    before := h.before
    missing := h.missing
    accepted := h.accepted
    submitted := h.submitted
    numbers := h.numbers
    jobs := h.jobs
    record := h.record
    phase := h.phase
    published := h.published
    draws := ⟨h.draws.ids, h.draws.drawn⟩
    lost := h.lost

/-- The body of a task ends. -/
theorem ending (h : s.Takes t task id c c' ds) (hphase : c'.phase = some .running)
    (outcome : TaskOutcome) :
  s.Takes { t with processor := t.processor.ending task outcome } task id c
    { c' with phase := some (.returned outcome), stage := .ended } ds
  where
    before := h.before
    missing := h.missing
    accepted := h.accepted
    submitted := h.submitted
    numbers := by
      rw [Processor.ending, Runner.numbers_setPhase]
      exact h.numbers
    jobs := (h.setStage .ended).jobs
    record := h.record
    phase k := by
      rw [Processor.ending, Runner.phase?_setPhase (h.shows_self.phase.trans hphase), h.phase]
      split
      · rfl
      · rfl
    published := h.published
    draws := ⟨h.draws.ids, h.draws.drawn⟩
    lost := h.lost

end Takes

end

end Session

end Reconciliation
