import Reconciliation.Proofs.Ledger
import Reconciliation.Proofs.Occupancy

/-!
# The owner of a record

An upload that is accepted begins a record and a task, under an identity that no record had, and
nothing but this task ever writes to the record again; an upload that is refused leaves the records
and the tasks as they are.  `Session.Effect` lists what a move can do to the two, and
`Session.Owned` is what follows from it for whole runs: the tasks and the uploads that were accepted
go by the same numbers, and no two of these have the same identity, whatever the source of
identities comes up with and whatever records were there before (`Session.Runs.one_owner`).
-/

namespace Reconciliation

/-! ### Writing to one record -/

/-- The store is as it was, or has another record in the place of one that was there. -/
def Store.Rewrites (s : Store) (id : String) (t : Store) : Prop :=
  t = s ∨ ∃ r r', s.get? id = some r ∧ t = s.replace id r'

namespace Store.Rewrites

variable {s t : Store} {id : String}

theorem get?_of_ne (h : s.Rewrites id t) {other : String} (hother : other ≠ id) :
  t.get? other = s.get? other
  := by
  rcases h with rfl | ⟨r, r', hr, rfl⟩
  · rfl
  · rw [get?_replace hr, if_neg hother]

/-- There are records of the same identities as before. -/
theorem get?_eq_none_iff (h : s.Rewrites id t) (other : String) :
  t.get? other = none ↔ s.get? other = none
  := by
  by_cases hother : other = id
  · subst hother
    rcases h with rfl | ⟨r, r', hr, rfl⟩
    · rfl
    · rw [get?_replace hr, if_pos rfl, hr]
      exact ⟨nofun, nofun⟩
  · rw [h.get?_of_ne hother]

end Store.Rewrites

namespace Processor

variable {p q : Processor} {task : Nat} {id : String}

theorem store_of_finish {outcome : TaskOutcome} (h : p.finish task outcome = some q) :
  q.store = p.store
  := by
  obtain ⟨runner, -, rfl⟩ := Option.map_eq_some_iff.1 h
  rfl

theorem store_of_published (reader : Reader) (tally : Tally) (notice : Notice)
    (fault : Option Fault) :
  (p.published task reader tally notice fault).store = p.store
  := by
  obtain ⟨log, hpublished⟩ := p.published_eq task reader tally notice fault
  rw [hpublished]
  rfl

theorem store_of_read {reader : Reader} {tally : Tally}
    (h : p.read task id reader tally = some q) :
  q.store = p.store
  := by
  rw [read] at h
  dsimp only at h
  split at h
  · split at h
    · cases h
      rfl
    · cases h
      rfl
  · cases h
    rfl
  · cases h
    rfl
  · cases h
    rfl
  · next m _ => exact store_of_finish (p := p.note (.panicCaptured (.text m))) h

theorem store_of_offer (reader : Reader) (tally : Tally) (notice : Notice) :
  (p.offer task reader tally notice).store = p.store
  := by
  rw [offer]
  split
  · rfl
  · next bus _ _ => exact store_of_published (p := { p with bus }) reader tally notice _

theorem rewrites_of_revised {change : Upload → Upload} {store : Store}
    (h : p.revised id change = .ok store) :
  p.store.Rewrites id store
  := by
  rw [revised] at h
  cases hr : p.store.get? id with
  | none =>
    rw [Store.revise, Store.find, hr] at h
    cases h
  | some r =>
    rw [Store.revise_of_get? hr] at h
    cases h
    exact .inr ⟨r, _, hr, rfl⟩

theorem rewrites_of_saveResults {balance : Amount} {issues : List Transaction}
    {counts : LineCounts} {store : Store}
    (h : p.store.saveResults id balance issues counts = .ok store) :
  p.store.Rewrites id store
  := by
  cases hr : p.store.get? id with
  | none =>
    rw [Store.saveResults, Store.find, hr] at h
    cases h
  | some r =>
    rw [Store.saveResults_of_get? hr] at h
    cases h
    exact .inr ⟨r, _, hr, rfl⟩

/-- A task that writes to its record does nothing else to the store. -/
theorem rewrites_of_write {answer : Except StoreFault Store} {go : Processor → Option Processor}
    (hanswer : ∀ store, answer = .ok store → p.store.Rewrites id store)
    (hgo : ∀ store, go { p with store } = some q → q.store = store)
    (h : p.write task answer go = some q) :
  p.store.Rewrites id q.store
  := by
  cases answer with
  | ok store =>
    rw [hgo store h]
    exact hanswer store rfl
  | error f => exact .inl (store_of_finish h)

theorem rewrites_of_begin {statement : Statement} (h : p.begin task id statement = some q) :
  p.store.Rewrites id q.store
  := by
  rw [begin] at h
  refine rewrites_of_write (fun _ => rewrites_of_revised) (fun store hgo => ?_) h
  cases hgo
  rfl

theorem rewrites_of_save {tally : Tally} {fatal : Option Fault}
    (h : p.save task id tally fatal = some q) :
  p.store.Rewrites id q.store
  := by
  refine rewrites_of_write (fun _ => rewrites_of_saveResults) (fun store hgo => ?_) h
  cases hgo
  rfl

theorem rewrites_of_conclude {tally : Tally} {fatal : Option Fault}
    (h : p.conclude task id tally fatal = some q) :
  p.store.Rewrites id q.store
  := rewrites_of_write (fun _ => rewrites_of_revised) (fun _ => store_of_finish) h

/-- The body of a task writes to the record of its upload, if to any. -/
theorem rewrites_of_proceed {job : Job} (hjob : p.jobs.get? task = some job)
    (h : p.proceed task = some q) :
  p.store.Rewrites job.upload q.store
  := by
  obtain ⟨hphase, -⟩ := exists_of_proceed h
  rw [proceed_of_job hphase hjob] at h
  cases hstage : job.stage with
  | fresh =>
    rw [hstage] at h
    exact rewrites_of_begin h
  | reading =>
    rw [hstage] at h
    exact .inl (store_of_read h)
  | announcing =>
    rw [hstage] at h
    cases h
    exact .inl rfl
  | offering reader tally notice =>
    rw [hstage] at h
    cases h
    exact .inl (store_of_offer reader tally notice)
  | saving =>
    rw [hstage] at h
    exact rewrites_of_save h
  | closing =>
    rw [hstage] at h
    exact rewrites_of_conclude h
  | publishing | ended =>
    rw [hstage] at h
    cases h

/-! ### Uploads -/

section Upload

variable {caller : Party} {statement : Statement}

/-- An upload that is refused has changed nothing but the source of identities. -/
theorem of_upload_error {fault : Fault} (h : (p.upload caller statement).2 = .error fault) :
  (p.upload caller statement).1.store = p.store ∧
  (p.upload caller statement).1.jobs = p.jobs ∧
  (p.upload caller statement).1.runner = p.runner ∧
  ((∃ part ∈ [Part.store, .runner, .ids], part ∈ p.missing ∧
      fault = .missingDependency part.name) ∨
    ∃ id, p.store.get? id ≠ none ∧ fault = .uploadConflict id)
  := by
  rcases p.upload_cases caller statement with
    ⟨part, hpart, hmissing, hup⟩ | ⟨htaken, hup⟩ | ⟨-, store, -, hup⟩
  · rw [hup] at h ⊢
    cases h
    exact ⟨rfl, rfl, rfl, .inl ⟨part, hpart, hmissing, rfl⟩⟩
  · rw [hup] at h ⊢
    cases h
    exact ⟨rfl, rfl, rfl, .inr ⟨_, htaken, rfl⟩⟩
  · rw [hup] at h
    cases h

/-- An upload that is accepted has begun a record, and handed a task to the runner. -/
theorem of_upload_ok (h : (p.upload caller statement).2 = .ok id) :
  p.store.get? id = none ∧
  (p.upload caller statement).1.store.get? id = some { upload := .accepted id } ∧
  (∀ other ≠ id, (p.upload caller statement).1.store.get? other = p.store.get? other) ∧
  (p.upload caller statement).1.jobs
    = p.jobs.add p.runner.submitted { upload := id, stage := .fresh statement } ∧
  (p.upload caller statement).1.runner = p.runner.submit caller root
  := by
  rcases p.upload_cases caller statement with
    ⟨part, -, -, hup⟩ | ⟨-, hup⟩ | ⟨-, store, hstore, hup⟩
  · rw [hup] at h
    cases h
  · rw [hup] at h
    cases h
  · rw [hup] at h ⊢
    cases h
    exact ⟨(Store.create_eq_ok_iff.1 hstore).1, Store.get?_create_self hstore,
      fun other hother => Store.get?_create_of_ne hstore hother, rfl, rfl⟩

/-- An upload is accepted only if no part that it needs is missing. -/
theorem notMem_missing_of_upload (h : (p.upload caller statement).2 = .ok id) :
  ∀ part ∈ [Part.store, .runner, .ids], part ∉ p.missing
  := by
  rcases p.upload_cases caller statement with
    ⟨part, -, -, hup⟩ | ⟨-, hup⟩ | ⟨hparts, -⟩
  · rw [hup] at h
    cases h
  · rw [hup] at h
    cases h
  · exact hparts

end Upload

/-! ### The owners of records -/

/-- The uploads of the tasks, with the numbers of the tasks. -/
def owners (p : Processor) : List (String × Nat) :=
  p.jobs.map fun entry => (entry.2.upload, entry.1)

theorem owners_setStage (p : Processor) (task : Nat) (stage : JobStage) :
  (p.setStage task stage).owners = p.owners
  := by
  rw [owners, owners, setStage, Keyed.modify, List.map_map]
  apply List.map_congr_left
  intro entry _
  rw [Function.comp_apply]
  split
  · rfl
  · rfl

theorem mem_owners {job : Job} (h : p.jobs.get? task = some job) :
  (job.upload, task) ∈ p.owners
  := List.mem_map.2 ⟨(task, job), Keyed.mem_of_get? h, rfl⟩

/-- The tasks that were handed to the runner are the same. -/
structure Stays (p q : Processor) : Prop where
  owners : q.owners = p.owners
  submitted : q.runner.submitted = p.runner.submitted

theorem stays_of_published (reader : Reader) (tally : Tally) (notice : Notice)
    (fault : Option Fault) :
  p.Stays (p.published task reader tally notice fault)
  := by
  obtain ⟨log, hpublished⟩ := p.published_eq task reader tally notice fault
  rw [hpublished]
  exact ⟨p.owners_setStage task _, rfl⟩

theorem stays_of_apply {a : Action} {reply : Option Reply} (h : p.apply a = some (q, reply)) :
  p.Stays q
  := by
  cases acts_of_apply h with
  | enter henter =>
    obtain ⟨s, line, -, -, -, -, rfl⟩ := Runner.enter?_eq_some henter
    exact ⟨rfl, rfl⟩
  | drop hdrop =>
    obtain ⟨s, -, -, -, -, rfl⟩ := Runner.drop?_eq_some hdrop
    exact ⟨rfl, rfl⟩
  | report hreport =>
    obtain ⟨w, -, -, -, -, rfl⟩ := Runner.report?_eq_some hreport
    exact ⟨rfl, rfl⟩
  | skip hskip =>
    obtain ⟨t, -, -, -, rfl⟩ := Runner.skip?_eq_some hskip
    exact ⟨rfl, rfl⟩
  | start hstart =>
    obtain ⟨t, -, -, -, rfl⟩ := Runner.start?_eq_some hstart
    exact ⟨rfl, rfl⟩
  | collect hcollect =>
    obtain ⟨-, rfl⟩ := Runner.collect?_eq_some hcollect
    exact ⟨rfl, rfl⟩
  | body hadvances =>
    obtain ⟨id, old, new, -, hjobs, -, -⟩ := hadvances.jobs
    constructor
    · rw [owners, hjobs]
      exact p.owners_setStage _ new
    · rcases hadvances.runner with hsame | ⟨o, hfinish⟩
      · rw [hsame]
      · obtain ⟨-, hrunner⟩ := Runner.finish?_eq_some.1 hfinish
        rw [hrunner]
        rfl

/-- Only a body that goes on by itself writes to the store. -/
theorem store_of_apply {a : Action} {reply : Option Reply} (h : p.apply a = some (q, reply)) :
  q.store = p.store ∨ ∃ task, a = .proceed task ∧ p.proceed task = some q
  := by
  cases a with
  | proceed k =>
    obtain ⟨q', hproceed, heq⟩ := Option.map_eq_some_iff.1 h
    cases heq
    exact .inr ⟨k, rfl, hproceed⟩
  | accept k | withdraw k =>
    obtain ⟨q', hleave, heq⟩ := Option.map_eq_some_iff.1 h
    cases heq
    obtain ⟨bus, id, reader, tally, notice, -, -, rfl⟩ := leaveBus_eq_some hleave
    exact .inl (store_of_published (p := { p with bus }) reader tally notice _)
  | collect k =>
    obtain ⟨⟨outcome, r⟩, hcollect, heq⟩ := Option.map_eq_some_iff.1 h
    cases outcome with
    | succeeded | failed f | panicked payload =>
      cases heq
      exact .inl rfl
  | enter k | drop k | report k | skip k | start k =>
    obtain ⟨r, -, heq⟩ := Option.map_eq_some_iff.1 h
    cases heq
    exact .inl rfl

/-- As long as no token has fired, a task that is admitted can start. -/
theorem isSome_start (hfired : p.runner.fired = []) (h : p.runner.phase? task = some .admitted) :
  (p.apply (.start task)).isSome
  := by
  obtain ⟨⟨token, _⟩, ht, rfl⟩ := Runner.exists_of_phase? h
  simp [apply, Runner.start?, ht, hfired]

end Processor

namespace Session

/-- What a move can do to the records and to the tasks. -/
inductive Effect (s : Session) : Processor.Move → Session → Prop where
  /-- Nothing. -/
  | quiet {m : Processor.Move} {t : Session} (stays : s.processor.Stays t.processor)
      (accepted : t.journal.accepted = s.journal.accepted)
      (store : t.processor.store = s.processor.store) :
      Effect s m t
  /-- A body writes to the record of its upload. -/
  | writes {task : Nat} {id : String} {t : Session} (stays : s.processor.Stays t.processor)
      (accepted : t.journal.accepted = s.journal.accepted)
      (owner : (id, task) ∈ s.processor.owners)
      (store : s.processor.store.Rewrites id t.processor.store) :
      Effect s (.act (.proceed task)) t
  /-- An upload is accepted. -/
  | accepts {caller : Party} {statement : Statement} {t : Session}
      (answer : (s.processor.upload caller statement).2 = .ok s.processor.ids.peek)
      (owners : t.processor.owners
        = s.processor.owners ++ [(s.processor.ids.peek, s.processor.runner.submitted)])
      (submitted : t.processor.runner.submitted = s.processor.runner.submitted + 1)
      (accepted : t.journal.accepted
        = s.journal.accepted ++ [(s.processor.ids.peek, statement)])
      (store : s.processor.store.create (.accepted s.processor.ids.peek)
        = .ok t.processor.store) :
      Effect s (.upload caller statement) t

variable {start s t u : Session} {m : Processor.Move} {task : Nat} {id : String}

theorem effect_of_upload (s : Session) (caller : Party) (statement : Statement) :
  s.Effect (.upload caller statement) {
    processor := (s.processor.upload caller statement).1
    journal := s.journal.afterUpload statement (s.processor.upload caller statement).2 }
  := by
  rcases s.processor.upload_cases caller statement with
    ⟨part, -, -, hup⟩ | ⟨-, hup⟩ | ⟨-, store, hstore, hup⟩
  · rw [hup]
    exact .quiet ⟨rfl, rfl⟩ rfl rfl
  · rw [hup]
    exact .quiet ⟨rfl, rfl⟩ rfl rfl
  · rw [hup]
    refine .accepts (congrArg Prod.snd hup) ?_ rfl rfl hstore
    exact List.map_append

theorem effect_of_answer {fault : Option Fault} {q : Processor}
    (h : s.processor.answer? task fault = some q) :
  s.Effect (.answer task fault) {
    processor := q
    journal := s.journal.after s.processor (.answer task fault) }
  := by
  rw [Processor.answer?] at h
  split at h
  · next id reader tally notice _ hjob =>
    cases h
    refine .quiet (Processor.stays_of_published reader tally notice fault) ?_
      (Processor.store_of_published reader tally notice fault)
    rw [Journal.after, hjob]
    rfl
  · cases h

/-- Every move has one of the effects. -/
theorem effect_of_move (h : s.move m = some t) :
  s.Effect m t
  := by
  obtain ⟨hp, hj⟩ := move_eq_some.1 h
  obtain ⟨processor, journal⟩ := t
  obtain rfl := hj
  cases m with
  | upload caller statement =>
    cases hp
    exact effect_of_upload s caller statement
  | answer k fault => exact effect_of_answer hp
  | act a =>
    obtain ⟨⟨q, reply⟩, hq, rfl⟩ := Option.map_eq_some_iff.1 hp
    have haccepted := s.journal.accepted_after_act s.processor a
    rcases Processor.store_of_apply hq with hstore | ⟨k, rfl, hproceed⟩
    · exact .quiet (Processor.stays_of_apply hq) haccepted hstore
    · obtain ⟨-, job, hjob⟩ := Processor.exists_of_proceed hproceed
      exact .writes (Processor.stays_of_apply hq) haccepted (Processor.mem_owners hjob)
        (Processor.rewrites_of_proceed hjob hproceed)
  | wait | cancel | exchange | tick =>
    cases hp
    exact .quiet ⟨rfl, rfl⟩ rfl rfl

/-! ### Whole runs -/

/-- Nothing has been asked of the processor yet, but there may be records in its store. -/
structure Opens (s : Session) : Prop where
  jobs : s.processor.jobs = []
  runner : ∃ n, s.processor.runner = .ofCapacity n
  journal : s.journal = {}

/-- The identities of the uploads that were accepted, in the order of their acceptance. -/
def identities (s : Session) : List String :=
  s.journal.accepted.map Prod.fst

/-- The uploads that were accepted and the tasks that were handed over go by the same numbers.  They
have records of their own, next to those that were there before. -/
structure Owned (before : Store) (s : Session) : Prop where
  owners : s.processor.owners = s.identities.zipIdx
  submitted : s.processor.runner.submitted = s.identities.length
  nodup : s.identities.Nodup
  fresh : ∀ id ∈ s.identities, before.get? id = none
  stored : ∀ id, s.processor.store.get? id = none ↔ before.get? id = none ∧ id ∉ s.identities

theorem Opens.owned (h : s.Opens) :
  s.Owned s.processor.store
  := by
  obtain ⟨n, hrunner⟩ := h.runner
  have hnone : s.identities = [] := by rw [identities, h.journal, List.map_nil]
  constructor
  · rw [Processor.owners, h.jobs, hnone]
    rfl
  · rw [hrunner, hnone]
    rfl
  · rw [hnone]
    exact List.nodup_nil
  · rw [hnone]
    exact nofun
  · intro id
    simp [hnone]

variable {before : Store}

theorem Owned.of_stays (h : s.Owned before) (hstays : s.processor.Stays t.processor)
    (haccepted : t.journal.accepted = s.journal.accepted)
    (hstore : ∀ id, t.processor.store.get? id = none ↔ s.processor.store.get? id = none) :
  t.Owned before
  := by
  have hidentities : t.identities = s.identities := congrArg (List.map Prod.fst) haccepted
  constructor
  · rw [hstays.owners, hidentities, h.owners]
  · rw [hstays.submitted, hidentities, h.submitted]
  · rw [hidentities]
    exact h.nodup
  · rw [hidentities]
    exact h.fresh
  · intro id
    rw [hstore, h.stored, hidentities]

theorem Owned.effect (h : s.Owned before) (heffect : s.Effect m t) :
  t.Owned before
  := by
  cases heffect with
  | quiet stays accepted store =>
    exact h.of_stays stays accepted fun id => by rw [store]
  | writes stays accepted owner store =>
    exact h.of_stays stays accepted store.get?_eq_none_iff
  | accepts answer owners submitted accepted store =>
    have hidentities : t.identities = s.identities ++ [s.processor.ids.peek] := by
      rw [identities, accepted, List.map_append]
      rfl
    obtain ⟨hfree, hfresh⟩ := (h.stored _).1 (Store.create_eq_ok_iff.1 store).1
    constructor
    · rw [owners, hidentities, h.owners, h.submitted, List.zipIdx_append, Nat.zero_add]
      rfl
    · rw [submitted, hidentities, h.submitted, List.length_append]
      rfl
    · rw [hidentities, (List.perm_append_singleton _ _).nodup_iff, List.nodup_cons]
      exact ⟨hfresh, h.nodup⟩
    · rw [hidentities]
      intro id hid
      rcases List.mem_append.1 hid with hold | hnew
      · exact h.fresh id hold
      · rw [List.mem_singleton.1 hnew]
        exact hfree
    · intro id
      rw [hidentities]
      by_cases hid : id = s.processor.ids.peek
      · have hnew : t.processor.store.get? s.processor.ids.peek = some _ :=
          Store.get?_create_self store
        rw [hid, hnew]
        simp
      · have hold : t.processor.store.get? id = s.processor.store.get? id :=
          Store.get?_create_of_ne store hid
        rw [hold, h.stored]
        simp [hid]

theorem Runs.owned (h : start.Runs s) (hopens : start.Opens) :
  s.Owned start.processor.store
  := by
  induction h with
  | refl => exact hopens.owned
  | tail _ hleads ih =>
    obtain ⟨m, hm⟩ := hleads
    exact ih.effect (effect_of_move hm)

/-- What was accepted remains so, under the same numbers. -/
theorem Runs.identities_grow (h : s.Runs t) :
  s.identities <+: t.identities
  := by
  induction h with
  | refl => exact List.prefix_refl _
  | tail _ hleads ih =>
    obtain ⟨m, hm⟩ := hleads
    refine ih.trans ?_
    cases effect_of_move hm with
    | quiet stays accepted | writes stays accepted =>
      exact ⟨[], by rw [List.append_nil, identities, identities, accepted]⟩
    | accepts answer owners submitted accepted =>
      rw [identities, identities, accepted, List.map_append]
      exact List.prefix_append _ _

/-- Once an upload was accepted, no part that uploads need is missing. -/
theorem Runs.notMem_missing (h : start.Runs s) (hnew : start.IsNew)
    (haccepted : s.journal.accepted ≠ []) :
  ∀ part ∈ [Part.store, .runner, .ids], part ∉ s.processor.missing
  := by
  induction h with
  | refl => exact absurd (by rw [hnew.journal]) haccepted
  | tail hruns hleads ih =>
    obtain ⟨m, hm⟩ := hleads
    rw [(change_of_move (Runs.sound hruns hnew.sound) hm).missing]
    cases effect_of_move hm with
    | quiet stays accepted | writes stays accepted =>
      rw [accepted] at haccepted
      exact ih haccepted
    | accepts answer => exact Processor.notMem_missing_of_upload answer

/-! ### Owners -/

/-- The body of a task changes a record when it goes on. -/
def Writes (s : Session) (task : Nat) (id : String) : Prop :=
  ∃ t, s.move (.act (.proceed task)) = some t ∧
    t.processor.store.get? id ≠ s.processor.store.get? id

/-- A task writes to the record of the upload that was accepted under its number. -/
theorem Owned.of_writes (h : s.Owned before) (hwrites : s.Writes task id) :
  s.identities[task]? = some id
  := by
  obtain ⟨t, hm, hchange⟩ := hwrites
  cases effect_of_move hm with
  | quiet stays accepted store => exact absurd (by rw [store]) hchange
  | writes stays accepted owner store =>
    by_contra hother
    rw [h.owners, List.mem_zipIdx_iff_getElem?] at owner
    apply hchange
    apply store.get?_of_ne
    rintro rfl
    exact hother owner

/-- A record changes only if it begins with an upload, or a body writes to it. -/
theorem cases_of_change (hm : s.move m = some t)
    (hchange : t.processor.store.get? id ≠ s.processor.store.get? id) :
  (s.processor.store.get? id = none ∧ ∃ caller statement, m = .upload caller statement ∧
    (s.processor.upload caller statement).2 = .ok id) ∨
  ∃ task, m = .act (.proceed task) ∧ s.Writes task id
  := by
  cases effect_of_move hm with
  | quiet stays accepted store => exact absurd (by rw [store]) hchange
  | @writes task => exact .inr ⟨task, rfl, t, hm, hchange⟩
  | @accepts caller statement _ answer _ _ _ store =>
    have hid : id = s.processor.ids.peek := by
      by_contra hother
      exact hchange (Store.get?_create_of_ne store hother)
    rw [hid]
    exact .inl ⟨(Store.create_eq_ok_iff.1 store).1, caller, statement, rfl, answer⟩

/-- No record is ever written to by two tasks. -/
theorem Runs.owner_unique (h : start.Runs s) (hopens : start.Opens) (hlater : s.Runs t)
    {other : Nat} (hwrites : s.Writes task id) (hwrites' : t.Writes other id) :
  task = other
  := by
  have howned := Runs.owned (h.trans hlater) hopens
  have htask : t.identities[task]? = some id := by
    have hearlier := (h.owned hopens).of_writes hwrites
    obtain ⟨more, hmore⟩ := hlater.identities_grow
    rw [← hmore, List.getElem?_append_left (List.getElem?_eq_some_iff.1 hearlier).1, hearlier]
  have hother := howned.of_writes hwrites'
  obtain ⟨hlt, -⟩ := List.getElem?_eq_some_iff.1 htask
  exact (List.getElem?_inj hlt howned.nodup).1 (htask.trans hother.symm)

/-- When an upload returns, its task has its slot, or a token has fired. -/
theorem Owned.task_of_accepted (h : s.Owned before) (haccounts : s.processor.runner.Accounts)
    {a : Processor.Action} {q : Processor}
    (hq : s.processor.apply a = some (q, some (.accepted id))) :
  ∃ task : Nat, s.identities[task]? = some id ∧
    (q.runner.phase? task = some .admitted ∨ q.runner.fired ≠ [])
  := by
  have howner {k : Nat} (hk : s.processor.accepted k = some (.accepted id)) :
      s.identities[k]? = some id := by
    obtain ⟨job, hjob, heq⟩ := Option.map_eq_some_iff.1 hk
    cases heq
    have hmem := Processor.mem_owners hjob
    rwa [h.owners, List.mem_zipIdx_iff_getElem?] at hmem
  generalize hreply : some (Processor.Reply.accepted id) = reply at hq
  cases Processor.acts_of_apply hq with
  | enter henter =>
    obtain ⟨u, line, hline, -, rfl, -, rfl⟩ := Runner.enter?_eq_some henter
    refine ⟨u.task, howner hreply.symm, .inl ?_⟩
    have hmem : u ∈ s.processor.runner.line := by
      rw [hline]
      exact List.mem_cons_self
    have hphase := Runner.phase?_add (haccounts.numbered.phase?_of_mem_line hmem)
      { token := u.token } u.task
    rw [if_pos rfl] at hphase
    exact hphase
  | drop hdrop =>
    obtain ⟨u, -, -, rfl, hfired, rfl⟩ := Runner.drop?_eq_some hdrop
    exact ⟨u.task, howner hreply.symm, .inr (List.ne_nil_of_mem hfired)⟩
  | report | skip | start | collect | body => cases hreply

/-! ### Sequences of identities -/

/-- A sequence whose numbers are not used up comes up with identities that were never drawn. -/
theorem Runs.nodup_drawn (h : start.Runs s) (hnew : start.IsNew) {label : String}
    (hids : start.processor.ids = .labelled label) (hdrawn : s.journal.drawn.length < 2 ^ 64) :
  (s.journal.drawn ++ [s.processor.ids.peek]).Nodup
  := by
  obtain ⟨ds, hdraws⟩ := h.draws hnew.sound
  have hds : s.journal.drawn = ds := by
    rw [hdraws.drawn, hnew.journal]
    rfl
  rw [← hds] at hdraws
  have hall := (hdraws.ids.append (IdSource.draws_one s.processor.ids)).eq_drawMany
  rw [hall, hids]
  apply IdSource.nodup_labelled
  rw [List.length_append]
  exact hdrawn

/-- Every identity that was accepted was drawn. -/
theorem Balanced.identities_subset (h : s.Balanced) :
  s.identities ⊆ s.journal.drawn
  := by
  intro id hid
  rw [h.mem_iff, ← identities]
  simp [hid]

/-! ### One owner -/

/-- Whatever has happened to a processor, whatever records its store held before, and whatever its
source of identities comes up with:

* An upload that is refused leaves the records, the tasks and the runner as they are; it is refused
  because a part is missing, or because the identity drawn for it has a record.
* An upload that is accepted under an identity begins a record under it, which it did not have, and
  leaves all others as they are; it hands one task to the runner.
* The uploads that were accepted and the tasks go by the same numbers, each upload has an identity of
  its own, and each task is in line or admitted once.  Before a token fires no task is dropped or
  skipped, and one that is admitted can start; when an upload returns its task is admitted, or a
  token has fired.
* A record changes only when an upload begins it, or when the body of the task with its number goes
  on; and no record is written to by two tasks, whenever it is.

If the store held no records and the identities are those of a sequence, which has not used up its
numbers, no upload finds its identity taken, and uploads and events all have different ones. -/
theorem Runs.one_owner (hopens : start.Opens) (h : start.Runs s) :
  (∀ caller statement,
    let t := (s.processor.upload caller statement).1
    let answer := (s.processor.upload caller statement).2
    (∀ fault, answer = .error fault →
      t.store = s.processor.store ∧ t.jobs = s.processor.jobs ∧ t.runner = s.processor.runner ∧
      ((∃ part ∈ [Part.store, .runner, .ids], part ∈ s.processor.missing ∧
          fault = .missingDependency part.name) ∨
        ∃ id, s.processor.store.get? id ≠ none ∧ fault = .uploadConflict id)) ∧
    ∀ id, answer = .ok id →
      s.processor.store.get? id = none ∧ t.store.get? id = some { upload := .accepted id } ∧
      (∀ other ≠ id, t.store.get? other = s.processor.store.get? other) ∧
      t.jobs = s.processor.jobs.add s.processor.runner.submitted
        { upload := id, stage := .fresh statement } ∧
      t.runner = s.processor.runner.submit caller Processor.root) ∧
  (s.processor.owners = s.identities.zipIdx ∧ s.identities.Nodup ∧
    s.processor.runner.numbers.Nodup) ∧
  (s.processor.runner.fired = [] → ∀ task < s.identities.length,
    task ∈ s.processor.runner.numbers ∧ s.processor.runner.phase? task ≠ some .skipped ∧
    (s.processor.runner.phase? task = some .admitted →
      (s.processor.apply (.start task)).isSome)) ∧
  (∀ a q id, s.processor.apply a = some (q, some (.accepted id)) →
    ∃ task : Nat, s.identities[task]? = some id ∧
      (q.runner.phase? task = some .admitted ∨ q.runner.fired ≠ [])) ∧
  (∀ m t id, s.move m = some t → t.processor.store.get? id ≠ s.processor.store.get? id →
    (s.processor.store.get? id = none ∧ ∃ caller statement, m = .upload caller statement ∧
      (s.processor.upload caller statement).2 = .ok id) ∨
    ∃ task, m = .act (.proceed task) ∧ s.Writes task id) ∧
  (∀ task id, s.Writes task id →
    s.identities[task]? = some id ∧ start.processor.store.get? id = none) ∧
  (∀ t id task other, s.Runs t → s.Writes task id → t.Writes other id → task = other) ∧
  (start.processor.store = {} → ∀ label, start.processor.ids = .labelled label →
    s.journal.drawn.length < 2 ^ 64 →
    (s.identities ++ s.events ++ s.offered).Nodup ∧
    ∀ caller statement id,
      (s.processor.upload caller statement).2 ≠ .error (.uploadConflict id))
  := by
  have howned := h.owned hopens
  have haccounts : s.processor.runner.Accounts := by
    obtain ⟨n, hrunner⟩ := hopens.runner
    apply h.keeps Runner.Follows.accounts
    rw [hrunner]
    exact Runner.accounts_ofCapacity n
  refine ⟨fun caller statement => ?_, ⟨howned.owners, howned.nodup, haccounts.numbered.nodup⟩,
    fun hfired task htask => ?_, fun a q id => howned.task_of_accepted haccounts,
    fun m t id => cases_of_change, fun task id hwrites => ?_,
    fun t id task other hlater => h.owner_unique hopens hlater, fun hstore label hids hdrawn => ?_⟩
  · exact ⟨fun fault => Processor.of_upload_error, fun id => Processor.of_upload_ok⟩
  · rw [← howned.submitted] at htask
    exact ⟨haccounts.all hfired task htask, haccounts.unskipped hfired task,
      Processor.isSome_start hfired⟩
  · have htask := howned.of_writes hwrites
    exact ⟨htask, howned.fresh id (List.mem_of_getElem? htask)⟩
  · have hnew : start.IsNew := ⟨⟨hstore, hopens.jobs, hopens.runner⟩, hopens.journal⟩
    have hbalanced := h.balanced hnew
    have hdistinct := h.nodup_drawn hnew hids hdrawn
    obtain ⟨hnodup, -, hfresh⟩ := List.nodup_append.1 hdistinct
    constructor
    · exact (List.nodup_append.1 (hbalanced.nodup_iff.1 hnodup)).1
    · intro caller statement id hconflict
      rcases s.processor.upload_cases caller statement with
        ⟨part, -, -, hup⟩ | ⟨htaken, hup⟩ | ⟨-, store, -, hup⟩
      · rw [hup] at hconflict
        cases hconflict
      · -- The identity would be that of an upload, and so have been drawn before.
        have hmem : s.processor.ids.peek ∈ s.identities := by
          by_contra hnone
          apply htaken
          rw [howned.stored, hstore]
          exact ⟨rfl, hnone⟩
        exact hfresh _ (hbalanced.identities_subset hmem) _ (List.mem_singleton_self _) rfl
      · rw [hup] at hconflict
        cases hconflict

/-- There is a record already, and the source of identities repeats itself. -/
def repeatingStart : Session :=
  { processor := {
      store := { records := [("v", { upload := .accepted "v" })] }
      ids := .listed ["v", "u", "u"]
      clock := .frozen 7
      runner := .ofCapacity 1
      bus := .ofCapacity 1 } }

/-- Of three uploads the second is accepted, and its task is about to begin. -/
def repeatingMoves : List Processor.Move :=
  [.upload (.caller 0) small, .upload (.caller 1) small, .upload (.caller 2) small,
    .act (.enter (.caller 1)), .act (.start 0)]

/-- The session then. -/
def repeatingEnd : Session :=
  (repeatingMoves.foldlM move repeatingStart).getD repeatingStart

theorem runs_repeating :
  repeatingStart.Runs repeatingEnd
  := by
  apply reflTransGen_of_isSome
  decide +kernel

/-- The processor for one statement, with identities from a sequence. -/
def labelledStart : Session :=
  { processor := { smallStart.processor with ids := .labelled "id" } }

/-- The session with the statement processed. -/
def labelledEnd : Session :=
  (smallMoves.foldlM move labelledStart).getD labelledStart

theorem runs_labelled :
  labelledStart.Runs labelledEnd
  := by
  apply reflTransGen_of_isSome
  decide +kernel

/-- A source that repeats itself does not give a record two owners; a sequence does not repeat
itself. -/
theorem one_owner_repeating :
  (repeatingEnd.processor.owners = [("u", 0)] ∧ repeatingEnd.Writes 0 "u" ∧
    ∀ t other, repeatingEnd.Runs t → t.Writes other "u" → other = 0) ∧
  (labelledEnd.identities ++ labelledEnd.events ++ labelledEnd.offered).Nodup ∧
  ∀ caller statement id,
    (labelledEnd.processor.upload caller statement).2 ≠ .error (.uploadConflict id)
  := by
  obtain ⟨-, ⟨howners, -, -⟩, -, -, -, -, hunique, -⟩ :=
    Runs.one_owner ⟨rfl, ⟨1, rfl⟩, rfl⟩ runs_repeating
  obtain ⟨-, -, -, -, -, -, -, hlabelled⟩ := Runs.one_owner ⟨rfl, ⟨1, rfl⟩, rfl⟩ runs_labelled
  have hwrites : repeatingEnd.Writes 0 "u" :=
    ⟨(repeatingEnd.move (.act (.proceed 0))).getD repeatingEnd, by decide +kernel,
      by decide +kernel⟩
  refine ⟨⟨?_, hwrites, fun t other hruns hother => ?_⟩, hlabelled rfl "id" rfl ?_⟩
  · rw [howners]
    decide +kernel
  · exact (hunique t "u" 0 other hruns hwrites hother).symm
  · decide +kernel

end Session

end Reconciliation
