import Reconciliation.Proofs.Course

/-!
# Moves as changes of courses

Every move of a sound session does one of three things (`Session.change_of_move`): it leaves
all courses as they are, it begins a new one, or it takes one of them a step further.  So
sessions stay sound (`Session.Runs.sound`), and a property of courses that holds at their
beginning and is kept by their steps holds of all courses of all sessions that a new processor
can come to (`Session.Runs.course`).
-/

namespace Reconciliation.Session

variable {s t : Session} {task : Nat}

/-- What a move does to the courses of a session. -/
inductive Change (s t : Session) : Prop where
  | keeps (h : s.Keeps t)
  | accepts {id : String} {statement : Statement} (h : s.Accepts t id statement)
  | takes {task : Nat} {id : String} {c c' : Course} {ds : List String}
      (hstep : c.Step s.processor.missing id c') (hevents : c'.events = c.events ++ ds)
      (h : s.Takes t task id c c' ds)

/-! ### Single moves -/

theorem change_of_upload (caller : Party) (statement : Statement) :
  s.Change
    { processor := (s.processor.upload caller statement).1
      journal := s.journal.afterUpload statement (s.processor.upload caller statement).2 }
  := by
  rcases s.processor.upload_cases caller statement with
    ⟨part, -, -, hup⟩ | ⟨-, hup⟩ | ⟨-, store, hstore, hup⟩
  · rw [hup]
    exact .keeps ⟨rfl, rfl, rfl, rfl, rfl, rfl, .refl _, fun _ => rfl, [], draws_nil rfl rfl,
      (List.append_nil _).symm⟩
  · rw [hup]
    exact .keeps ⟨rfl, rfl, rfl, rfl, rfl, rfl, .refl _, fun _ => rfl, _,
      ⟨IdSource.draws_one _, rfl⟩, rfl⟩
  · rw [hup]
    obtain ⟨hfree, -⟩ := Store.create_eq_ok_iff.1 hstore
    exact .accepts ⟨rfl, rfl, rfl, hfree, rfl, hstore, rfl,
      Runner.numbers_submit _ _ _, fun _ => rfl, ⟨IdSource.draws_one _, rfl⟩, rfl⟩

/-- A body that reads on takes its course a step further. -/
theorem change_of_read {id : String} {c : Course} {r : Reader} {tally : Tally}
    {q : Processor} (hc : s.Shows task id c) (hp : c.phase = some .running)
    (hstage : c.stage = .reading r tally) (h : s.processor.read task id r tally = some q) :
  s.Change { s with processor := q }
  := by
  rw [Processor.read] at h
  dsimp only at h
  split at h
  · next x hread =>
    split at h
    · next hx =>
      cases h
      exact .takes (.notice hp hstage hread hx) (Course.events_eq rfl (by rw [hstage]; rfl))
        ((takes_self hc).setStage _)
    · next hx =>
      cases h
      exact .takes (.parse hp hstage hread hx) (Course.events_eq rfl (by rw [hstage]; rfl))
        ((takes_self hc).setStage _)
  · next f hread =>
    cases h
    exact .takes (.reject hp hstage hread) (Course.events_eq rfl (by rw [hstage]; rfl))
      (((takes_self hc).setStage _).setLog _)
  · next hread =>
    cases h
    exact .takes (.finish hp hstage hread) (Course.events_eq rfl (by rw [hstage]; rfl))
      ((takes_self hc).setStage _)
  · next f hread =>
    cases h
    exact .takes (.fail hp hstage hread) (Course.events_eq rfl (by rw [hstage]; rfl))
      (((takes_self hc).setStage _).setLog _)
  · next m hread =>
    rw [Processor.finish_of_running (p := s.processor.note _) (hc.phase.trans hp)] at h
    cases h
    exact .takes (.panic hp hstage hread) (Course.events_eq rfl (by rw [hstage]; rfl))
      ((takes_self hc).ending hp (.panicked (.text m)))

/-- A body that goes on takes its course a step further. -/
theorem change_of_proceed (hs : s.Sound) {q : Processor}
    (h : s.processor.proceed task = some q) :
  s.Change
    { processor := q, journal := s.journal.after s.processor (.act (.proceed task)) }
  := by
  obtain ⟨hphase, -⟩ := Processor.exists_of_proceed h
  obtain ⟨id, c, hc, hp⟩ := hs.exists_shows_of_phase hphase
  have hjournal : s.journal.after s.processor (.act (.proceed task))
      = s.journal.afterProceed task s.processor.ids.peek c.stage := by
    rw [Journal.after, hc.job]
  rw [Processor.proceed_of_job hphase hc.job] at h
  rw [hjournal]
  cases hstage : c.stage with
  | fresh st =>
    simp only [hstage, Processor.begin_of_record hc.record, Option.some.injEq] at h
    subst h
    exact .takes (.begin _ hp hstage) (Course.events_eq rfl (by rw [hstage]; rfl))
      ((takes_record hc _).setStage _)
  | reading r tally =>
    simp only [hstage] at h
    exact change_of_read hc hp hstage h
  | announcing r tally x =>
    simp only [hstage, Option.some.injEq] at h
    subst h
    exact .takes (.announce _ hp hstage) (Course.events_announce rfl (by rw [hstage]; rfl) rfl)
      ((takes_draw hc).setStage _)
  | offering r tally n =>
    simp only [hstage, Option.some.injEq] at h
    subst h
    rw [Processor.offer]
    split
    · exact .takes (.offer hp hstage) (Course.events_call rfl (by rw [hstage]; rfl) rfl)
        ((takes_call hc n).setStage _)
    · exact .takes (.call hp hstage) (Course.events_call rfl (by rw [hstage]; rfl) rfl)
        (((takes_call hc n).setStage _).setLog _)
  | publishing r tally n =>
    simp only [hstage] at h
    cases h
  | saving tally fatal =>
    simp only [hstage, Processor.save_of_record hc.record, Option.some.injEq] at h
    subst h
    exact .takes (.save hp hstage) (Course.events_eq rfl (by rw [hstage]; rfl))
      ((takes_record hc _).setStage _)
  | closing tally fatal =>
    simp only [hstage, Processor.conclude_of_record hc.record hphase, Option.some.injEq] at h
    subst h
    exact .takes (.conclude s.processor.clock.now hp hstage)
      (Course.events_eq rfl (by rw [hstage]; rfl))
      ((takes_record hc (Processor.closed _ tally fatal c.record)).ending hp _)
  | ended =>
    simp only [hstage] at h
    cases h

/-- A task that leaves the bus was waiting there for an answer to its call. -/
theorem change_of_leaveBus (hs : s.Sound) {bus : Option Bus} {fault : Option Fault}
    {q : Processor} (h : s.processor.leaveBus task bus fault = some q) :
  s.Change { s with processor := q }
  := by
  obtain ⟨b, id, r, tally, n, -, hjob, rfl⟩ := Processor.leaveBus_eq_some h
  obtain ⟨c, hc, hstage⟩ := hs.exists_shows_of_job hjob
  obtain ⟨log, hpublished⟩ :=
    Processor.published_eq { s.processor with bus := b } task r tally n fault
  rw [hpublished]
  exact .takes (.answer hstage) (Course.events_eq rfl (by rw [hstage]; rfl))
    (((takes_self hc).setStage _).setLog log)

/-- The answer of a publisher takes the course of the task that called it a step further. -/
theorem change_of_answer (hs : s.Sound) {fault : Option Fault} {q : Processor}
    (h : s.processor.answer? task fault = some q) :
  s.Change { processor := q, journal := s.journal.after s.processor (.answer task fault) }
  := by
  rw [Processor.answer?] at h
  split at h
  · next id r tally n hphase hjob =>
    cases h
    obtain ⟨c, hc, hstage⟩ := hs.exists_shows_of_job hjob
    have hp : c.phase = some .running := hc.phase.symm.trans hphase
    have hjournal : s.journal.after s.processor (.answer task fault)
        = s.journal.afterCall task n := by
      rw [Journal.after, hjob]
    obtain ⟨log, hpublished⟩ :=
      Processor.published_eq s.processor task r tally n fault
    rw [hpublished, hjournal]
    exact .takes (.call hp hstage) (Course.events_call rfl (by rw [hstage]; rfl) rfl)
      (((takes_call hc n).setStage _).setLog log)
  · cases h

/-- An action of a caller, a keeper or a body takes at most one course a step further. -/
theorem change_of_action (hs : s.Sound) {a : Processor.Action} {q : Processor}
    {reply : Option Processor.Reply} (h : s.processor.apply a = some (q, reply)) :
  s.Change { processor := q, journal := s.journal.after s.processor (.act a) }
  := by
  cases a with
  | enter caller =>
    obtain ⟨⟨k, r⟩, henter, heq⟩ := Option.map_eq_some_iff.1 h
    cases heq
    have hnumbers := Runner.numbers_of_enter henter
    obtain ⟨sub, line, hline, -, rfl, -, rfl⟩ := Runner.enter?_eq_some henter
    have hsub : sub ∈ s.processor.runner.line := by
      rw [hline]
      exact List.mem_cons_self
    obtain ⟨id, c, hc⟩ := hs.exists_shows_of_number
      (List.mem_append_left _ (List.mem_map_of_mem hsub))
    have hnone := hs.numbered.phase?_of_mem_line hsub
    have hphases := Runner.phase?_add hnone { token := sub.token }
    exact .takes (.enter (hc.phase.symm.trans hnone)) (Course.events_eq rfl rfl)
      (takes_phase hc .admitted rfl hnumbers hphases)
  | drop caller =>
    obtain ⟨⟨k, r⟩, hdrop, heq⟩ := Option.map_eq_some_iff.1 h
    cases heq
    have hnumbers := Runner.numbers_of_drop hdrop
    obtain ⟨sub, -, -, -, -, rfl⟩ := Runner.drop?_eq_some hdrop
    exact .keeps ⟨rfl, rfl, rfl, rfl, rfl, rfl, hnumbers, fun _ => rfl, [],
      draws_nil rfl rfl, (List.append_nil _).symm⟩
  | report caller =>
    obtain ⟨⟨errors, r⟩, hreport, heq⟩ := Option.map_eq_some_iff.1 h
    cases heq
    obtain ⟨w, -, -, -, -, rfl⟩ := Runner.report?_eq_some hreport
    exact .keeps ⟨rfl, rfl, rfl, rfl, rfl, rfl, .refl _, fun _ => rfl, [], draws_nil rfl rfl,
      (List.append_nil _).symm⟩
  | skip k =>
    obtain ⟨r, hskip, heq⟩ := Option.map_eq_some_iff.1 h
    cases heq
    obtain ⟨t, ht, hadmitted, -, rfl⟩ := Runner.skip?_eq_some hskip
    have hphase := Runner.phase?_of_get? ht
    rw [hadmitted] at hphase
    obtain ⟨id, c, hc, hp⟩ := hs.exists_shows_of_phase hphase
    have hnumbers := Runner.numbers_setPhase s.processor.runner k .skipped
    have hphases := Runner.phase?_setPhase hphase .skipped
    exact .takes (.skip hp) (Course.events_eq rfl rfl)
      (takes_phase hc .skipped rfl (.of_eq hnumbers) hphases)
  | start k =>
    obtain ⟨r, hstart, heq⟩ := Option.map_eq_some_iff.1 h
    cases heq
    obtain ⟨t, ht, hadmitted, -, rfl⟩ := Runner.start?_eq_some hstart
    have hphase := Runner.phase?_of_get? ht
    rw [hadmitted] at hphase
    obtain ⟨id, c, hc, hp⟩ := hs.exists_shows_of_phase hphase
    have hnumbers := Runner.numbers_setPhase s.processor.runner k .running
    have hphases := Runner.phase?_setPhase hphase .running
    exact .takes (.start hp) (Course.events_eq rfl rfl)
      (takes_phase hc .running rfl (.of_eq hnumbers) hphases)
  | collect k =>
    obtain ⟨⟨outcome, r⟩, hcollect, heq⟩ := Option.map_eq_some_iff.1 h
    obtain ⟨hphase, rfl⟩ := Runner.collect?_eq_some hcollect
    obtain ⟨id, c, hc, hp⟩ := hs.exists_shows_of_phase hphase
    have hnumbers := Runner.numbers_setPhase s.processor.runner k (.ended outcome)
    have hphases := Runner.phase?_setPhase hphase (.ended outcome)
    cases outcome with
    | succeeded | failed f | panicked payload =>
      cases heq
      exact .takes (.collect hp) (Course.events_eq rfl rfl)
        (takes_phase hc (.ended _) rfl (.of_eq hnumbers) hphases)
  | proceed k =>
    obtain ⟨q', hproceed, heq⟩ := Option.map_eq_some_iff.1 h
    cases heq
    exact change_of_proceed hs hproceed
  | accept k =>
    obtain ⟨q', hleave, heq⟩ := Option.map_eq_some_iff.1 h
    cases heq
    exact change_of_leaveBus hs hleave
  | withdraw k =>
    obtain ⟨q', hleave, heq⟩ := Option.map_eq_some_iff.1 h
    cases heq
    exact change_of_leaveBus hs hleave

/-- Every move keeps all courses, begins one, or takes one a step further. -/
theorem change_of_move (hs : s.Sound) {m : Processor.Move} (h : s.move m = some t) :
  s.Change t
  := by
  obtain ⟨hp, hj⟩ := move_eq_some.1 h
  obtain ⟨processor, journal⟩ := t
  obtain rfl := hj
  cases m with
  | upload caller statement =>
    cases hp
    exact change_of_upload caller statement
  | act a =>
    obtain ⟨⟨q, reply⟩, hq, rfl⟩ := Option.map_eq_some_iff.1 hp
    exact change_of_action hs hq
  | answer task fault => exact change_of_answer hs hp
  | wait | cancel | exchange | tick =>
    cases hp
    exact .keeps ⟨rfl, rfl, rfl, rfl, rfl, rfl, .refl _, fun _ => rfl, [], draws_nil rfl rfl,
      (List.append_nil _).symm⟩

/-! ### Soundness -/

section

variable {id : String} {statement : Statement} {c c' : Course} {ds : List String}

theorem Keeps.sound (hs : s.Sound) (h : s.Keeps t) :
  t.Sound
  where
    keys := by
      rw [h.jobs]
      exact hs.keys
    owner k := by
      rw [h.jobs, h.accepted]
      exact hs.owner k
    distinct := by
      rw [h.accepted]
      exact hs.distinct
    stored i := by
      rw [h.store, h.accepted]
      exact hs.stored i
    submitted := by
      rw [h.submitted, h.accepted]
      exact hs.submitted
    numbered := hs.numbered.of_numbers_sublist h.numbers h.submitted
    called call hcall := by
      rw [h.accepted]
      rw [h.published] at hcall
      exact hs.called call hcall

/-- There is no job at the number that the next task will get. -/
theorem Sound.get?_submitted (hs : s.Sound) :
  s.processor.jobs.get? s.processor.runner.submitted = none
  := by
  have howner := hs.owner s.processor.runner.submitted
  rw [hs.submitted, List.getElem?_eq_none (Nat.le_refl _)] at howner
  rw [hs.submitted]
  exact Option.map_eq_none_iff.1 howner

theorem Accepts.sound (hs : s.Sound) (h : s.Accepts t id statement) :
  t.Sound
  where
    keys := by
      rw [h.jobs, Keyed.keys_add, List.nodup_append_comm]
      apply List.nodup_cons.2
      exact ⟨Keyed.get?_eq_none_iff.1 hs.get?_submitted, hs.keys⟩
    owner k := by
      rw [h.jobs, h.accepted]
      by_cases hk : k = s.processor.runner.submitted
      · subst hk
        rw [Keyed.get?_add_self hs.get?_submitted, hs.submitted, List.getElem?_concat_length]
        rfl
      · rw [Keyed.get?_add_of_ne hk, hs.owner, List.getElem?_append]
        rw [hs.submitted] at hk
        split
        · rfl
        · next hge =>
          rw [List.getElem?_eq_none (by omega), List.getElem?_eq_none (by simp; omega)]
    distinct := by
      rw [h.accepted, List.map_append, List.map_singleton, List.nodup_append_comm]
      apply List.nodup_cons.2
      refine ⟨fun hmem => ?_, hs.distinct⟩
      have hsome := (hs.stored id).2 hmem
      rw [h.free] at hsome
      cases hsome
    stored i := by
      rw [h.accepted, List.map_append, List.mem_append, ← hs.stored]
      by_cases hi : i = id
      · subst hi
        rw [show t.processor.store.get? i = _ from Store.get?_create_self h.store]
        simp
      · rw [Store.get?_create_of_ne h.store hi]
        simp [hi]
    submitted := by
      rw [h.submitted, h.accepted, hs.submitted, List.length_append, List.length_singleton]
    numbered := hs.numbered.of_numbers_cons h.numbers h.submitted
    called call hcall := by
      rw [h.published] at hcall
      rw [h.accepted, List.length_append]
      exact Nat.lt_of_lt_of_le (hs.called call hcall) (Nat.le_add_right _ _)

theorem Takes.sound (hs : s.Sound) (h : s.Takes t task id c c' ds) :
  t.Sound
  where
    keys := by
      rw [h.keys]
      exact hs.keys
    owner k := by
      rw [h.job, h.accepted]
      split
      · next hk =>
        rw [hk, hs.accepted_of_shows h.before]
        rfl
      · exact hs.owner k
    distinct := by
      rw [h.accepted]
      exact hs.distinct
    stored i := by
      rw [h.record, h.accepted, ← hs.stored]
      split
      · next hi =>
        rw [hi, h.before.record]
        exact Iff.rfl
      · exact Iff.rfl
    submitted := by
      rw [h.submitted, h.accepted]
      exact hs.submitted
    numbered := hs.numbered.of_numbers_perm h.numbers h.submitted
    called call hcall := by
      rw [h.accepted]
      rcases h.called call hcall with hcall | hcall
      · exact hs.called call hcall
      · rw [hcall]
        exact hs.lt_of_shows h.before

end

theorem Change.sound (hs : s.Sound) (h : s.Change t) :
  t.Sound
  := by
  cases h with
  | keeps h => exact h.sound hs
  | accepts h => exact h.sound hs
  | takes _ _ h => exact h.sound hs

theorem Change.missing (h : s.Change t) :
  t.processor.missing = s.processor.missing
  := by
  cases h with
  | keeps h => exact h.missing
  | accepts h => exact h.missing
  | takes _ _ h => exact h.missing

/-- A course that is shown goes on by at most one step. -/
theorem Change.shows (hs : s.Sound) (h : s.Change t) {id : String} {c : Course}
    (hc : s.Shows task id c) :
  ∃ c', t.Shows task id c' ∧ Relation.ReflGen (Course.Step s.processor.missing id) c c'
  := by
  cases h with
  | keeps h => exact ⟨c, h.shows hc, .refl⟩
  | accepts h => exact ⟨c, h.shows_old hc, .refl⟩
  | @takes other id' d d' ds hstep _ h =>
    by_cases hk : task = other
    · subst hk
      obtain ⟨rfl, rfl⟩ := hc.unique h.before
      exact ⟨d', h.shows_self, .single hstep⟩
    · exact ⟨c, h.shows_other hs hc hk, .refl⟩

/-! ### Runs -/

/-- Nothing has happened yet. -/
structure IsNew (s : Session) : Prop where
  processor : s.processor.IsNew
  journal : s.journal = {}

theorem IsNew.sound (h : s.IsNew) :
  s.Sound
  := by
  obtain ⟨n, hrunner⟩ := h.processor.runner
  constructor
  · rw [h.processor.jobs]
    exact List.nodup_nil
  · intro k
    rw [h.processor.jobs, h.journal]
    rfl
  · rw [h.journal]
    exact List.nodup_nil
  · intro id
    rw [h.processor.store, h.journal]
    exact ⟨nofun, nofun⟩
  · rw [hrunner, h.journal]
    rfl
  · rw [hrunner]
    exact Runner.numbered_ofCapacity n
  · rw [h.journal]
    exact nofun

theorem isNew_smallStart :
  smallStart.IsNew
  where
    processor := ⟨rfl, rfl, 1, rfl⟩
    journal := rfl

/-- A session stays sound. -/
theorem Runs.sound (h : s.Runs t) (hs : s.Sound) :
  t.Sound
  := by
  induction h with
  | refl => exact hs
  | tail _ hleads ih =>
    obtain ⟨m, hm⟩ := hleads
    exact (change_of_move ih hm).sound ih

theorem Runs.missing (h : s.Runs t) (hs : s.Sound) :
  t.processor.missing = s.processor.missing
  := by
  induction h with
  | refl => rfl
  | tail hruns hleads ih =>
    obtain ⟨m, hm⟩ := hleads
    exact (change_of_move (Runs.sound hruns hs) hm).missing.trans ih

/-- A course that is shown goes on along its steps. -/
theorem Runs.shows (h : s.Runs t) (hs : s.Sound) {id : String} {c : Course}
    (hc : s.Shows task id c) :
  ∃ c', t.Shows task id c' ∧ Course.Runs s.processor.missing id c c'
  := by
  induction h with
  | refl => exact ⟨c, hc, .refl⟩
  | tail hruns hleads ih =>
    obtain ⟨m, hm⟩ := hleads
    obtain ⟨c₁, hc₁, hruns₁⟩ := ih
    have hs₁ := Runs.sound hruns hs
    obtain ⟨c₂, hc₂, hstep⟩ := (change_of_move hs₁ hm).shows hs₁ hc₁
    rw [Runs.missing hruns hs] at hstep
    exact ⟨c₂, hc₂, hruns₁.trans hstep.to_reflTransGen⟩

/-- Every accepted upload has a course that began when it was accepted. -/
theorem Runs.course (h : s.Runs t) (hnew : s.IsNew) {id : String} {statement : Statement}
    (haccepted : t.journal.accepted[task]? = some (id, statement)) :
  ∃ c, t.Shows task id c ∧
    Course.Runs s.processor.missing id (.initial id statement) c
  := by
  have hs := hnew.sound
  induction h generalizing task id statement with
  | refl =>
    rw [hnew.journal] at haccepted
    cases haccepted
  | @tail t u hruns hleads ih =>
    obtain ⟨m, hm⟩ := hleads
    have ht := Runs.sound hruns hs
    have hchange := change_of_move ht hm
    have hold : ∀ {k i st}, t.journal.accepted[k]? = some (i, st) →
        ∃ c, u.Shows k i c ∧ Course.Runs s.processor.missing i (.initial i st) c := by
      intro k i st hk
      obtain ⟨c, hc, hcourse⟩ := ih hk
      obtain ⟨c', hc', hstep⟩ := hchange.shows ht hc
      rw [Runs.missing hruns hs] at hstep
      exact ⟨c', hc', hcourse.trans hstep.to_reflTransGen⟩
    cases hchange with
    | keeps h =>
      rw [h.accepted] at haccepted
      exact hold haccepted
    | takes _ _ h =>
      rw [h.accepted] at haccepted
      exact hold haccepted
    | accepts h =>
      rw [h.accepted, List.getElem?_append] at haccepted
      split at haccepted
      · exact hold haccepted
      · next hge =>
        obtain ⟨hk, heq⟩ := List.getElem?_eq_some_iff.1 haccepted
        have htask : task = t.processor.runner.submitted := by
          rw [ht.submitted]
          rw [List.length_singleton] at hk
          omega
        rw [List.getElem_singleton] at heq
        cases heq
        subst htask
        exact ⟨_, h.shows_new ht, .refl⟩

end Reconciliation.Session
