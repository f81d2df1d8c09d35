import Reconciliation.Proofs.Bus
import Reconciliation.Proofs.Processor

/-!
# The effort that is left

Every action of a caller, a keeper or a body lowers the bound on the number of actions that they
can still take (`Processor.Acts.work_lt`), and none raises the bound on the number of notices that
can still come to the workers (`Processor.Acts.load_le`).  A body that goes on does both by taking
its job nearer to the end, which is what `Processor.Advances` says.
-/

namespace Reconciliation

/-! ### The runner -/

namespace Runner

variable {r r' : Runner} {caller : Party} {task : Nat}

/-- A task in another phase costs its keeper what that phase costs. -/
theorem work_setPhase (hkeys : (r.tasks.map Prod.fst).Nodup) {old : TaskPhase}
    (h : r.phase? task = some old) (new : TaskPhase) :
  (r.setPhase task new).work + phaseWork old = r.work + phaseWork new
  := by
  obtain ⟨t, ht, rfl⟩ := exists_of_phase? h
  have htotal := Keyed.total_modify (fun t => phaseWork t.phase) hkeys ht
    (fun t => { t with phase := new })
  dsimp only at htotal
  simp only [work, setPhase]
  omega

theorem work_lt_of_enter {r' : Runner} (h : r.enter? caller = some (task, r')) :
  r'.work < r.work
  := by
  obtain ⟨s, line, hline, -, -, -, rfl⟩ := enter?_eq_some h
  have htotal : Keyed.total (fun t => phaseWork t.phase) (r.tasks.add task { token := s.token })
      = Keyed.total (fun t => phaseWork t.phase) r.tasks + 2 := Keyed.total_add _ _ _ _
  simp only [work, hline, List.length_cons]
  omega

theorem work_lt_of_drop (h : r.drop? caller = some (task, r')) :
  r'.work < r.work
  := by
  obtain ⟨s, hs, hcaller, -, -, rfl⟩ := drop?_eq_some h
  have hlength := List.length_eraseP_of_mem (p := fun s => s.caller == caller) hs
    (by simpa using hcaller)
  have hpos := List.length_pos_of_mem hs
  simp only [work, hlength]
  omega

theorem work_lt_of_report {errors : List Fault} (h : r.report? caller = some (errors, r')) :
  r'.work < r.work
  := by
  obtain ⟨w, hw, hcaller, -, -, rfl⟩ := report?_eq_some h
  have hlength := List.length_eraseP_of_mem (p := fun w => w.caller == caller) hw
    (by simpa using hcaller)
  have hpos := List.length_pos_of_mem hw
  simp only [work, hlength]
  omega

theorem work_lt_of_skip (hkeys : (r.tasks.map Prod.fst).Nodup) (h : r.skip? task = some r') :
  r'.work < r.work
  := by
  obtain ⟨t, ht, hadmitted, -, rfl⟩ := skip?_eq_some h
  have hphase := phase?_of_get? ht
  rw [hadmitted] at hphase
  have hwork := work_setPhase hkeys hphase .skipped
  simp only [phaseWork] at hwork
  show (r.setPhase task .skipped).work < r.work
  omega

theorem work_lt_of_start (hkeys : (r.tasks.map Prod.fst).Nodup) (h : r.start? task = some r') :
  r'.work < r.work
  := by
  obtain ⟨t, ht, hadmitted, -, rfl⟩ := start?_eq_some h
  have hphase := phase?_of_get? ht
  rw [hadmitted] at hphase
  have hwork := work_setPhase hkeys hphase .running
  simp only [phaseWork] at hwork
  omega

theorem work_lt_of_collect (hkeys : (r.tasks.map Prod.fst).Nodup) {outcome : TaskOutcome}
    (h : r.collect? task = some (outcome, r')) :
  r'.work < r.work
  := by
  obtain ⟨hphase, rfl⟩ := collect?_eq_some h
  have hwork := work_setPhase hkeys hphase (.ended outcome)
  simp only [phaseWork] at hwork
  show (r.setPhase task (.ended outcome)).work < r.work
  omega

/-- The keeper of a task whose body has ended still has to collect the outcome. -/
theorem work_of_finish (hkeys : (r.tasks.map Prod.fst).Nodup) {outcome : TaskOutcome}
    (h : r.finish? task outcome = some r') :
  r'.work = r.work
  := by
  obtain ⟨hphase, rfl⟩ := finish?_eq_some.1 h
  have hwork := work_setPhase hkeys hphase (.returned outcome)
  simp only [phaseWork] at hwork
  omega

end Runner

/-! ### The bodies -/

/-- The number of notices that are at the bus. -/
def Bus.load (b : Bus) : Nat :=
  b.offers.length + b.queue.length

namespace Processor

variable {p q : Processor} {task : Nat} {id : String} {old new : JobStage}

/-- A bound on the number of notices that can still come to the workers. -/
def load (p : Processor) : Nat :=
  p.notices + p.bus.load

/-- A body takes its job to another stage, and may end with that. -/
structure Reaches (p q : Processor) (task : Nat) (new : JobStage) : Prop where
  jobs : q.jobs = (p.setStage task new).jobs
  runner : q.runner = p.runner ∨ ∃ o, p.runner.finish? task o = some q.runner
  bus : q.bus = p.bus

theorem reaches_setStage (p : Processor) (task : Nat) (new : JobStage) :
  p.Reaches (p.setStage task new) task new
  := ⟨rfl, .inl rfl, rfl⟩

theorem reaches_of_finish {outcome : TaskOutcome} (h : p.finish task outcome = some q) :
  p.Reaches q task .ended
  := by
  obtain ⟨runner, hrunner, rfl⟩ := Option.map_eq_some_iff.1 h
  exact ⟨rfl, .inr ⟨outcome, hrunner⟩, rfl⟩

/-- A job that writes to the store goes on, or ends. -/
theorem reaches_of_write {answer : Except StoreFault Store} {go : Processor → Option Processor}
    (hgo : ∀ store, go { p with store } = some q → p.Reaches q task new)
    (h : p.write task answer go = some q) :
  p.Reaches q task new ∨ p.Reaches q task .ended
  := by
  cases answer with
  | ok store => exact .inl (hgo store h)
  | error f => exact .inr (reaches_of_finish h)

/-- A body takes its job from one stage to another, which is nearer to the end; it may hand a
notice to the bus. -/
structure Advances (p q : Processor) (task : Nat) : Prop where
  jobs : ∃ id old new, p.jobs.get? task = some { upload := id, stage := old } ∧
    q.jobs = (p.setStage task new).jobs ∧ stageWork new < stageWork old ∧
    stageNotices new + q.bus.load ≤ stageNotices old + p.bus.load
  runner : q.runner = p.runner ∨ ∃ o, p.runner.finish? task o = some q.runner

theorem Reaches.advances (h : p.Reaches q task new)
    (hjob : p.jobs.get? task = some { upload := id, stage := old })
    (hwork : stageWork new < stageWork old) (hnotices : stageNotices new ≤ stageNotices old) :
  p.Advances q task
  where
    jobs := by
      refine ⟨id, old, new, hjob, h.jobs, hwork, ?_⟩
      rw [h.bus]
      omega
    runner := h.runner

/-- A line that is read is behind the body. -/
theorem advances_of_read {r : Reader} {tally : Tally}
    (hjob : p.jobs.get? task = some { upload := id, stage := .reading r tally })
    (h : p.read task id r tally = some q) :
  p.Advances q task
  := by
  rw [read] at h
  dsimp only at h
  split at h
  · next x hread =>
    have hlt := Reader.length_rest_lt (r := r) (by rw [hread]; rfl)
    split at h
    · cases h
      apply (reaches_setStage p task _).advances hjob
      · simp only [stageWork]
        omega
      · simp only [stageNotices]
        omega
    · cases h
      apply (reaches_setStage p task _).advances hjob
      · simp only [stageWork]
        omega
      · simp only [stageNotices]
        omega
  · next f hread =>
    have hlt := Reader.length_rest_lt (r := r) (by rw [hread]; rfl)
    cases h
    have hreaches : p.Reaches ((p.setStage task (.reading r.next.2 tally.reject)).note
        (.lineRejected id f)) task (.reading r.next.2 tally.reject) := ⟨rfl, .inl rfl, rfl⟩
    apply hreaches.advances hjob
    · simp only [stageWork]
      omega
    · simp only [stageNotices]
      omega
  · cases h
    apply (reaches_setStage p task _).advances hjob
    · simp only [stageWork]
      omega
    · exact Nat.zero_le _
  · next f _ =>
    cases h
    have hreaches : p.Reaches ((p.setStage task (.saving tally.reject (some f))).note
        (.readFailed id f)) task (.saving tally.reject (some f)) := ⟨rfl, .inl rfl, rfl⟩
    apply hreaches.advances hjob
    · simp only [stageWork]
      omega
    · exact Nat.zero_le _
  · next m _ =>
    have hended := reaches_of_finish (p := p.note (.panicCaptured (.text m))) h
    have hreaches : p.Reaches q task .ended := ⟨hended.jobs, hended.runner, hended.bus⟩
    apply hreaches.advances hjob
    · simp only [stageWork]
      omega
    · exact Nat.zero_le _

/-- A notice that is published or not is behind the body. -/
theorem advances_of_published (p : Processor) {b : Bus} {r : Reader} {tally : Tally}
    {n : Notice} {fault : Option Fault}
    (hjob : p.jobs.get? task = some { upload := id, stage := old })
    (hwork : 4 * r.rest.length + 3 < stageWork old)
    (hnotices : r.rest.length + b.load ≤ stageNotices old + p.bus.load) :
  p.Advances ({ p with bus := b }.published task r tally n fault) task
  := by
  obtain ⟨log, hpublished⟩ := published_eq { p with bus := b } task r tally n fault
  rw [hpublished]
  exact ⟨⟨id, old, .reading r (tally.record n.transaction), hjob, rfl, hwork, hnotices⟩, .inl rfl⟩

theorem advances_of_offer {r : Reader} {tally : Tally} {n : Notice}
    (hjob : p.jobs.get? task = some { upload := id, stage := .offering r tally n }) :
  p.Advances (p.offer task r tally n) task
  := by
  rw [offer, Bus.publish]
  split
  · next hpublish =>
    split at hpublish
    · cases hpublish
      refine ⟨⟨id, _, .publishing r tally n, hjob, rfl, ?_, ?_⟩, .inl rfl⟩
      · simp only [stageWork]
        omega
      · simp only [stageNotices, Bus.load, setStage, List.length_append, List.length_singleton]
        omega
    · cases hpublish
  · next hpublish =>
    split at hpublish
    · cases hpublish
    · cases hpublish
      apply advances_of_published p hjob
      · simp only [stageWork]
        omega
      · simp only [stageNotices]
        omega

/-- A body that goes on advances its job. -/
theorem advances_of_proceed (h : p.proceed task = some q) :
  p.Advances q task
  := by
  obtain ⟨hphase, ⟨id, stage⟩, hjob⟩ := exists_of_proceed h
  rw [proceed_of_job hphase hjob] at h
  cases stage with
  | fresh s =>
    have hrest := Reader.length_rest_ofStatement s
    have hbegin : p.begin task id s = some q := h
    rw [begin] at hbegin
    have hgo : ∀ store, some ({ p with store }.setStage task (.reading (.ofStatement s) {}))
        = some q → p.Reaches q task (.reading (.ofStatement s) {}) := by
      intro store hgo
      cases hgo
      exact ⟨rfl, .inl rfl, rfl⟩
    rcases reaches_of_write hgo hbegin with hreaches | hreaches
    · apply hreaches.advances hjob
      · simp only [stageWork]
        omega
      · exact hrest
    · apply hreaches.advances hjob
      · simp only [stageWork]
        omega
      · exact Nat.zero_le _
  | reading r tally => exact advances_of_read hjob h
  | announcing r tally x =>
    cases h
    refine ⟨⟨id, _, .offering r tally _, hjob, rfl, ?_, ?_⟩, .inl rfl⟩
    · simp only [stageWork]
      omega
    · exact Nat.le_refl _
  | offering r tally n =>
    cases h
    exact advances_of_offer hjob
  | publishing r tally n => cases h
  | saving tally fatal =>
    have hgo : ∀ store, some ({ p with store }.setStage task (.closing tally fatal)) = some q →
        p.Reaches q task (.closing tally fatal) := by
      intro store hgo
      cases hgo
      exact ⟨rfl, .inl rfl, rfl⟩
    rcases reaches_of_write hgo h with hreaches | hreaches
    · exact hreaches.advances hjob (Nat.lt_succ_self 1) (Nat.le_refl 0)
    · exact hreaches.advances hjob (Nat.zero_lt_succ 1) (Nat.le_refl 0)
  | closing tally fatal =>
    have hgo : ∀ store, { p with store }.finish task (conclusion fatal) = some q →
        p.Reaches q task .ended := by
      intro store hgo
      have hended := reaches_of_finish (p := { p with store }) hgo
      exact ⟨hended.jobs, hended.runner, hended.bus⟩
    have hreaches := or_self_iff.1 (reaches_of_write hgo h)
    exact hreaches.advances hjob (Nat.zero_lt_succ 0) (Nat.le_refl 0)
  | ended => cases h

/-- A body that goes on after waiting at the bus advances its job, if the bus is not left with more
notices than it had. -/
theorem advances_of_leaveBus {bus : Option Bus} {fault : Option Fault}
    (hload : ∀ b, bus = some b → b.load ≤ p.bus.load) (h : p.leaveBus task bus fault = some q) :
  p.Advances q task
  := by
  obtain ⟨b, id, r, tally, n, hbus, hjob, rfl⟩ := leaveBus_eq_some h
  have hle := hload b hbus
  apply advances_of_published p hjob
  · simp only [stageWork]
    omega
  · simp only [stageNotices]
    omega

/-! ### All together -/

/-- What an action comes to: something that callers and keepers do at the runner, or a body that
advances its job. -/
inductive Acts (p : Processor) : Processor → Option Reply → Prop where
  | enter {caller : Party} {task : Nat} {runner : Runner}
      (h : p.runner.enter? caller = some (task, runner)) :
      Acts p { p with runner } (p.accepted task)
  | drop {caller : Party} {task : Nat} {runner : Runner}
      (h : p.runner.drop? caller = some (task, runner)) :
      Acts p { p with runner } (p.accepted task)
  | report {caller : Party} {errors : List Fault} {runner : Runner}
      (h : p.runner.report? caller = some (errors, runner)) :
      Acts p { p with runner } (some (.waited errors))
  | skip {task : Nat} {runner : Runner} (h : p.runner.skip? task = some runner) :
      Acts p { p with runner } none
  | start {task : Nat} {runner : Runner} (h : p.runner.start? task = some runner) :
      Acts p { p with runner } none
  | collect {task : Nat} {outcome : TaskOutcome} {runner : Runner} {log : List LogEntry}
      (h : p.runner.collect? task = some (outcome, runner)) :
      Acts p { p with runner, log } none
  | body {q : Processor} {task : Nat} (h : p.Advances q task) : Acts p q none

theorem acts_of_apply {a : Action} {reply : Option Reply} (h : p.apply a = some (q, reply)) :
  p.Acts q reply
  := by
  cases a with
  | enter caller =>
    obtain ⟨⟨k, r⟩, henter, heq⟩ := Option.map_eq_some_iff.1 h
    cases heq
    exact .enter henter
  | drop caller =>
    obtain ⟨⟨k, r⟩, hdrop, heq⟩ := Option.map_eq_some_iff.1 h
    cases heq
    exact .drop hdrop
  | report caller =>
    obtain ⟨⟨errors, r⟩, hreport, heq⟩ := Option.map_eq_some_iff.1 h
    cases heq
    exact .report hreport
  | skip k =>
    obtain ⟨r, hskip, heq⟩ := Option.map_eq_some_iff.1 h
    cases heq
    exact .skip hskip
  | start k =>
    obtain ⟨r, hstart, heq⟩ := Option.map_eq_some_iff.1 h
    cases heq
    exact .start hstart
  | collect k =>
    obtain ⟨⟨outcome, r⟩, hcollect, heq⟩ := Option.map_eq_some_iff.1 h
    cases outcome with
    | succeeded | failed f | panicked payload =>
      cases heq
      exact .collect hcollect
  | proceed k =>
    obtain ⟨q', hproceed, heq⟩ := Option.map_eq_some_iff.1 h
    cases heq
    exact .body (advances_of_proceed hproceed)
  | accept k =>
    obtain ⟨q', hleave, heq⟩ := Option.map_eq_some_iff.1 h
    cases heq
    refine .body (advances_of_leaveBus (fun b hb => ?_) hleave)
    obtain ⟨o, offers, hoffers, -, -, rfl⟩ := Bus.accept?_eq_some hb
    simp only [Bus.load, hoffers, List.length_cons, List.length_append, List.length_nil]
    omega
  | withdraw k =>
    obtain ⟨q', hleave, heq⟩ := Option.map_eq_some_iff.1 h
    cases heq
    refine .body (advances_of_leaveBus (fun b hb => ?_) hleave)
    obtain ⟨o, -, -, -, rfl⟩ := Bus.withdraw?_eq_some hb
    have hle := List.length_eraseP_le (p := fun o => o.publisher == .body k) (l := p.bus.offers)
    simp only [Bus.load]
    omega

theorem Advances.work_lt (h : p.Advances q task) (hrunner : (p.runner.tasks.map Prod.fst).Nodup)
    (hjobs : (p.jobs.map Prod.fst).Nodup) :
  q.work < p.work
  := by
  have hkeeper : q.runner.work = p.runner.work := by
    rcases h.runner with hsame | ⟨o, hfinish⟩
    · rw [hsame]
    · exact Runner.work_of_finish hrunner hfinish
  obtain ⟨id, old, new, hjob, hstage, hwork, -⟩ := h.jobs
  have htotal := Keyed.total_modify (fun j => stageWork j.stage) hjobs hjob
    (fun j => { j with stage := new })
  dsimp only at htotal
  simp only [work, hstage, setStage]
  omega

theorem Advances.load_le (h : p.Advances q task) (hjobs : (p.jobs.map Prod.fst).Nodup) :
  q.load ≤ p.load
  := by
  obtain ⟨id, old, new, hjob, hstage, -, hnotices⟩ := h.jobs
  have htotal := Keyed.total_modify (fun j => stageNotices j.stage) hjobs hjob
    (fun j => { j with stage := new })
  dsimp only at htotal
  simp only [load, notices, hstage, setStage]
  omega

/-- Every action of a caller, a keeper or a body lowers the bound on the actions that are left. -/
theorem Acts.work_lt {reply : Option Reply} (h : p.Acts q reply)
    (hrunner : (p.runner.tasks.map Prod.fst).Nodup) (hjobs : (p.jobs.map Prod.fst).Nodup) :
  q.work < p.work
  := by
  cases h with
  | enter h => exact Nat.add_lt_add_right (Runner.work_lt_of_enter h) _
  | drop h => exact Nat.add_lt_add_right (Runner.work_lt_of_drop h) _
  | report h => exact Nat.add_lt_add_right (Runner.work_lt_of_report h) _
  | skip h => exact Nat.add_lt_add_right (Runner.work_lt_of_skip hrunner h) _
  | start h => exact Nat.add_lt_add_right (Runner.work_lt_of_start hrunner h) _
  | collect h => exact Nat.add_lt_add_right (Runner.work_lt_of_collect hrunner h) _
  | body h => exact h.work_lt hrunner hjobs

/-- No action raises the bound on the notices that can still come to the workers. -/
theorem Acts.load_le {reply : Option Reply} (h : p.Acts q reply)
    (hjobs : (p.jobs.map Prod.fst).Nodup) :
  q.load ≤ p.load
  := by
  cases h with
  | enter | drop | report | skip | start | collect => exact Nat.le_refl _
  | body h => exact h.load_le hjobs

end Processor

end Reconciliation
