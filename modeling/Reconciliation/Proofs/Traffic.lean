import Reconciliation.Proofs.Bus
import Reconciliation.Proofs.Moves

/-!
# The processor at the bus

`Session.Deals` says what an action of a processor comes to at the bus: nothing, the offer of a
notice, a refusal, or the end of a publisher's waiting.  `Processor.waiting` are the offers of
the jobs that wait for an answer; the actions of the processor keep them in step with those that
wait at the bus.
-/

namespace Reconciliation

/-- The offer of a notice by a task. -/
def Processor.offerBy (task : Nat) (notice : Notice) : Offer :=
  { publisher := .body task, token := root, notice }

/-- The offer with which the job of a task waits at the bus. -/
def JobStage.offer? (task : Nat) : JobStage → Option Offer
  | .publishing _ _ n => some (Processor.offerBy task n)
  | .fresh _ => none
  | .reading _ _ => none
  | .announcing _ _ _ => none
  | .offering _ _ _ => none
  | .saving _ _ => none
  | .closing _ _ => none
  | .ended => none

namespace Processor

variable {p q : Processor} {task : Nat} {id : String} {old : JobStage}

/-- The offers with which jobs wait at the bus. -/
def waiting (p : Processor) : List Offer :=
  p.jobs.gather (fun task job => (job.stage.offer? task).toList)

/-- A job with another stage waits with another offer. -/
theorem waiting_setStage (hkeys : (p.jobs.map Prod.fst).Nodup)
    (hjob : p.jobs.get? task = some { upload := id, stage := old }) (stage : JobStage) :
  ((p.setStage task stage).waiting ++ (old.offer? task).toList).Perm
    (p.waiting ++ (stage.offer? task).toList)
  := Keyed.gather_modify (fun task job => (job.stage.offer? task).toList) hkeys hjob
      (fun j => { j with stage })

/-- A job goes on by itself: the bus has no part in it. -/
def GoesOn (p q : Processor) (task : Nat) : Prop :=
  ∃ stage, q.bus = p.bus ∧ q.jobs = (p.setStage task stage).jobs ∧ stage.offer? task = none

theorem GoesOn.waiting (h : p.GoesOn q task) (hkeys : (p.jobs.map Prod.fst).Nodup)
    (hjob : p.jobs.get? task = some { upload := id, stage := old })
    (hold : old.offer? task = none) :
  q.waiting.Perm p.waiting
  := by
  obtain ⟨stage, -, hjobs, hstage⟩ := h
  have hperm := waiting_setStage hkeys hjob stage
  rw [hold, hstage, Option.toList_none, List.append_nil, List.append_nil] at hperm
  rw [Processor.waiting, hjobs]
  exact hperm

theorem goesOn_of_read {r : Reader} {tally : Tally}
    (hphase : p.runner.phase? task = some .running)
    (h : p.read task id r tally = some q) :
  p.GoesOn q task
  := by
  rw [read] at h
  dsimp only at h
  split at h
  · split at h
    · cases h
      exact ⟨_, rfl, rfl, rfl⟩
    · cases h
      exact ⟨_, rfl, rfl, rfl⟩
  · cases h
    exact ⟨_, rfl, rfl, rfl⟩
  · cases h
    exact ⟨_, rfl, rfl, rfl⟩
  · cases h
    exact ⟨_, rfl, rfl, rfl⟩
  · rw [finish_of_running (p := p.note _) hphase] at h
    cases h
    exact ⟨.ended, rfl, rfl, rfl⟩

end Processor

namespace Session

variable {s t : Session} {task : Nat}

/-- What happens at the bus between two sessions. -/
inductive Deals (s t : Session) : Prop where
  /-- Nothing. -/
  | still (hbus : t.processor.bus = s.processor.bus)
      (hpublished : t.journal.published = s.journal.published)
      (hwaiting : t.processor.waiting.Perm s.processor.waiting)
  /-- A task offers a notice. -/
  | offer {task : Nat} {n : Notice} (hopen : s.processor.bus.isOpen)
      (hbus : t.processor.bus = { s.processor.bus with
        offers := s.processor.bus.offers ++ [Processor.offerBy task n] })
      (hpublished : t.journal.published = s.journal.published ++ [(task, n)])
      (hwaiting : t.processor.waiting.Perm
        (s.processor.waiting ++ [Processor.offerBy task n]))
  /-- A task is refused, for the bus is closed. -/
  | refusal {task : Nat} {id : String} {r : Reader} {tally : Tally} {n : Notice}
      (hclosed : s.processor.bus.isOpen = false)
      (hjob : s.processor.jobs.get? task
        = some { upload := id, stage := .offering r tally n })
  /-- The notice of the first publisher is queued, and its task goes on. -/
  | acceptance {task : Nat} {o : Offer} {offers : List Offer} {n : Notice}
      (hoffers : s.processor.bus.offers = o :: offers) (htask : o.publisher = .body task)
      (hbus : t.processor.bus = { s.processor.bus with
        offers, queue := s.processor.bus.queue ++ [o.notice] })
      (hpublished : t.journal.published = s.journal.published)
      (hwaiting : (t.processor.waiting ++ [Processor.offerBy task n]).Perm
        s.processor.waiting)
  /-- A publisher gives up. -/
  | withdrawal {o : Offer} (ho : o ∈ s.processor.bus.offers)
      (hfired : o.token ∈ s.processor.bus.fired)

/-- What a body that goes on does at the bus. -/
theorem deals_of_proceed (hs : s.Sound) {q : Processor}
    (h : s.processor.proceed task = some q) :
  s.Deals
    { processor := q, journal := s.journal.after s.processor (.act (.proceed task)) }
  := by
  obtain ⟨hphase, -⟩ := Processor.exists_of_proceed h
  obtain ⟨id, c, hc, hp⟩ := hs.exists_shows_of_phase hphase
  have hjournal : s.journal.after s.processor (.act (.proceed task))
      = s.journal.afterProceed task s.processor.ids.peek c.stage := by
    rw [Journal.after, hc.job]
  have hgoesOn : ∀ {q : Processor}, s.processor.GoesOn q task → c.stage.offer? task = none →
      c.stage.event? = none →
      s.Deals { processor := q
                journal := s.journal.afterProceed task s.processor.ids.peek c.stage } := by
    intro q hq hwaiting hevent
    have hperm := hq.waiting hs.keys hc.job hwaiting
    obtain ⟨stage, hbus, -⟩ := hq
    exact .still hbus (Journal.published_afterProceed hevent) hperm
  rw [Processor.proceed_of_job hphase hc.job] at h
  rw [hjournal]
  cases hstage : c.stage with
  | fresh st =>
    simp only [hstage, Processor.begin_of_record hc.record, Option.some.injEq] at h
    subst h
    rw [← hstage]
    exact hgoesOn ⟨_, rfl, rfl, rfl⟩ (by rw [hstage]; rfl) (by rw [hstage]; rfl)
  | reading r tally =>
    simp only [hstage] at h
    rw [← hstage]
    exact hgoesOn (Processor.goesOn_of_read hphase h) (by rw [hstage]; rfl) (by rw [hstage]; rfl)
  | announcing r tally x =>
    simp only [hstage, Option.some.injEq] at h
    subst h
    rw [← hstage]
    exact hgoesOn ⟨_, rfl, rfl, rfl⟩ (by rw [hstage]; rfl) (by rw [hstage]; rfl)
  | offering r tally n =>
    simp only [hstage, Option.some.injEq] at h
    subst h
    have hjob := hc.job
    rw [hstage] at hjob
    by_cases hopen : s.processor.bus.isOpen
    · rw [Processor.offer, Bus.publish, if_pos hopen]
      refine .offer hopen rfl rfl ?_
      have hperm := Processor.waiting_setStage hs.keys hjob (.publishing r tally n)
      rw [show JobStage.offer? task (.offering r tally n) = none from rfl,
        Option.toList_none, List.append_nil] at hperm
      exact hperm
    · rw [Bool.not_eq_true] at hopen
      exact .refusal hopen hjob
  | publishing r tally n =>
    simp only [hstage] at h
    cases h
  | saving tally fatal =>
    simp only [hstage, Processor.save_of_record hc.record, Option.some.injEq] at h
    subst h
    rw [← hstage]
    exact hgoesOn ⟨_, rfl, rfl, rfl⟩ (by rw [hstage]; rfl) (by rw [hstage]; rfl)
  | closing tally fatal =>
    simp only [hstage, Processor.conclude_of_record hc.record hphase, Option.some.injEq] at h
    subst h
    rw [← hstage]
    exact hgoesOn ⟨.ended, rfl, rfl, rfl⟩ (by rw [hstage]; rfl) (by rw [hstage]; rfl)
  | ended =>
    simp only [hstage] at h
    cases h

/-- What an action of the processor does at the bus. -/
theorem deals_of_action (hs : s.Sound) {a : Processor.Action}
    (h : s.move (.act a) = some t) :
  s.Deals t
  := by
  obtain ⟨hp, hj⟩ := move_eq_some.1 h
  obtain ⟨processor, journal⟩ := t
  obtain rfl := hj
  obtain ⟨⟨q, reply⟩, hq, rfl⟩ := Option.map_eq_some_iff.1 hp
  cases a with
  | enter caller | drop caller | report caller =>
    obtain ⟨⟨_, r⟩, -, heq⟩ := Option.map_eq_some_iff.1 hq
    cases heq
    exact .still rfl rfl .rfl
  | skip k | start k =>
    obtain ⟨r, -, heq⟩ := Option.map_eq_some_iff.1 hq
    cases heq
    exact .still rfl rfl .rfl
  | collect k =>
    obtain ⟨⟨outcome, r⟩, -, heq⟩ := Option.map_eq_some_iff.1 hq
    cases outcome with
    | succeeded | failed f | panicked payload =>
      cases heq
      exact .still rfl rfl .rfl
  | proceed k =>
    obtain ⟨q', hproceed, heq⟩ := Option.map_eq_some_iff.1 hq
    cases heq
    exact deals_of_proceed hs hproceed
  | accept k =>
    obtain ⟨q', hleave, heq⟩ := Option.map_eq_some_iff.1 hq
    cases heq
    obtain ⟨b, id, r, tally, n, haccept, hjob, rfl⟩ := Processor.leaveBus_eq_some hleave
    obtain ⟨o, offers, hoffers, htask, -, rfl⟩ := Bus.accept?_eq_some haccept
    have hperm := Processor.waiting_setStage hs.keys hjob
      (.reading r (tally.record n.transaction))
    rw [show JobStage.offer? k (.reading r (tally.record n.transaction)) = none from rfl,
      Option.toList_none, List.append_nil] at hperm
    exact .acceptance hoffers htask rfl rfl hperm
  | withdraw k =>
    obtain ⟨q', hleave, heq⟩ := Option.map_eq_some_iff.1 hq
    cases heq
    obtain ⟨b, id, r, tally, n, hwithdraw, hjob, rfl⟩ := Processor.leaveBus_eq_some hleave
    obtain ⟨o, ho, -, hfired, -⟩ := Bus.withdraw?_eq_some hwithdraw
    exact .withdrawal ho hfired

/-- An upload has nothing to do with the bus. -/
theorem deals_of_upload {caller : Party} {statement : Statement}
    (h : s.move (.upload caller statement) = some t) :
  t.processor.bus = s.processor.bus ∧ t.journal.published = s.journal.published ∧
    t.processor.waiting = s.processor.waiting
  := by
  obtain ⟨hp, hj⟩ := move_eq_some.1 h
  obtain ⟨processor, journal⟩ := t
  obtain rfl := hj
  cases hp
  rw [Journal.after]
  rcases s.processor.upload_cases caller statement with
    ⟨part, -, -, hup⟩ | ⟨-, hup⟩ | ⟨-, store, -, hup⟩
  · rw [hup]
    exact ⟨rfl, rfl, rfl⟩
  · rw [hup]
    exact ⟨rfl, rfl, rfl⟩
  · rw [hup]
    refine ⟨rfl, rfl, ?_⟩
    exact (Keyed.gather_add _ _ _ _).trans (List.append_nil _)

end Session

end Reconciliation
