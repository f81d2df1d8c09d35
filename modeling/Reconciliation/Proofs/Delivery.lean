import Reconciliation.Proofs.Agreement
import Reconciliation.Proofs.Ledger
import Reconciliation.Proofs.Pairing

/-!
# Every failed transaction is reconciled once

A notice that the publisher is called for passes from the offers through the queue of the bus to
a worker, and the worker calls the handler for it; on the way none is lost, and none comes twice
(`Service.Delivers`).  No event is known to the pool before the one worker that has its notice
calls the handler, since events have identities of their own; so no notice is taken for a
duplicate, and every call is the only one for its event.

Once all workers have ended, nothing is left on the way, and the handler has been called for the
failed transactions of the statements, once for each (`Service.Runs.exactly_once`).
-/

namespace Reconciliation

/-! ### The pool -/

namespace WorkerPhase

/-- The notice that a worker has taken, and not yet called the handler for. -/
def held? : WorkerPhase → Option Notice
  | .holding n => some n
  | .idle => none
  | .waiting => none
  | .calling _ _ _ _ => none
  | .asleep _ _ _ => none
  | .ended => none
  | .crashed => none

/-- The worker has had no trouble: it is not about to repeat a call, it has not been ended by a
panic, and a call it is in is for a notice that has an identity. -/
def IsCalm : WorkerPhase → Prop
  | .calling n _ _ _ => n.event ≠ ""
  | .asleep _ _ _ => False
  | .crashed => False
  | .idle => True
  | .waiting => True
  | .holding _ => True
  | .ended => True

end WorkerPhase

namespace Pool

variable {b b' : Bus} {p p' : Pool} {w : Nat} {old : WorkerPhase} {n : Notice}

/-- The notices that workers hold. -/
def held (p : Pool) : List Notice :=
  p.workers.gather (fun _ phase => phase.held?.toList)

/-- The notices that came to the pool, those whose handling has begun included. -/
def notices (p : Pool) : List Notice :=
  p.held ++ p.calls.map Call.notice

/-- The events that the handler was called for. -/
def events (p : Pool) : List String :=
  p.calls.map (fun c => c.notice.event)

theorem map_event_notices (p : Pool) :
  p.notices.map Notice.event = p.held.map Notice.event ++ p.events
  := by
  rw [notices, List.map_append, List.map_map]
  rfl

theorem held_setPhase (hkeys : (p.workers.map Prod.fst).Nodup)
    (hw : p.workers.get? w = some old) (new : WorkerPhase) :
  ((p.setPhase w new).held ++ old.held?.toList).Perm (p.held ++ new.held?.toList)
  := Keyed.gather_modify (fun _ phase => phase.held?.toList) hkeys hw (fun _ => new)

/-- Nothing has gone wrong: the handler accepts every notice that has an identity, and was called
for each event only once. -/
structure IsClean (p : Pool) : Prop where
  handler : ∃ millis, p.handler = .announcing millis
  seen : ∀ e ∈ p.seen, e ∈ p.events
  calm : ∀ w phase, p.workers.get? w = some phase → phase.IsCalm
  called : ∀ c ∈ p.calls, c.nth = 1 ∧ c.notice.event ≠ ""
  log : ∀ n, .duplicateSkipped n ∉ p.log

/-- The notices that workers hold are about events that the handler was not yet called for. -/
def IsFresh (p : Pool) : Prop :=
  ∀ w n, p.workers.get? w = some (.holding n) → n.event ≠ "" ∧ n.event ∉ p.events

namespace IsClean

theorem setPhase (h : p.IsClean) (hw : p.workers.get? w = some old) (new : WorkerPhase)
    (hnew : new.IsCalm) :
  (p.setPhase w new).IsClean
  where
    handler := h.handler
    seen := h.seen
    calm k phase hk := by
      rw [Pool.setPhase, Keyed.get?_modify hw] at hk
      split at hk
      · cases hk
        exact hnew
      · exact h.calm k phase hk
    called := h.called
    log := h.log

theorem note (h : p.IsClean) {e : LogEntry} (he : ∀ n, e ≠ .duplicateSkipped n) :
  (p.note e).IsClean
  where
    handler := h.handler
    seen := h.seen
    calm := h.calm
    called := h.called
    log n hmem := by
      rcases List.mem_append.1 hmem with hmem | hmem
      · exact h.log n hmem
      · exact he n (List.mem_singleton.1 hmem).symm

/-- The verdict on a notice that has an identity. -/
theorem verdict (h : p.IsClean) (hn : n.event ≠ "") (nth : Nat) :
  p.handler.verdict n nth = .reconciled
  := by
  obtain ⟨millis, hhandler⟩ := h.handler
  rw [hhandler, Handler.announcing]
  simp [hn]

/-- A worker sets about a notice that is about a new event. -/
theorem process (h : p.IsClean) (hw : p.workers.get? w = some (.holding n))
    (hfresh : p.IsFresh) :
  (p.process w n).IsClean ∧ ∃ time nth finish,
    (p.process w n).calls = p.calls ++ [{ time, notice := n, nth }] ∧
    (p.process w n).workers = (p.setPhase w (.calling n 0 nth finish)).workers
  := by
  obtain ⟨hevent, hnew⟩ := hfresh w n hw
  have hseen : n.event ∉ p.seen := fun hmem => hnew (h.seen _ hmem)
  have hcount : p.calls.countP (fun c => c.notice.event == n.event) = 0 := by
    rw [List.countP_eq_zero]
    intro c hc heq
    exact hnew (List.mem_map.2 ⟨c, hc, eq_of_beq heq⟩)
  have hprocess : p.process w n = { p with seen := n.event :: p.seen }.call w n 0 := by
    rw [Pool.process, if_neg (by simpa using hevent), if_neg hseen]
  rw [hprocess]
  refine ⟨?_, _, _, _, rfl, rfl⟩
  have hphase := h.setPhase hw (.calling n 0 1 (p.now + p.handler.millis)) hevent
  constructor
  · exact h.handler
  · intro e he
    rw [events, call, List.map_append]
    rcases List.mem_cons.1 he with rfl | he
    · simp
    · exact List.mem_append_left _ (h.seen e he)
  · intro k phase hk
    rw [call] at hk
    simp only [hcount] at hk
    exact hphase.calm k phase hk
  · intro c hc
    rw [call] at hc
    rcases List.mem_append.1 hc with hc | hc
    · exact h.called c hc
    · rw [List.mem_singleton.1 hc]
      exact ⟨by simp only [hcount], hevent⟩
  · exact h.log

/-- A call that ends has reconciled its notice. -/
theorem settleCall (h : p.IsClean) {attempt nth finish : Nat}
    (hw : p.workers.get? w = some (.calling n attempt nth finish)) :
  (p.settleCall w n attempt (p.handler.verdict n nth)).IsClean ∧
    (p.settleCall w n attempt (p.handler.verdict n nth)).calls = p.calls ∧
    (p.settleCall w n attempt (p.handler.verdict n nth)).workers = (p.setPhase w .idle).workers
  := by
  have hphase := h.setPhase hw .idle trivial
  rw [h.verdict (h.calm w _ hw), Pool.settleCall]
  split
  · exact ⟨hphase.note (by simp), rfl, rfl⟩
  · exact ⟨hphase, rfl, rfl⟩

end IsClean

/-- A worker goes from one phase to another, and the notices between queue and handler stay what
they are: what comes from the queue is held, and the handler is called for what is held no more. -/
theorem notices_setPhase (hkeys : (p.workers.map Prod.fst).Nodup)
    (hw : p.workers.get? w = some old) {new : WorkerPhase}
    (hworkers : p'.workers = (p.setPhase w new).workers) {calls : List Call}
    (hcalls : p'.calls = p.calls ++ calls) {queue queue' : List Notice}
    (hqueue : (queue' ++ (new.held?.toList ++ calls.map Call.notice)).Perm
      (queue ++ old.held?.toList)) :
  (queue' ++ p'.notices).Perm (queue ++ p.notices)
  := by
  have hheld := held_setPhase hkeys hw new
  rw [held, ← hworkers, ← held] at hheld
  rw [List.perm_iff_count] at hheld hqueue ⊢
  intro m
  have hcount := hheld m
  have hcount' := hqueue m
  simp only [notices, hcalls, List.map_append, List.count_append] at hcount hcount' ⊢
  omega

/-- A step keeps the pool clean if the notices at hand are about new events, and takes the
notices that come to the pool from the queue. -/
theorem IsClean.step (h : p.IsClean) (hfresh : p.IsFresh)
    (hkeys : (p.workers.map Prod.fst).Nodup)
    (htakers : ∀ w takers, b.takers = .worker w :: takers → p.workers.get? w = some .waiting)
    (hstep : Step b p b' p') :
  p'.IsClean ∧ b'.offers = b.offers ∧ (b'.queue ++ p'.notices).Perm (b.queue ++ p.notices)
  := by
  cases hstep with
  | ask hw =>
    have hcalls := (List.append_nil p.calls).symm
    exact ⟨h.setPhase hw _ trivial, rfl, notices_setPhase hkeys hw rfl hcalls (.refl _)⟩
  | @receive w takers n queue htaker hqueue =>
    have hw := htakers w takers htaker
    have hcalls := (List.append_nil p.calls).symm
    refine ⟨h.setPhase hw _ trivial, rfl, notices_setPhase hkeys hw rfl hcalls ?_⟩
    rw [hqueue]
    exact (List.perm_append_singleton n queue).trans (.of_eq (List.append_nil _).symm)
  | @dismiss w takers htaker hended =>
    have hw := htakers w takers htaker
    have hcalls := (List.append_nil p.calls).symm
    exact ⟨h.setPhase hw _ trivial, rfl, notices_setPhase hkeys hw rfl hcalls (.refl _)⟩
  | begin hw =>
    obtain ⟨hclean, time, nth, finish, hcalls, hworkers⟩ := h.process hw hfresh
    exact ⟨hclean, rfl, notices_setPhase hkeys hw hworkers hcalls (.refl _)⟩
  | conclude hw _ =>
    obtain ⟨hclean, hcalls, hworkers⟩ := h.settleCall hw
    rw [← List.append_nil p.calls] at hcalls
    exact ⟨hclean, rfl, notices_setPhase hkeys hw hworkers hcalls (.refl _)⟩
  | retry hw _ => cases h.calm _ _ hw
  | abandon hw _ => cases h.calm _ _ hw
  | @confirm s _ _ =>
    refine ⟨⟨h.handler, h.seen, h.calm, h.called, ?_⟩, rfl, .refl _⟩
    intro m hm
    rcases List.mem_append.1 hm with hm | hm
    · exact h.log m hm
    · obtain ⟨_, -, heq⟩ := List.mem_map.1 hm
      cases heq
  | expire => exact ⟨⟨h.handler, h.seen, h.calm, h.called, h.log⟩, rfl, .refl _⟩

end Pool

/-! ### The service -/

namespace Session

variable {s t : Session}

/-- No identity was drawn twice, and none is empty. -/
structure IsDistinct (s : Session) : Prop where
  nodup : s.journal.drawn.Nodup
  nonempty : "" ∉ s.journal.drawn

/-- What was drawn earlier is a beginning of what is drawn later. -/
theorem Runs.isDistinct (h : s.Runs t) (hs : s.Sound) (ht : t.IsDistinct) :
  s.IsDistinct
  := by
  obtain ⟨ds, hds⟩ := h.draws hs
  have hbegin : s.journal.drawn <+: t.journal.drawn := by
    rw [hds.drawn]
    exact List.prefix_append _ _
  constructor
  · exact ht.nodup.sublist hbegin.sublist
  · exact fun hmem => ht.nonempty (hbegin.subset hmem)

end Session

namespace Service

variable {start s t : Service}

/-- The notices that the publisher was called for are on their way to the handler, or have come
to it. -/
structure Delivers (s : Service) : Prop where
  clean : s.pool.IsClean
  flow : (s.session.journal.published.map Prod.snd).Perm
    (s.bus.offers.map Offer.notice ++ (s.bus.queue ++ s.pool.notices))

theorem IsNew.delivers (h : s.IsNew) :
  s.Delivers
  := by
  obtain ⟨n, hbus⟩ := h.bus
  obtain ⟨plan, millis, hpool⟩ := h.pool
  constructor
  · rw [hpool, Pool.ofPlan]
    constructor
    · exact ⟨millis, rfl⟩
    · exact nofun
    · exact nofun
    · exact nofun
    · intro n hn
      dsimp only at hn
      rw [DeliveryPlan.warnings] at hn
      split at hn
      · cases List.mem_singleton.1 hn
      · cases hn
  · rw [h.session.journal, hbus, hpool]
    exact .refl _

namespace Delivers

/-- No notice at hand is about an event that was handled before. -/
theorem isFresh (h : s.Delivers) (hbalanced : s.session.Balanced)
    (hdistinct : s.session.IsDistinct) :
  s.pool.IsFresh
  := by
  have hevents : s.session.events.Perm
      ((s.bus.offers.map Offer.notice ++ s.bus.queue).map Notice.event ++
        (s.pool.held.map Notice.event ++ s.pool.events)) := by
    have hflow := h.flow
    rw [← List.append_assoc] at hflow
    have hperm := hflow.map Notice.event
    rw [List.map_map, List.map_append, Pool.map_event_notices] at hperm
    exact hperm
  have hnodup := hevents.nodup_iff.1 (hbalanced.nodup_events hdistinct.nodup)
  intro w n hw
  have hheld : n.event ∈ s.pool.held.map Notice.event := by
    apply List.mem_map_of_mem
    exact List.mem_flatMap.2 ⟨_, Keyed.mem_of_get? hw, List.mem_singleton_self n⟩
  constructor
  · intro hempty
    apply hdistinct.nonempty
    apply hbalanced.events_subset
    rw [← hempty, hevents.mem_iff]
    exact List.mem_append_right _ (List.mem_append_left _ hheld)
  · intro hcalled
    have hrest := (List.nodup_append.1 hnodup).2.1
    exact (List.nodup_append.1 hrest).2.2 _ hheld _ hcalled rfl

theorem deals (h : s.Delivers) (hpaired : s.Paired) (hdeals : s.session.Deals t.session)
    (hpool : t.pool = s.pool) :
  t.Delivers
  := by
  have hflow := h.flow
  cases hdeals with
  | still hbus hpublished _ =>
    have hbus : t.bus = s.bus := hbus
    constructor
    · rw [hpool]
      exact h.clean
    · rw [hpublished, hbus, hpool]
      exact hflow
  | @offer task n _ hbus hpublished _ =>
    have hbus : t.bus = { s.bus with offers := s.bus.offers ++ [Processor.offerBy task n] } :=
      hbus
    constructor
    · rw [hpool]
      exact h.clean
    · rw [hpublished, hbus, hpool]
      rw [List.perm_iff_count] at hflow ⊢
      intro m
      have hcount := hflow m
      simp only [List.map_append, List.map_cons, List.map_nil, List.count_append,
        Processor.offerBy] at hcount ⊢
      omega
  | refusal hclosed hjob => cases hpaired.closed hclosed _ _ hjob
  | @acceptance task o offers n hoffers _ hbus hpublished _ =>
    have hoffers : s.bus.offers = o :: offers := hoffers
    have hbus : t.bus = { s.bus with offers, queue := s.bus.queue ++ [o.notice] } := hbus
    constructor
    · rw [hpool]
      exact h.clean
    · rw [hpublished, hbus, hpool]
      rw [hoffers, List.perm_iff_count] at hflow
      rw [List.perm_iff_count]
      intro m
      have hcount := hflow m
      simp only [List.map_cons, List.count_append, List.count_cons,
        List.count_nil] at hcount ⊢
      omega
  | withdrawal ho hfired =>
    have hfired' : s.session.processor.bus.fired = [] := hpaired.fired
    rw [hfired'] at hfired
    cases hfired

theorem works (h : s.Delivers) (hpaired : s.Paired) (hfresh : s.pool.IsFresh)
    (hstep : Pool.Step s.bus s.pool t.bus t.pool)
    (hsession : t = { s.withBus t.bus with pool := t.pool }) :
  t.Delivers
  := by
  have hpublished : t.session.journal.published = s.session.journal.published := by
    rw [hsession]
    rfl
  have htakers : ∀ w takers, s.bus.takers = .worker w :: takers →
      s.pool.workers.get? w = some .waiting := by
    intro w takers htakers
    exact (Pool.takers_of_first hpaired.keys hpaired.takers htakers .idle rfl).1
  obtain ⟨hclean, hoffers, hnotices⟩ := h.clean.step hfresh hpaired.keys htakers hstep
  constructor
  · exact hclean
  · rw [hpublished, hoffers]
    exact h.flow.trans (hnotices.symm.append_left _)

theorem starts (h : s.Delivers) :
  { s with pool := s.pool.start }.Delivers
  where
    clean := {
      handler := h.clean.handler
      seen := h.clean.seen
      called := h.clean.called
      log := h.clean.log
      calm w phase hw := by
        rcases Option.or_eq_some_iff.1 ((List.lookup_append).symm.trans hw) with hw | ⟨-, hw⟩
        · exact h.clean.calm w phase hw
        · obtain ⟨_, -, heq⟩ := List.mem_map.1 (Keyed.mem_of_get? hw)
          cases heq
          trivial }
    flow := by
      have hheld : Pool.held s.pool.start = s.pool.held := by
        simp [Pool.held, Pool.start, Keyed.gather, List.flatMap_map, WorkerPhase.held?]
      have hnotices : Pool.notices s.pool.start = s.pool.notices := by
        rw [Pool.notices, Pool.notices, hheld]
        rfl
      rw [hnotices]
      exact h.flow

theorem isLike (h : s.Delivers) {pool : Pool} (hpool : s.pool.IsLike pool) :
  { s with pool }.Delivers
  := by
  obtain ⟨stops, handles, now, rfl⟩ := hpool
  exact ⟨⟨h.clean.handler, h.clean.seen, h.clean.calm, h.clean.called, h.clean.log⟩, h.flow⟩

/-- Every move keeps the notices on their way. -/
theorem leads (h : s.Delivers) (hs : s.session.Sound) (hpaired : s.Paired)
    (hfresh : s.pool.IsFresh) (hleads : s.Leads t) :
  t.Delivers
  := by
  obtain ⟨m, hm⟩ := hleads
  cases change_of_move hs hm with
  | uploads _ hbus hpool hpublished _ =>
    constructor
    · rw [hpool]
      exact h.clean
    · rw [hpublished, hbus, hpool]
      exact h.flow
  | deals hdeals hpool _ => exact h.deals hpaired hdeals hpool
  | works hstep hsession => exact h.works hpaired hfresh hstep hsession
  | starts ht =>
    rw [ht]
    exact h.starts
  | closes _ ht hpool =>
    have hclosed : (s.withBus s.bus.close).Delivers := ⟨h.clean, h.flow⟩
    rw [ht]
    exact hclosed.isLike hpool
  | passes ht hpool =>
    rw [ht]
    exact h.isLike hpool

end Delivers

theorem Runs.delivers (h : start.Runs s) (hnew : start.IsNew)
    (hdistinct : s.session.IsDistinct) :
  s.Delivers
  := by
  induction h with
  | refl => exact hnew.delivers
  | @tail s t hruns hleads ih =>
    have hs := Runs.sound hruns hnew
    have hdistinct := hleads.session.isDistinct hs hdistinct
    have hdelivers := ih hdistinct
    have hbalanced := (Runs.session hruns).balanced hnew.session
    exact hdelivers.leads hs (Runs.paired hruns hnew)
      (hdelivers.isFresh hbalanced hdistinct) hleads

/-! ### Exactly once -/

/-- Once all workers have ended, all jobs have, and no notice is on its way any more. -/
theorem Delivers.published_perm (h : s.Delivers) (hs : s.session.Sound) (hpaired : s.Paired)
    (hstarted : s.pool.workers ≠ [])
    (hover : ∀ entry ∈ s.pool.workers, entry.2.isOver) :
  s.bus.isOpen = false ∧
    (s.session.journal.published.map Prod.snd).Perm (s.pool.calls.map Call.notice)
  := by
  have hended : ∀ entry ∈ s.pool.workers, entry.2 = .ended := by
    intro ⟨w, phase⟩ hmem
    have hcalm := h.clean.calm w phase (Keyed.get?_of_mem hpaired.keys hmem)
    have hisOver := hover _ hmem
    cases phase with
    | ended => rfl
    | crashed => cases hcalm
    | idle | waiting | holding | calling | asleep => cases hisOver
  obtain ⟨⟨w, phase⟩, hw⟩ := List.exists_mem_of_ne_nil _ hstarted
  obtain rfl : phase = .ended := hended _ hw
  obtain ⟨hclosed, hqueue⟩ := hpaired.ended w (Keyed.get?_of_mem hpaired.keys hw)
  have hheld : s.pool.held = [] := by
    apply List.flatMap_eq_nil_iff.2
    intro entry hentry
    rw [hended entry hentry]
    rfl
  have hflow := h.flow
  rw [hpaired.offers_of_closed hs hclosed, hqueue, Pool.notices, hheld] at hflow
  exact ⟨hclosed, hflow⟩

/-- The failed transactions of the statements that were accepted, each with the upload that it
belongs to. -/
def failures (s : Service) : List (String × Transaction) :=
  s.session.journal.accepted.flatMap fun (id, statement) =>
    statement.failures.map fun x => (id, x)

/-- What a task whose job has ended called the publisher for. -/
theorem Runs.publishedBy_eq (h : start.Runs s) (hnew : start.IsNew)
    (hevents : .events ∉ start.session.processor.missing) {task : Nat} {id : String}
    {statement : Statement}
    (haccepted : s.session.journal.accepted[task]? = some (id, statement))
    (hended : ∀ k job, s.session.processor.jobs.get? k = some job → job.stage = .ended) :
  (s.session.journal.publishedBy task).map (fun n => (n.upload, n.transaction))
    = statement.failures.map (fun x => (id, x))
  := by
  obtain ⟨c, hc, hagrees⟩ := h.session.agrees hnew.session haccepted
  have hstage : c.stage = .ended := hended task _ hc.job
  rw [Course.Agrees, hstage] at hagrees
  obtain ⟨htell, -⟩ := hagrees
  rw [hc.published, htell.map_eq, announced_outcomes, if_neg hevents]

/-- Once all workers have exited, the handler has been called exactly once for each failed
transaction of each statement that was uploaded, and for nothing else; every call was the only
one for its event, and was successful; and no notice was taken for a duplicate. -/
theorem Runs.exactly_once (hnew : start.IsNew)
    (hevents : .events ∉ start.session.processor.missing) (h : start.Runs s)
    (hids : (∃ label, start.session.processor.ids = .labelled label ∧
        s.session.journal.drawn.length ≤ 2 ^ 64) ∨ s.session.IsDistinct)
    (hstarted : s.pool.workers ≠ [])
    (hover : ∀ entry ∈ s.pool.workers, entry.2.isOver) :
  (s.pool.calls.map (fun c => (c.notice.upload, c.notice.transaction))).Perm s.failures ∧
  (∀ c ∈ s.pool.calls, c.nth = 1 ∧ s.pool.handler.verdict c.notice c.nth = .reconciled) ∧
  s.pool.events.Nodup ∧
  ∀ n, .duplicateSkipped n ∉ s.pool.log
  := by
  have hdistinct : s.session.IsDistinct := by
    rcases hids with ⟨label, hids, hlength⟩ | hdistinct
    · have hdrawn := h.session.drawn_eq hnew.session
      rw [hids] at hdrawn
      constructor
      · rw [hdrawn]
        exact IdSource.nodup_labelled label hlength
      · rw [hdrawn]
        exact IdSource.notMem_labelled label _
    · exact hdistinct
  have hs := h.sound hnew
  have hpaired := h.paired hnew
  have hdelivers := h.delivers hnew hdistinct
  obtain ⟨hclosed, hcalls⟩ := hdelivers.published_perm hs hpaired hstarted hover
  refine ⟨?_, ?_, ?_, hdelivers.clean.log⟩
  · have hperm := hcalls.symm.map (fun n => (n.upload, n.transaction))
    rw [List.map_map] at hperm
    refine hperm.trans ?_
    refine ((s.session.journal.published_perm hs.called).map _).trans (.of_eq ?_)
    rw [List.map_flatMap, failures]
    exact flatMap_finRange _ _ fun task =>
      h.publishedBy_eq hnew hevents (List.getElem?_eq_getElem task.2) (hpaired.closed hclosed)
  · intro c hc
    obtain ⟨hnth, hevent⟩ := hdelivers.clean.called c hc
    exact ⟨hnth, hdelivers.clean.verdict hevent c.nth⟩
  · have hbalanced := h.session.balanced hnew.session
    have hnodup := hbalanced.nodup_events hdistinct.nodup
    have hmap := hcalls.map Notice.event
    rw [List.map_map, List.map_map] at hmap
    exact hmap.nodup_iff.1 hnodup

theorem exactly_once_small :
  (smallEnd.pool.calls.map (fun c => (c.notice.upload, c.notice.transaction))).Perm
    smallEnd.failures ∧
  smallEnd.pool.calls.length = 1
  := by
  have hlength : smallEnd.pool.calls.length = 1 := by decide +kernel
  refine ⟨(Runs.exactly_once isNew_smallStart ?_ runs_small ?_ ?_ ?_).1, hlength⟩
  · exact List.not_mem_nil
  · exact .inl ⟨"n", rfl, by decide +kernel⟩
  · decide +kernel
  · decide +kernel

end Service

end Reconciliation
