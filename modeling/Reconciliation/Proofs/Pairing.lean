import Mathlib.Data.List.Range
import Reconciliation.Proofs.Service

/-!
# The two sides of the bus

`Service.Paired` connects the bus of a service with those who use it: the offers that wait there
are those of the jobs that wait for an answer, and the takers are the workers that wait for a
notice.  Once the bus is closed, all jobs have ended, and a worker has ended only where no
notice is left.  Every move keeps it so (`Service.Runs.paired`).
-/

namespace Reconciliation

/-! ### Workers that wait -/

namespace WorkerPhase

/-- The place in which a worker waits for a notice. -/
def taker? (worker : Nat) : WorkerPhase → Option Party
  | .waiting => some (.worker worker)
  | .idle => none
  | .holding _ => none
  | .calling _ _ _ _ => none
  | .asleep _ _ _ => none
  | .ended => none
  | .crashed => none

/-- The worker neither waits for a notice, nor has it ended with the bus. -/
def isUp : WorkerPhase → Bool
  | .waiting => false
  | .ended => false
  | .idle => true
  | .holding _ => true
  | .calling _ _ _ _ => true
  | .asleep _ _ _ => true
  | .crashed => true

theorem taker?_of_isUp {phase : WorkerPhase} (h : phase.isUp) (worker : Nat) :
  phase.taker? worker = none
  := by
  cases phase with
  | waiting | ended => cases h
  | idle | holding | calling | asleep | crashed => rfl

end WorkerPhase

namespace Pool

variable {b b' : Bus} {p p' : Pool} {w : Nat} {old : WorkerPhase}

/-- The workers that wait for a notice. -/
def waiting (p : Pool) : List Party :=
  p.workers.gather (fun w phase => (phase.taker? w).toList)

theorem waiting_setPhase (hkeys : (p.workers.map Prod.fst).Nodup)
    (hw : p.workers.get? w = some old) (new : WorkerPhase) :
  ((p.setPhase w new).waiting ++ (old.taker? w).toList).Perm
    (p.waiting ++ (new.taker? w).toList)
  := Keyed.gather_modify (fun w phase => (phase.taker? w).toList) hkeys hw (fun _ => new)

theorem get?_of_mem_waiting (hkeys : (p.workers.map Prod.fst).Nodup)
    (h : .worker w ∈ p.waiting) :
  p.workers.get? w = some .waiting
  := by
  obtain ⟨⟨k, phase⟩, hmem, htaker⟩ := List.mem_flatMap.1 h
  have htaker := Option.mem_toList.1 htaker
  cases phase with
  | waiting =>
    cases htaker
    exact Keyed.get?_of_mem hkeys hmem
  | idle | holding | calling | asleep | ended | crashed => cases htaker

/-- If those who wait at a bus are the workers that wait, then so is the first of them; when it does
so no more, the others are those who still wait. -/
theorem takers_of_first (hkeys : (p.workers.map Prod.fst).Nodup)
    (hwaiting : b.takers.Perm p.waiting) {takers : List Party}
    (htakers : b.takers = .worker w :: takers) (new : WorkerPhase) (hnew : new.taker? w = none) :
  p.workers.get? w = some .waiting ∧ takers.Perm (p.setPhase w new).waiting
  := by
  have hmem : .worker w ∈ p.waiting := by
    rw [← hwaiting.mem_iff, htakers]
    exact List.mem_cons_self
  have hw := get?_of_mem_waiting hkeys hmem
  have hperm := waiting_setPhase hkeys hw new
  rw [hnew, Option.toList_none, List.append_nil] at hperm
  refine ⟨hw, ?_⟩
  apply List.Perm.cons_inv (a := .worker w)
  rw [← htakers]
  exact hwaiting.trans (((List.perm_append_singleton _ _).symm.trans hperm).symm)

/-- A worker that comes to wait is one more of those who do. -/
theorem takers_next (hkeys : (p.workers.map Prod.fst).Nodup)
    (hwaiting : b.takers.Perm p.waiting) (hw : p.workers.get? w = some .idle) :
  (b.next (.worker w)).takers.Perm (p.setPhase w .waiting).waiting
  := by
  have hperm := waiting_setPhase hkeys hw .waiting
  rw [show WorkerPhase.taker? w .idle = none from rfl, Option.toList_none,
    List.append_nil] at hperm
  exact (hwaiting.append_right _).trans hperm.symm

/-- Workers that are started do not wait yet. -/
theorem waiting_start (p : Pool) :
  p.start.waiting = p.waiting
  := by
  simp [waiting, start, Keyed.gather, List.flatMap_map, WorkerPhase.taker?]

/-- Workers are numbered in the order in which they are started. -/
theorem numbers_start (h : p.workers.map Prod.fst = List.range p.workers.length) :
  p.start.workers.map Prod.fst = List.range p.start.workers.length
  := by
  rw [start, List.map_append, h, List.length_append, List.range_add]
  simp [List.map_map, Function.comp_def, Nat.add_comm]

/-- A worker of a pool with further workers is what it was before, or a new one that is idle and
that no stop has taken over. -/
theorem get?_start (p : Pool) (w : Nat) :
  p.start.workers.get? w = p.workers.get? w ∨
    p.workers.get? w = none ∧ p.start.workers.get? w = some .idle ∧ w ∈ p.start.handles
  := by
  have happend : p.start.workers.get? w
      = (p.workers.get? w).or (Keyed.get? (((List.range p.plan.workers).map
          (· + p.workers.length)).map (fun w => (w, .idle))) w) := List.lookup_append
  cases hw : p.workers.get? w with
  | some phase =>
    rw [happend, hw]
    exact .inl rfl
  | none =>
    rw [happend, hw, Option.none_or]
    cases hnew : Keyed.get? _ w with
    | none => exact .inl rfl
    | some phase =>
      obtain ⟨k, hk, heq⟩ := List.mem_map.1 (Keyed.mem_of_get? hnew)
      cases heq
      exact .inr ⟨rfl, rfl, List.mem_append_right _ hk⟩

/-- A worker sets about another thing, and the others do not notice. -/
def Turns (p p' : Pool) : Prop :=
  ∃ w old new, p.workers.get? w = some old ∧ old.isUp ∧ new.isUp ∧
    p'.workers = (p.setPhase w new).workers

theorem turns_process {n : Notice} (hw : p.workers.get? w = some (.holding n)) :
  p.Turns (p.process w n)
  := by
  rw [process]
  split
  · exact ⟨w, _, .calling .., hw, rfl, rfl, rfl⟩
  · split
    · exact ⟨w, _, .idle, hw, rfl, rfl, rfl⟩
    · exact ⟨w, _, .calling .., hw, rfl, rfl, rfl⟩

theorem turns_settleCall {n : Notice} {attempt nth finish : Nat}
    (hw : p.workers.get? w = some (.calling n attempt nth finish)) (verdict : Verdict) :
  p.Turns (p.settleCall w n attempt verdict)
  := by
  cases verdict with
  | reconciled =>
    rw [settleCall]
    split
    · exact ⟨w, _, .idle, hw, rfl, rfl, rfl⟩
    · exact ⟨w, _, .idle, hw, rfl, rfl, rfl⟩
  | failed fault =>
    rw [settleCall, fail]
    split
    · exact ⟨w, _, .asleep .., hw, rfl, rfl, rfl⟩
    · exact ⟨w, _, .idle, hw, rfl, rfl, rfl⟩
  | panicked => exact ⟨w, _, .crashed, hw, rfl, rfl, rfl⟩

namespace Turns

theorem keys (h : p.Turns p') :
  p'.workers.map Prod.fst = p.workers.map Prod.fst
  := by
  obtain ⟨w, _, new, -, -, -, hworkers⟩ := h
  rw [hworkers]
  exact Keyed.keys_modify p.workers w (fun _ => new)

theorem waiting (h : p.Turns p') (hkeys : (p.workers.map Prod.fst).Nodup) :
  p'.waiting.Perm p.waiting
  := by
  obtain ⟨w, old, new, hw, hold, hnew, hworkers⟩ := h
  have hperm := waiting_setPhase hkeys hw new
  rw [WorkerPhase.taker?_of_isUp hold, WorkerPhase.taker?_of_isUp hnew, Option.toList_none,
    List.append_nil, List.append_nil] at hperm
  rw [Pool.waiting, hworkers]
  exact hperm

theorem ended (h : p.Turns p') {k : Nat} (hk : p'.workers.get? k = some .ended) :
  p.workers.get? k = some .ended
  := by
  obtain ⟨w, old, new, hw, -, hnew, hworkers⟩ := h
  rw [hworkers, setPhase, Keyed.get?_modify hw] at hk
  split at hk
  · cases hk
    cases hnew
  · exact hk

end Turns

/-- What a step does to those who wait at the bus: a worker begins to wait, one ceases to wait
with a notice or at the end, or everything goes on as it was. -/
inductive Effect (b : Bus) (p : Pool) (b' : Bus) (p' : Pool) : Prop where
  | comes {w : Nat} (hw : p.workers.get? w = some .idle) (hbus : b' = b.next (.worker w))
      (hworkers : p'.workers = (p.setPhase w .waiting).workers)
  | takes {w : Nat} {takers : List Party} {n : Notice} {queue : List Notice}
      (htakers : b.takers = .worker w :: takers) (hqueue : b.queue = n :: queue)
      (hbus : b' = { b with takers, queue })
      (hworkers : p'.workers = (p.setPhase w (.holding n)).workers)
  | leaves {w : Nat} {takers : List Party} (htakers : b.takers = .worker w :: takers)
      (hended : b.hasEnded) (hbus : b' = { b with takers })
      (hworkers : p'.workers = (p.setPhase w .ended).workers)
  | turns (h : p.Turns p') (hbus : b' = b)
  | rests (hworkers : p'.workers = p.workers) (hbus : b' = b)

theorem Step.effect (h : Step b p b' p') :
  Effect b p b' p'
  := by
  cases h with
  | ask hw => exact .comes hw rfl rfl
  | receive htakers hqueue => exact .takes htakers hqueue rfl rfl
  | dismiss htakers hended => exact .leaves htakers hended rfl rfl
  | begin hw => exact .turns (turns_process hw) rfl
  | conclude hw _ => exact .turns (turns_settleCall hw _) rfl
  | retry hw _ => exact .turns ⟨_, _, .calling .., hw, rfl, rfl, rfl⟩ rfl
  | abandon hw _ => exact .turns ⟨_, _, .idle, hw, rfl, rfl, rfl⟩ rfl
  | confirm | expire => exact .rests rfl rfl

end Pool

/-! ### Jobs that wait -/

namespace Processor

variable {p : Processor} {o : Offer}

theorem exists_of_mem_waiting (hkeys : (p.jobs.map Prod.fst).Nodup) (h : o ∈ p.waiting) :
  ∃ task id r tally n, o = offerBy task n ∧
    p.jobs.get? task = some { upload := id, stage := .publishing r tally n }
  := by
  obtain ⟨⟨task, id, stage⟩, hmem, hoffer⟩ := List.mem_flatMap.1 h
  have hoffer := Option.mem_toList.1 hoffer
  cases stage with
  | publishing r tally n =>
    cases hoffer
    exact ⟨task, id, r, tally, n, rfl, Keyed.get?_of_mem hkeys hmem⟩
  | fresh | reading | announcing | offering | saving | closing | ended => cases hoffer

/-- No task waits with two offers. -/
theorem eq_of_mem_waiting (hkeys : (p.jobs.map Prod.fst).Nodup) {o' : Offer}
    (h : o ∈ p.waiting) (h' : o' ∈ p.waiting) (hsame : o.publisher = o'.publisher) :
  o = o'
  := by
  obtain ⟨task, id, r, tally, n, rfl, hjob⟩ := exists_of_mem_waiting hkeys h
  obtain ⟨task', id', r', tally', n', rfl, hjob'⟩ := exists_of_mem_waiting hkeys h'
  cases hsame
  cases hjob.symm.trans hjob'
  rfl

end Processor

/-! ### Pairing -/

namespace Service

/-- The two sides of the bus fit together. -/
structure Paired (s : Service) : Prop where
  offers : s.bus.offers.Perm s.session.processor.waiting
  takers : s.bus.takers.Perm s.pool.waiting
  fired : s.bus.fired = []
  room : 0 < s.bus.capacity
  numbers : s.pool.workers.map Prod.fst = List.range s.pool.workers.length
  closed : s.bus.isOpen = false →
    ∀ k job, s.session.processor.jobs.get? k = some job → job.stage = .ended
  ended : ∀ w, s.pool.workers.get? w = some .ended → s.bus.isOpen = false ∧ s.bus.queue = []

namespace Paired

variable {s t : Service}

theorem keys (h : s.Paired) :
  (s.pool.workers.map Prod.fst).Nodup
  := by
  rw [h.numbers]
  exact List.nodup_range

/-- Nobody waits with an offer at a closed bus. -/
theorem offers_of_closed (h : s.Paired) (hs : s.session.Sound)
    (hclosed : s.bus.isOpen = false) :
  s.bus.offers = []
  := by
  apply List.eq_nil_iff_forall_not_mem.2
  intro o ho
  rw [h.offers.mem_iff] at ho
  obtain ⟨task, id, r, tally, n, -, hjob⟩ := Processor.exists_of_mem_waiting hs.keys ho
  cases h.closed hclosed task _ hjob

theorem isNew (h : s.IsNew) :
  s.Paired
  := by
  obtain ⟨n, hbus⟩ := h.bus
  obtain ⟨plan, millis, hpool⟩ := h.pool
  constructor
  · rw [hbus, Processor.waiting, h.session.processor.jobs]
    exact .refl _
  · rw [hbus, hpool]
    exact .refl _
  · rw [hbus]
    rfl
  · rw [hbus]
    exact Nat.le_max_right n 1
  · rw [hpool]
    rfl
  · intro hclosed
    rw [hbus] at hclosed
    cases hclosed
  · intro w hw
    rw [hpool] at hw
    cases hw

/-- Once all jobs have ended, they stay so, unless there are new uploads. -/
theorem closed_of_runs (hs : s.session.Sound) (hruns : s.session.Runs t.session)
    (haccepted : t.session.journal.accepted = s.session.journal.accepted)
    (h : ∀ k job, s.session.processor.jobs.get? k = some job → job.stage = .ended) :
  ∀ k job, t.session.processor.jobs.get? k = some job → job.stage = .ended
  := by
  intro k job hjob
  obtain ⟨c', hc', hstage⟩ := (hruns.sound hs).exists_shows_of_job hjob
  have hlt := (hruns.sound hs).lt_of_shows hc'
  rw [haccepted] at hlt
  obtain ⟨c, hc⟩ := hs.exists_shows hlt
  obtain ⟨c₁, hc₁, hcourse⟩ := hruns.shows hs hc
  obtain ⟨-, rfl⟩ := hc'.unique hc₁
  rw [← hstage]
  exact Course.Runs.stage_of_ended hcourse (h k _ hc.job)

/-! ### Moves -/

/-- Tasks change the offers and the queue, and leave the workers alone. -/
theorem of_tasks (h : s.Paired) {offers : List Offer} {queue : List Notice}
    (hpool : t.pool = s.pool) (hbus : t.bus = { s.bus with offers, queue })
    (hoffers : offers.Perm t.session.processor.waiting)
    (hclosed : s.bus.isOpen = false →
      ∀ k job, t.session.processor.jobs.get? k = some job → job.stage = .ended)
    (hended : s.bus.isOpen = false → s.bus.queue = [] → queue = []) :
  t.Paired
  := by
  constructor
  · rw [hbus]
    exact hoffers
  · rw [hbus, hpool]
    exact h.takers
  · rw [hbus]
    exact h.fired
  · rw [hbus]
    exact h.room
  · rw [hpool]
    exact h.numbers
  · rw [hbus]
    exact hclosed
  · intro w hw
    rw [hpool] at hw
    obtain ⟨hnotOpen, hqueue⟩ := h.ended w hw
    rw [hbus]
    exact ⟨hnotOpen, hended hnotOpen hqueue⟩

/-- Workers change the takers and the queue, and leave the tasks alone. -/
theorem of_workers (h : s.Paired) {takers : List Party} {queue : List Notice}
    (hjobs : t.session.processor.jobs = s.session.processor.jobs)
    (hbus : t.bus = { s.bus with takers, queue }) (htakers : takers.Perm t.pool.waiting)
    (hkeys : t.pool.workers.map Prod.fst = s.pool.workers.map Prod.fst)
    (hended : ∀ w, t.pool.workers.get? w = some .ended → s.bus.isOpen = false ∧ queue = []) :
  t.Paired
  := by
  constructor
  · rw [hbus, Processor.waiting, hjobs]
    exact h.offers
  · rw [hbus]
    exact htakers
  · rw [hbus]
    exact h.fired
  · rw [hbus]
    exact h.room
  · have hlength := congrArg List.length hkeys
    rw [List.length_map, List.length_map] at hlength
    rw [hkeys, hlength]
    exact h.numbers
  · rw [hbus, hjobs]
    exact h.closed
  · rw [hbus]
    exact hended

theorem deals (h : s.Paired) (hs : s.session.Sound) (hruns : s.session.Runs t.session)
    (hdeals : s.session.Deals t.session) (hpool : t.pool = s.pool)
    (haccepted : t.session.journal.accepted = s.session.journal.accepted) :
  t.Paired
  := by
  cases hdeals with
  | still hbus _ hwaiting =>
    apply h.of_tasks hpool hbus (h.offers.trans hwaiting.symm)
    · intro hclosed
      exact closed_of_runs hs hruns haccepted (h.closed hclosed)
    · exact fun _ hqueue => hqueue
  | @offer task n hopen hbus _ hwaiting =>
    have hopen : s.bus.isOpen = true := hopen
    apply h.of_tasks hpool hbus ((h.offers.append_right _).trans hwaiting.symm)
    · intro hclosed
      cases hopen.symm.trans hclosed
    · exact fun _ hqueue => hqueue
  | refusal hclosed hjob => cases h.closed hclosed _ _ hjob
  | @acceptance task o offers n hoffers htask hbus _ hwaiting =>
    have hoffers : s.bus.offers = o :: offers := hoffers
    have hbus : t.bus = { s.bus with offers, queue := s.bus.queue ++ [o.notice] } := hbus
    have hmem : o ∈ s.session.processor.waiting := by
      rw [← h.offers.mem_iff, hoffers]
      exact List.mem_cons_self
    have hmem' : Processor.offerBy task n ∈ s.session.processor.waiting := by
      rw [← hwaiting.mem_iff]
      simp
    obtain rfl := Processor.eq_of_mem_waiting hs.keys hmem hmem' htask
    have hopen : s.bus.isOpen ≠ false := by
      intro hclosed
      rw [h.offers_of_closed hs hclosed] at hoffers
      cases hoffers
    apply h.of_tasks hpool hbus
    · apply List.Perm.cons_inv (a := Processor.offerBy task n)
      have hperm := h.offers.trans hwaiting.symm
      rw [hoffers] at hperm
      exact hperm.trans (List.perm_append_singleton _ _)
    · exact fun hclosed => absurd hclosed hopen
    · exact fun hclosed => absurd hclosed hopen
  | withdrawal ho hfired =>
    have hfired' : s.session.processor.bus.fired = [] := h.fired
    rw [hfired'] at hfired
    cases hfired

/-- What is dealt at the bus does not close it. -/
theorem isOpen_deals (h : s.Paired) (hdeals : s.session.Deals t.session) :
  t.bus.isOpen = s.bus.isOpen
  := by
  cases hdeals with
  | still hbus => exact congrArg Bus.isOpen hbus
  | offer _ hbus | acceptance _ _ hbus =>
    have hopen := congrArg Bus.isOpen hbus
    exact hopen
  | refusal hclosed hjob => cases h.closed hclosed _ _ hjob
  | withdrawal ho hfired =>
    have hfired' : s.session.processor.bus.fired = [] := h.fired
    rw [hfired'] at hfired
    cases hfired

theorem works (h : s.Paired) (heffect : Pool.Effect s.bus s.pool t.bus t.pool)
    (hsession : t = { s.withBus t.bus with pool := t.pool }) :
  t.Paired
  := by
  have hjobs : t.session.processor.jobs = s.session.processor.jobs := by
    rw [hsession]
    rfl
  cases heffect with
  | comes hw hbus hworkers =>
    apply h.of_workers hjobs hbus
    · rw [Pool.waiting, hworkers]
      exact Pool.takers_next h.keys h.takers hw
    · rw [hworkers, Pool.setPhase, Keyed.keys_modify]
    · intro k hk
      rw [hworkers, Pool.setPhase, Keyed.get?_modify hw] at hk
      split at hk
      · cases hk
      · exact h.ended k hk
  | @takes w takers n queue htakers hqueue hbus hworkers =>
    obtain ⟨hw, hperm⟩ := Pool.takers_of_first h.keys h.takers htakers (.holding n) rfl
    apply h.of_workers hjobs hbus
    · rw [Pool.waiting, hworkers]
      exact hperm
    · rw [hworkers, Pool.setPhase, Keyed.keys_modify]
    · intro k hk
      rw [hworkers, Pool.setPhase, Keyed.get?_modify hw] at hk
      split at hk
      · cases hk
      · have hnil := (h.ended k hk).2
        rw [hqueue] at hnil
        cases hnil
  | @leaves w takers htakers hended hbus hworkers =>
    obtain ⟨hw, hperm⟩ := Pool.takers_of_first h.keys h.takers htakers .ended rfl
    apply h.of_workers hjobs hbus
    · rw [Pool.waiting, hworkers]
      exact hperm
    · rw [hworkers, Pool.setPhase, Keyed.keys_modify]
    · intro k hk
      rw [hworkers, Pool.setPhase, Keyed.get?_modify hw] at hk
      split at hk
      · obtain ⟨hclosed, -, hqueue⟩ := Bus.hasEnded_iff.1 hended
        exact ⟨hclosed, hqueue⟩
      · exact h.ended k hk
  | turns hturns hbus =>
    exact h.of_workers hjobs hbus (h.takers.trans (hturns.waiting h.keys).symm) hturns.keys
      fun k hk => h.ended k (hturns.ended hk)
  | rests hworkers hbus =>
    apply h.of_workers hjobs hbus
    · rw [Pool.waiting, hworkers]
      exact h.takers
    · rw [hworkers]
    · rw [hworkers]
      exact h.ended

theorem uploads (h : s.Paired) (hopen : s.bus.isOpen) (hbus : t.bus = s.bus)
    (hpool : t.pool = s.pool)
    (hwaiting : t.session.processor.waiting = s.session.processor.waiting) :
  t.Paired
  := by
  apply h.of_tasks hpool hbus
  · rw [hwaiting]
    exact h.offers
  · intro hclosed
    cases hopen.symm.trans hclosed
  · exact fun _ hqueue => hqueue

theorem starts (h : s.Paired) :
  { s with pool := s.pool.start }.Paired
  := by
  constructor
  · exact h.offers
  · exact h.takers.trans (by rw [Pool.waiting_start])
  · exact h.fired
  · exact h.room
  · exact Pool.numbers_start h.numbers
  · exact h.closed
  · intro w hw
    rcases s.pool.get?_start w with heq | ⟨-, hidle, -⟩
    · exact h.ended w (heq.symm.trans hw)
    · cases hidle.symm.trans hw

/-- A bus may be closed once all jobs have ended. -/
theorem closes (h : s.Paired) (hdone : s.isDone) :
  (s.withBus s.bus.close).Paired
  := by
  have hended : ∀ k job, s.session.processor.jobs.get? k = some job → job.stage = .ended := by
    intro k job hjob
    have hall := List.all_eq_true.1 hdone (k, job) (Keyed.mem_of_get? hjob)
    simpa using hall
  constructor
  · exact h.offers
  · exact h.takers
  · exact h.fired
  · exact h.room
  · exact h.numbers
  · exact fun _ => hended
  · intro w hw
    exact ⟨rfl, (h.ended w hw).2⟩

/-- The callers who wait for the workers make no difference. -/
theorem isLike (h : s.Paired) {pool : Pool} (hpool : s.pool.IsLike pool) :
  { s with pool }.Paired
  := by
  obtain ⟨stops, handles, now, rfl⟩ := hpool
  constructor
  · exact h.offers
  · exact h.takers
  · exact h.fired
  · exact h.room
  · exact h.numbers
  · exact h.closed
  · exact h.ended

/-- Every move keeps the two sides of the bus together. -/
theorem leads (h : s.Paired) (hs : s.session.Sound) (hleads : s.Leads t) :
  t.Paired
  := by
  have hruns := hleads.session
  obtain ⟨m, hm⟩ := hleads
  cases change_of_move hs hm with
  | uploads hopen hbus hpool _ hwaiting => exact h.uploads hopen hbus hpool hwaiting
  | deals hdeals hpool haccepted => exact h.deals hs hruns hdeals hpool haccepted
  | works hstep hsession => exact h.works hstep.effect hsession
  | starts ht =>
    rw [ht]
    exact h.starts
  | closes hdone ht hpool =>
    rw [ht]
    exact (h.closes hdone).isLike hpool
  | passes ht hpool =>
    rw [ht]
    exact h.isLike hpool

end Paired

theorem Runs.sound {start s : Service} (h : start.Runs s) (hnew : start.IsNew) :
  s.session.Sound
  := h.session.sound hnew.session.sound

theorem Runs.paired {start s : Service} (h : start.Runs s) (hnew : start.IsNew) :
  s.Paired
  := by
  induction h with
  | refl => exact .isNew hnew
  | tail hruns hleads ih => exact ih.leads (Runs.sound hruns hnew) hleads

end Service

end Reconciliation
