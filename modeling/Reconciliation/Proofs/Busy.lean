import Reconciliation.Proofs.Serial

/-!
# Busy workers

A notice is in process while its worker is in a call for it or sleeps before the next one
(`Case.isInProcess`).  There is at most one such notice for each worker, and when nobody can go on
at once a notice stays in the queue only if there is one for every worker
(`Workshop.pool_discipline`).
-/

namespace Reconciliation

/-- The worker is in a call, or asleep before the next one. -/
def WorkerPhase.isBusy : WorkerPhase → Bool
  | .calling _ _ _ _ => true
  | .asleep _ _ _ => true
  | .idle => false
  | .waiting => false
  | .holding _ => false
  | .ended => false
  | .crashed => false

/-- The workers that are in a call, or asleep before the next one. -/
def Pool.busy (p : Pool) : List Nat :=
  (p.workers.filter (fun entry => entry.2.isBusy)).map Prod.fst

/-- The handler was called for the notice, and the worker is not done with it. -/
def Case.isInProcess (c : Case) : Bool :=
  decide (0 < c.calls) && c.fate.isNone

namespace Desk

variable {retries w : Nat} {o : Option WorkerPhase} {phase : WorkerPhase} {l : List Case}

theorem exists_busy (h : Desk retries w o l) {c : Case} (hc : c ∈ l) (hprocess : c.isInProcess) :
  ∃ phase, o = some phase ∧ phase.isBusy
  := by
  cases h with
  | absent | free => cases hc
  | holding =>
    rw [List.mem_singleton.1 hc] at hprocess
    cases hprocess
  | calling | asleep => exact ⟨_, rfl, rfl⟩

theorem exists_inProcess (h : Desk retries w (some phase) l) (hbusy : phase.isBusy) :
  ∃ c ∈ l, c.isInProcess
  := by
  cases h with
  | free hfree =>
    cases phase with
    | idle | waiting | holding | ended | crashed => cases hbusy
    | calling | asleep => cases hfree
  | holding => cases hbusy
  | calling | asleep => exact ⟨_, List.mem_singleton_self _, by simp [Case.isInProcess]⟩

end Desk

namespace Pool

variable {p p' : Pool} {b b' : Bus} {w : Nat}

theorem nodup_busy (hkeys : (p.workers.map Prod.fst).Nodup) :
  p.busy.Nodup
  := hkeys.sublist (List.filter_sublist.map Prod.fst)

theorem mem_busy_iff (hkeys : (p.workers.map Prod.fst).Nodup) :
  w ∈ p.busy ↔ ∃ phase, p.workers.get? w = some phase ∧ phase.isBusy
  := by
  rw [busy, List.mem_map]
  constructor
  · rintro ⟨⟨k, phase⟩, hentry, rfl⟩
    obtain ⟨hentry, hbusy⟩ := List.mem_filter.1 hentry
    exact ⟨phase, Keyed.get?_of_mem hkeys hentry, hbusy⟩
  · rintro ⟨phase, hw, hbusy⟩
    exact ⟨(w, phase), List.mem_filter.2 ⟨Keyed.mem_of_get? hw, hbusy⟩, rfl⟩

theorem length_busy_le :
  p.busy.length ≤ p.workers.length
  := by
  rw [busy, List.length_map]
  exact List.length_filter_le _ _

theorem length_busy (hkeys : (p.workers.map Prod.fst).Nodup)
    (hbusy : ∀ w phase, p.workers.get? w = some phase → phase.isBusy) :
  p.busy.length = p.workers.length
  := by
  rw [busy, List.length_map, List.filter_eq_self.2]
  intro entry hentry
  exact hbusy entry.1 entry.2 (Keyed.get?_of_mem hkeys hentry)

/-- No worker or caller adds a worker. -/
theorem Step.length_workers (h : Step b p b' p') :
  p'.workers.length = p.workers.length
  := by
  have hphase : ∀ w new, (p.setPhase w new).workers.length = p.workers.length := by
    intro w new
    exact Keyed.length_modify p.workers w (fun _ => new)
  cases h.effect with
  | comes _ _ hworkers | takes _ _ _ hworkers | leaves _ _ _ hworkers =>
    rw [hworkers, hphase]
  | turns h =>
    obtain ⟨w, _, new, -, -, -, hworkers⟩ := h
    rw [hworkers, hphase]
  | rests hworkers => rw [hworkers]

end Pool

namespace Workshop

variable {s t : Workshop} {capacity : Nat} {plan : DeliveryPlan} {handler : Handler}

/-! ### How many workers there are -/

theorem length_of_move {m : Move} (h : s.move m = some t) :
  t.pool.workers.length
    = s.pool.workers.length + if m = .start then s.pool.plan.workers else 0
  := by
  have hmanages := manages_of_move h
  generalize t.pool = pool at hmanages
  cases hmanages with
  | start => simp [Pool.start]
  | work hstep => exact hstep.length_workers
  | bus | shutDown | stop | pass => rfl

/-- Each start adds as many workers as the plan lays down. -/
theorem length_workers {ms : List Move} (h : ms.foldlM move s = some t) :
  t.pool.plan = s.pool.plan ∧
    t.pool.workers.length = s.pool.workers.length + ms.count .start * s.pool.plan.workers
  := by
  induction ms generalizing s with
  | nil =>
    cases h
    simp
  | cons m ms ih =>
    obtain ⟨u, hu, h⟩ := Option.bind_eq_some_iff.1 h
    obtain ⟨hplan, hlength⟩ := ih h
    rw [(step_of_move hu).settings.1] at hplan hlength
    refine ⟨hplan, ?_⟩
    rw [hlength, length_of_move hu, List.count_cons, Nat.add_mul]
    by_cases hm : m = .start
    · simp [hm]
      omega
    · simp [hm]

/-! ### What is in process -/

/-- A worker is busy if a notice on its desk is in process. -/
theorem exists_inProcess_iff (h : s.Filed) {w : Nat} :
  (∃ c ∈ s.cases, c.isInProcess ∧ c.worker = w) ↔
    ∃ phase, s.pool.workers.get? w = some phase ∧ phase.isBusy
  := by
  constructor
  · rintro ⟨c, hc, hprocess, rfl⟩
    have hopen := hprocess
    rw [Case.isInProcess, Bool.and_eq_true, Option.isNone_iff_eq_none] at hopen
    exact (h.desks c.worker).exists_busy (Filed.mem_desk hc hopen.2) hprocess
  · rintro ⟨phase, hw, hbusy⟩
    have hdesk := h.desks w
    rw [hw] at hdesk
    obtain ⟨c, hmem, hprocess⟩ := hdesk.exists_inProcess hbusy
    obtain ⟨hc, hwith⟩ := List.mem_filter.1 hmem
    rw [Case.isWith, Bool.and_eq_true] at hwith
    exact ⟨c, hc, hprocess, eq_of_beq hwith.1⟩

/-- The notices in process are those of the busy workers, one for each. -/
theorem inProcess_perm (h : s.Filed) (hs : s.Staffed) :
  ((s.cases.filter Case.isInProcess).map Case.worker).Perm s.pool.busy
  := by
  refine (List.perm_ext_iff_of_nodup ?_ (Pool.nodup_busy hs.keys)).2 fun w => ?_
  · rw [List.nodup_iff_count_le_one]
    intro w
    have hle : ((s.cases.filter Case.isInProcess).map Case.worker).count w ≤ (s.desk w).length := by
      rw [List.count, List.countP_map, List.countP_filter, desk, ← List.countP_eq_length_filter]
      apply List.countP_mono_left
      intro c _ hc
      rw [Function.comp_apply, Case.isInProcess, Bool.and_eq_true, Bool.and_eq_true] at hc
      rw [Case.isWith, hc.1, hc.2.2]
      rfl
    exact hle.trans (h.desks w).length_le
  · rw [Pool.mem_busy_iff hs.keys, ← exists_inProcess_iff h, List.mem_map]
    simp only [List.mem_filter, and_assoc]

/-- When nobody can go on at once and a notice is queued, every worker is busy. -/
theorem IsStill.isBusy (h : s.IsStill) (hs : s.Staffed) (hqueue : s.bus.queue ≠ []) {w : Nat}
    {phase : WorkerPhase} (hw : s.pool.workers.get? w = some phase) (hphase : phase ≠ .crashed) :
  phase.isBusy
  := by
  cases phase with
  | calling | asleep => rfl
  | idle =>
    have hnone := h.apply_eq_none hs (.ask w)
    simp [Pool.apply, hw] at hnone
  | waiting => exact absurd (h.queue_of_waiting hs hw) hqueue
  | holding n =>
    have hnone := h.apply_eq_none hs (.begin w)
    simp [Pool.apply, hw] at hnone
  | ended => exact absurd (Bus.hasEnded_iff.1 (hs.ended w hw)).2.2 hqueue
  | crashed => exact absurd rfl hphase

/-- When all notices have met a fate, every worker is free. -/
theorem Filed.isFree_of_fates (h : s.Filed) (hfates : ∀ c ∈ s.cases, c.fate ≠ none) {w : Nat}
    {phase : WorkerPhase} (hw : s.pool.workers.get? w = some phase) :
  phase.isFree
  := by
  have hdesk := h.desks w
  rw [hw] at hdesk
  exact hdesk.isFree_of_fates fun c hc => hfates c (List.mem_filter.1 hc).1

theorem GoesOn.runs (h : Relation.ReflTransGen GoesOn s t) :
  s.Runs t ∧ t.pool.workers.length = s.pool.workers.length
  := by
  induction h with
  | refl => exact ⟨.refl, rfl⟩
  | tail _ hgoes ih =>
    obtain ⟨m, hown, hm⟩ := hgoes
    refine ⟨ih.1.tail ⟨m, hm⟩, ?_⟩
    rw [length_of_move hm, if_neg, ih.2, Nat.add_zero]
    rintro rfl
    cases hown

/-- When nobody can go on at once and a notice is queued, every worker has one in process. -/
theorem IsStill.length_inProcess (h : s.IsStill) (hs : s.IsOrderly) (hqueue : s.bus.queue ≠ [])
    (hcalm : ∀ w, s.pool.workers.get? w ≠ some .crashed) :
  (s.cases.filter Case.isInProcess).length = s.pool.workers.length
  := by
  rw [← List.length_map Case.worker, (inProcess_perm hs.2 hs.1).length_eq]
  apply Pool.length_busy hs.1.keys
  intro w phase hw
  apply h.isBusy hs.1 hqueue hw
  rintro rfl
  exact hcalm w hw

/-- A single worker makes the calls of handling the notices one after the other, as far as it has
come. -/
theorem Runs.calls_of_single (h : (opened capacity plan handler).Runs s)
    (hsingle : s.pool.workers.length = 1) (hup : s.pool.isShutDown = false) :
  s.pool.calls.map Call.notice
    <+: handler.serveAll (min plan.retries 64) (s.exchange.accepted.map Publication.notice) ∧
  ((∀ w phase, s.pool.workers.get? w = some phase → phase.isFree) →
    s.pool.calls.map Call.notice
      = handler.serveAll (min plan.retries 64) (s.cases.map Case.notice))
  := by
  have hserves := h.serves (Nat.le_of_eq hsingle) hup
  rw [h.settings.2, h.settings.1] at hserves
  constructor
  · rw [← h.isOrderly.flow]
    exact hserves.isPrefix.trans (Handler.serveAll_prefix (List.prefix_append _ _))
  · intro hfree
    exact hserves.eq_serveAll fun phase hw => hfree 0 phase hw

/-- The workers of a pool that was started once take the notices in the order in which the bus
accepted them.  At most one notice for each worker is in process, that is, in a call or asleep
before the next one, and a notice in process occupies no other worker.  When all who can go on have
done so, a notice is still queued only if every worker has one in process.  A single worker makes
the calls of handling the accepted notices one after the other, each to its end, as long as the pool
is not shut down. -/
theorem pool_discipline {ms : List Move}
    (hruns : ms.foldlM move (opened capacity plan handler) = some s)
    (hone : ms.count .start = 1) (hcalm : ∀ n nth, handler.verdict n nth ≠ .panicked) :
  s.cases.map Case.notice ++ s.bus.queue = s.exchange.accepted.map Publication.notice ∧
  (((s.cases.filter Case.isInProcess).map Case.worker).Perm s.pool.busy ∧
    (s.cases.filter Case.isInProcess).length ≤ plan.normalized.workers) ∧
  ((∃ t, Relation.ReflTransGen GoesOn s t ∧ t.IsStill) ∧
    ∀ t, Relation.ReflTransGen GoesOn s t → t.IsStill → t.bus.queue ≠ [] →
      (t.cases.filter Case.isInProcess).length = plan.normalized.workers) ∧
  (plan.normalized.workers = 1 → s.pool.isShutDown = false →
    s.pool.calls.map Call.notice
      <+: handler.serveAll (min plan.retries 64) (s.exchange.accepted.map Publication.notice) ∧
    ((∀ c ∈ s.cases, c.fate ≠ none) → s.pool.calls.map Call.notice
      = handler.serveAll (min plan.retries 64) (s.cases.map Case.notice)) ∧
    (s.IsQuiet → s.pool.calls.map Call.notice
      = handler.serveAll (min plan.retries 64) (s.exchange.accepted.map Publication.notice)))
  := by
  have h : (opened capacity plan handler).Runs s := reflTransGen_of_foldlM hruns
  have hs := h.isOrderly
  have hlength : s.pool.workers.length = plan.normalized.workers := by
    have hlength := (length_workers hruns).2
    rw [hone, Nat.one_mul] at hlength
    exact hlength.trans (Nat.zero_add _)
  have hprocess := inProcess_perm hs.2 hs.1
  refine ⟨hs.flow, ⟨hprocess, ?_⟩, ⟨hs.exists_still, ?_⟩, ?_⟩
  · rw [← hlength, ← List.length_map Case.worker, hprocess.length_eq]
    exact Pool.length_busy_le
  · intro t hgoes hstill hqueue
    obtain ⟨hruns', hlength'⟩ := GoesOn.runs hgoes
    have ht : (opened capacity plan handler).Runs t := h.trans hruns'
    rw [← hlength, ← hlength']
    exact hstill.length_inProcess ht.isOrderly hqueue (ht.notCrashed hcalm)
  · intro hsingle hup
    obtain ⟨hbegins, hserved⟩ := h.calls_of_single (hlength.trans hsingle) hup
    refine ⟨hbegins, fun hfates => hserved fun w phase => hs.2.isFree_of_fates hfates,
      fun hquiet => ?_⟩
    have hstarted : s.pool.workers ≠ [] := by
      rw [← List.length_pos_iff, hlength, hsingle]
      exact Nat.one_pos
    rw [hserved (hquiet.isFree hs), hs.accepted_of_drained (h.drained hcalm hstarted hquiet).1]

/-! ### A workshop with a sleeping worker -/

/-- There is one worker, and calls are repeated once. -/
def drowsyStart : Workshop :=
  opened 1 { workers := 1, retries := 1, delay := .ofMillis 100 } flaky

/-- The only worker sleeps after a failed call, and another notice is queued. -/
def drowsyMoves : List Move :=
  [.start] ++ publishing "a" ++ taking 0 ++ publishing "b" ++ [.work (.conclude 0)]

/-- The workshop while the worker sleeps. -/
def drowsyEnd : Workshop :=
  (drowsyMoves.foldlM move drowsyStart).getD drowsyStart

theorem foldlM_drowsy :
  drowsyMoves.foldlM move drowsyStart = some drowsyEnd
  := by
  have hsome : (drowsyMoves.foldlM move drowsyStart).isSome := by decide +kernel
  obtain ⟨s, hs⟩ := Option.isSome_iff_exists.1 hsome
  rw [drowsyEnd, hs]
  rfl

theorem pool_discipline_drowsy :
  drowsyEnd.bus.queue = [Exchange.noticeOf "b"] ∧
  (drowsyEnd.cases.filter Case.isInProcess).length = 1 ∧
  [Exchange.noticeOf "a"] <+: flaky.serveAll 1 (["a", "b"].map Exchange.noticeOf) ∧
  flaky.serveAll 1 (["a", "b"].map Exchange.noticeOf)
    = ["a", "a", "b", "b"].map Exchange.noticeOf ∧
  ∃ t, Relation.ReflTransGen GoesOn drowsyEnd t ∧ t.IsStill ∧
    (t.bus.queue ≠ [] → (t.cases.filter Case.isInProcess).length = 1)
  := by
  have hcalls : drowsyEnd.pool.calls.map Call.notice = [Exchange.noticeOf "a"] := by decide +kernel
  have haccepted : drowsyEnd.exchange.accepted.map Publication.notice
      = ["a", "b"].map Exchange.noticeOf := by
    decide +kernel
  obtain ⟨-, -, ⟨⟨t, hgoes, hstill⟩, hbusy⟩, hserial⟩ :=
    pool_discipline foldlM_drowsy (by decide +kernel) flaky_calm
  obtain ⟨hbegins, -, -⟩ := hserial (by decide) (by decide +kernel)
  rw [hcalls, haccepted] at hbegins
  exact ⟨by decide +kernel, by decide +kernel, hbegins, by decide +kernel, t, hgoes, hstill,
    hbusy t hgoes hstill⟩

end Workshop

end Reconciliation
