import Reconciliation.Proofs.Retries

/-!
# Nothing falls between the workers and the end of the bus

A worker ends by itself only when the bus has ended, and then the bus accepts no notice any more, so
that whatever was accepted has been taken.  Once all workers have ended, each notice that was taken
has met one fate.
-/

namespace Reconciliation.Workshop

variable {s t : Workshop} {capacity : Nat} {plan : DeliveryPlan} {handler : Handler}

/-- A duplicate is about an event that the handler was called for on another occasion. -/
theorem Known.exists_original (h : s.Known) {c : Case} (hc : c ∈ s.cases)
    (hfate : c.fate = some .duplicate) :
  c.notice.event ≠ "" ∧ ∃ d ∈ s.cases, d.notice.event = c.notice.event ∧ 0 < d.calls
  := by
  obtain ⟨hevent, hseen⟩ := h.duplicates c hc hfate
  obtain ⟨before, d, after, hcases, hsame, hcalls⟩ := h.exists_case hseen
  refine ⟨hevent, d, ?_, hsame, Nat.pos_of_ne_zero hcalls⟩
  rw [hcases]
  exact List.mem_append_right _ List.mem_cons_self

/-- Once one worker has ended by itself, nothing is queued, nobody waits to publish, and nothing
will be accepted any more.  Once all workers have ended, and one of them by itself, each notice
that was accepted was taken by one worker and has met one fate: the verdicts on the calls for it
explain it, a duplicate is about an event that was handled on another occasion, a notice was
abandoned only after a shutdown, and a panic has ended no other worker than the one that had the
notice. -/
theorem Runs.accounts_for_all (h : (Workshop.opened capacity plan handler).Runs s) :
  (∀ w, s.pool.workers.get? w = some .ended →
    s.bus.queue = [] ∧ s.exchange.waiting = [] ∧ s.exchange.isClosed = true ∧
    ∀ t, s.Runs t → t.exchange.accepted = s.exchange.accepted) ∧
  ((∃ w, s.pool.workers.get? w = some .ended) →
    (∀ w phase, s.pool.workers.get? w = some phase → phase.isOver) →
    s.exchange.told.filterMap (fun t => t.2.map fun n => (t.1, n))
      = s.cases.map (fun c => (.worker c.worker, c.notice)) ∧
    s.cases.map Case.notice = s.exchange.accepted.map Publication.notice ∧
    (s.pool.calls.map Call.notice).Perm
      (s.cases.flatMap fun c => List.replicate c.calls c.notice) ∧
    (∀ c ∈ s.cases, ∃ fate, c.fate = some fate ∧
      fate.Explains (min plan.retries 64) c.verdicts ∧ c.calls = c.verdicts.length ∧
      (fate = .duplicate → c.notice.event ≠ "" ∧
        ∃ d ∈ s.cases, d.notice.event = c.notice.event ∧ 0 < d.calls) ∧
      (fate = .abandoned → s.pool.isShutDown)) ∧
    (∀ w, s.pool.workers.get? w = some .crashed ↔
      ∃ c ∈ s.cases, c.worker = w ∧ c.fate = some .panicked) ∧
    ((s.cases.filter (fun c => decide (c.fate = some .panicked))).map Case.worker).Nodup)
  := by
  have hs : s.IsOrderly := ⟨h.staffed, h.filed⟩
  have hretries : s.pool.plan.retries = min plan.retries 64 := by
    rw [h.settings.1]
    rfl
  constructor
  · intro w hw
    obtain ⟨hqueue, hwaiting, hclosed⟩ := hs.1.nothing_left hw
    exact ⟨hqueue, hwaiting, hclosed, fun t ht =>
      (hs.1.exchange.ended_runs (hs.1.ended w hw) ht.exchange).2⟩
  · rintro ⟨w, hw⟩ hover
    obtain ⟨hqueue, -, -⟩ := hs.1.nothing_left hw
    have hfree : ∀ w phase, s.pool.workers.get? w = some phase → phase.isFree := by
      intro w phase hw
      have hover := hover w phase hw
      cases phase with
      | ended | crashed => rfl
      | idle | waiting | holding | calling | asleep => cases hover
    refine ⟨hs.2.taken, hs.accepted_of_drained hqueue, h.known.calls, fun c hc => ?_,
      fun w => hs.2.crashed_iff hs.1, ?_⟩
    · obtain ⟨fate, hfate⟩ := hs.2.exists_fate hfree hc
      obtain ⟨hexplains, hcalls⟩ := hs.2.closed c hc fate hfate
      rw [hretries] at hexplains
      refine ⟨fate, hfate, hexplains, hcalls, ?_, ?_⟩
      · rintro rfl
        exact h.known.exists_original hc hfate
      · rintro rfl
        exact hs.2.abandoned c hc hfate
    · exact hs.2.victims_perm.nodup_iff.1 (Pool.nodup_victims hs.1.keys)

/-! ### A workshop that comes to its end -/

/-- A handler that reconciles one event, panics at another, and fails for all others. -/
def moody : Handler where
  verdict n _ :=
    if n.event = "a" then .reconciled
    else if n.event = "p" then .panicked
    else .failed (.unreconciled n.event "down")

/-- There are two workers, and calls are repeated once. -/
def closingStart : Workshop :=
  opened 1 { workers := 2, retries := 1, delay := .ofMillis 100 } moody

/-- One notice is reconciled, one skipped, one given up and one abandoned; the next ends a
worker, and the other worker ends with the bus. -/
def closingMoves : List Move :=
  [.start] ++ publishing "a" ++ taking 0 ++ [.work (.conclude 0)] ++ publishing "a" ++ taking 0 ++
    publishing "x" ++ taking 0 ++ [.work (.conclude 0), .pass 100, .work (.retry 0),
      .work (.conclude 0)] ++
    publishing "y" ++ taking 0 ++ [.work (.conclude 0), .shutDown, .work (.abandon 0)] ++
    publishing "p" ++ taking 1 ++ [.work (.conclude 1), .bus .close, .work (.ask 0),
      .work (.dismiss 0)]

/-- The workshop in the end. -/
def closingEnd : Workshop :=
  (closingMoves.foldlM move closingStart).getD closingStart

theorem runs_closing :
  closingStart.Runs closingEnd
  := by
  apply reflTransGen_of_isSome
  decide +kernel

theorem accounts_for_all_closing :
  closingEnd.pool.workers = [(0, .ended), (1, .crashed)] ∧
  closingEnd.cases.map Case.fate
    = [some .reconciled, some .duplicate, some .exhausted, some .abandoned, some .panicked] ∧
  closingEnd.exchange.accepted.map Publication.notice
    = ["a", "a", "x", "y", "p"].map Exchange.noticeOf ∧
  closingEnd.cases.map Case.notice = ["a", "a", "x", "y", "p"].map Exchange.noticeOf ∧
  ∀ t, closingEnd.Runs t → t.exchange.accepted = closingEnd.exchange.accepted
  := by
  have hworkers : closingEnd.pool.workers = [(0, .ended), (1, .crashed)] := by decide +kernel
  have haccepted : closingEnd.exchange.accepted.map Publication.notice
      = ["a", "a", "x", "y", "p"].map Exchange.noticeOf := by
    decide +kernel
  have hended : closingEnd.pool.workers.get? 0 = some .ended := by
    rw [hworkers]
    rfl
  have hover : ∀ w phase, closingEnd.pool.workers.get? w = some phase → phase.isOver := by
    intro w phase hw
    have hmem := Keyed.mem_of_get? hw
    rw [hworkers] at hmem
    rcases List.mem_cons.1 hmem with heq | hmem
    · cases heq
      rfl
    · cases List.mem_singleton.1 hmem
      rfl
  obtain ⟨hclosed, hall⟩ := Runs.accounts_for_all runs_closing
  obtain ⟨-, hnotices, -⟩ := hall ⟨0, hended⟩ hover
  exact ⟨hworkers, by decide +kernel, haccepted, hnotices.trans haccepted,
    (hclosed 0 hended).2.2.2⟩

end Reconciliation.Workshop
