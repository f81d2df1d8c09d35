import Reconciliation.Proofs.Drain

/-!
# What callers who stop the pool learn

A call to stop the pool takes over the workers that no earlier call has taken over, and waits for
these only.  Every worker that has not ended is one that was started since the last call, or one for
which a call waits, or one for which a call has waited in vain (`Workshop.Watched`).  So a call that
comes after one that has timed out may be answered while workers are busy.
-/

namespace Reconciliation

namespace Workshop

variable {s t : Workshop} {capacity : Nat} {plan : DeliveryPlan} {handler : Handler} {stop : Stop}

/-- Every worker has ended, or is left to a later call to stop the pool, or was taken over by one
that waits or has timed out. -/
structure Watched (s : Workshop) : Prop where
  callers : (s.pool.stops.map Stop.caller).Nodup
  workers : ∀ w phase, s.pool.workers.get? w = some phase →
    phase.isOver = true ∨ w ∈ s.pool.handles ∨
      ∃ stop ∈ s.pool.stops ++ s.late, w ∈ stop.workers

namespace Watched

theorem opened :
  (opened capacity plan handler).Watched
  := ⟨List.nodup_nil, nofun⟩

/-- A caller has made one call. -/
theorem stop?_eq (h : s.Watched) (hstop : stop ∈ s.pool.stops) :
  s.pool.stop? stop.caller = some stop
  := by
  cases hfind : s.pool.stop? stop.caller with
  | none => exact absurd (List.find?_eq_none.1 hfind stop hstop) (by simp)
  | some other =>
    rw [List.inj_on_of_nodup_map h.callers (List.mem_of_find?_eq_some hfind) hstop
      (Pool.caller_of_stop? hfind)]

/-- A worker that has not ended goes on. -/
theorem goes (h : s.Watched) {w : Nat} {old new : WorkerPhase}
    (hw : s.pool.workers.get? w = some old) (hold : old.isOver = false) {exchange : Exchange}
    {pool : Pool} {cases : List Case} (hworkers : pool.workers = (s.pool.setPhase w new).workers)
    (hstops : pool.stops = s.pool.stops) (hhandles : pool.handles = s.pool.handles) :
  Watched { s with exchange, pool, cases }
  where
    callers := by
      rw [hstops]
      exact h.callers
    workers k phase hk := by
      rw [hworkers, Pool.setPhase, Keyed.get?_modify hw] at hk
      rw [hhandles, hstops]
      split at hk
      · next hkw =>
        rw [hkw]
        exact .inr ((h.workers w old hw).resolve_left (by simp [hold]))
      · exact h.workers k phase hk

/-- Where neither the workers change, nor those who wait for them. -/
theorem of_pool (h : s.Watched) (hworkers : t.pool.workers = s.pool.workers)
    (hstops : t.pool.stops = s.pool.stops) (hhandles : t.pool.handles = s.pool.handles)
    (hlate : t.late = s.late) :
  t.Watched
  := by
  constructor
  · rw [hstops]
    exact h.callers
  · rw [hworkers, hstops, hhandles, hlate]
    exact h.workers

/-- A call that waits is the one that is answered, or it waits on. -/
theorem eq_or_mem_forget (h : s.Watched) (hstop : s.pool.stop? stop.caller = some stop)
    {other : Stop} (hother : other ∈ s.pool.stops) :
  other = stop ∨ other ∈ (s.pool.forget stop.caller).stops
  := by
  by_cases hcaller : other.caller = stop.caller
  · exact .inl (List.inj_on_of_nodup_map h.callers hother (List.mem_of_find?_eq_some hstop)
      hcaller)
  · exact .inr ((List.mem_eraseP_of_neg (by simpa using hcaller)).2 hother)

theorem confirm (h : s.Watched) (hstop : s.pool.stop? stop.caller = some stop)
    (hover : stop.workers.all s.pool.isOver) (log : List LogEntry) :
  Watched { s with pool := { s.pool.forget stop.caller with log } }
  where
    callers := h.callers.sublist (List.eraseP_sublist.map _)
    workers w phase hw := by
      rcases h.workers w phase hw with hphase | hhandle | ⟨other, hother, hmem⟩
      · exact .inl hphase
      · exact .inr (.inl hhandle)
      · rcases List.mem_append.1 hother with hother | hother
        · rcases h.eq_or_mem_forget hstop hother with rfl | hother
          · have hw' : s.pool.workers.get? w = some phase := hw
            have hphase := List.all_eq_true.1 hover w hmem
            rw [Pool.isOver, hw'] at hphase
            exact .inl hphase
          · exact .inr (.inr ⟨other, List.mem_append_left _ hother, hmem⟩)
        · exact .inr (.inr ⟨other, List.mem_append_right _ hother, hmem⟩)

theorem expire (h : s.Watched) (hstop : s.pool.stop? stop.caller = some stop) :
  Watched { s with pool := s.pool.forget stop.caller, late := s.late ++ [stop] }
  where
    callers := h.callers.sublist (List.eraseP_sublist.map _)
    workers w phase hw := by
      rcases h.workers w phase hw with hphase | hhandle | ⟨other, hother, hmem⟩
      · exact .inl hphase
      · exact .inr (.inl hhandle)
      · refine .inr (.inr ⟨other, ?_, hmem⟩)
        rcases List.mem_append.1 hother with hother | hother
        · rcases h.eq_or_mem_forget hstop hother with rfl | hother
          · exact List.mem_append_right _ (List.mem_append_right _ (List.mem_singleton_self _))
          · exact List.mem_append_left _ hother
        · exact List.mem_append_right _ (List.mem_append_left _ hother)

theorem start (h : s.Watched) :
  Watched { s with pool := s.pool.start }
  where
    callers := h.callers
    workers w phase hw := by
      rcases s.pool.get?_start w with heq | ⟨-, -, hhandle⟩
      · rcases h.workers w phase (heq.symm.trans hw) with hphase | hhandle | hother
        · exact .inl hphase
        · exact .inr (.inl (List.mem_append_left _ hhandle))
        · exact .inr (.inr hother)
      · exact .inr (.inl hhandle)

theorem halt {caller : Party} {timeout : Nat} (h : s.Watched)
    (hidle : caller ∉ s.pool.stops.map Stop.caller) {exchange : Exchange} :
  Watched { s with exchange, pool := s.pool.stop caller timeout }
  where
    callers := by
      show ((s.pool.stops ++ [_]).map Stop.caller).Nodup
      rw [List.map_append]
      exact (List.perm_append_singleton caller _).nodup_iff.2
        (List.nodup_cons.2 ⟨hidle, h.callers⟩)
    workers w phase hw := by
      rcases h.workers w phase hw with hphase | hhandle | ⟨other, hother, hmem⟩
      · exact .inl hphase
      · refine .inr (.inr ⟨⟨caller, s.pool.handles, timeout, s.pool.now + timeout⟩, ?_, hhandle⟩)
        exact List.mem_append_left _ (List.mem_append_right _ (List.mem_singleton_self _))
      · refine .inr (.inr ⟨other, ?_, hmem⟩)
        rcases List.mem_append.1 hother with hother | hother
        · exact List.mem_append_left _ (List.mem_append_left _ hother)
        · exact List.mem_append_right _ hother

theorem step (h : s.Watched) (hs : s.Staffed) (hstep : s.Step t) :
  t.Watched
  := by
  cases hstep with
  | ask hw => exact h.goes hw rfl rfl rfl rfl
  | take htakers => exact h.goes (hs.get?_of_takers htakers) rfl rfl rfl rfl
  | leave htakers => exact h.goes (hs.get?_of_takers htakers) rfl rfl rfl rfl
  | @treat w n old new change seen calls pool hw htreats hpool =>
    have hold : old.isOver = false := by
      cases htreats with
      | _ => rfl
    exact h.goes hw hold hpool.workers hpool.stops hpool.handles
  | confirm hstop hover log => exact h.confirm hstop hover log
  | expire hstop => exact h.expire hstop
  | start => exact h.start
  | stop hidle => exact h.halt hidle
  | outside | shutDown | pass => exact h.of_pool rfl rfl rfl rfl

end Watched

theorem Runs.watched (h : (Workshop.opened capacity plan handler).Runs s) :
  s.Watched
  := by
  induction h with
  | refl => exact .opened
  | tail hruns hleads ih =>
    obtain ⟨m, hm⟩ := hleads
    exact ih.step (Runs.staffed hruns) (step_of_move hm)

/-! ### Answers -/

/-- A caller may learn that the workers taken over have ended, once they have, and that they
have not ended in time, once the time is over. -/
theorem Watched.answers_iff (h : s.Watched) (hstop : stop ∈ s.pool.stops)
    (result : Except Fault Unit) :
  s.Answers stop.caller result ↔
    result = .ok () ∧ stop.workers.all s.pool.isOver = true ∨
    result = .error (.timeout Pool.draining (stop.timeout % 2 ^ 64)) ∧
      stop.deadline ≤ s.pool.now
  := by
  have hfind := h.stop?_eq hstop
  constructor
  · rintro ⟨a, bus, pool, hcaller, happly⟩
    cases a with
    | ask | receive | dismiss | begin | conclude | retry | abandon => cases hcaller
    | confirm caller =>
      cases hcaller
      obtain ⟨other, hother, -, hover, -, -, hresult⟩ := Pool.apply_confirm_eq_some happly
      cases hfind.symm.trans hother
      exact .inl ⟨Option.some.inj hresult, hover⟩
    | expire caller =>
      cases hcaller
      obtain ⟨other, hother, -, hdeadline, -, -, hresult⟩ := Pool.apply_expire_eq_some happly
      cases hfind.symm.trans hother
      exact .inr ⟨Option.some.inj hresult, hdeadline⟩
  · rintro (⟨rfl, hover⟩ | ⟨rfl, hdeadline⟩)
    · refine ⟨.confirm stop.caller, s.bus, { s.pool.forget stop.caller with
        log := s.pool.log ++ s.pool.crashes stop.workers }, rfl, ?_⟩
      rw [Pool.apply, hfind, Option.bind_some, if_pos hover]
      rfl
    · refine ⟨.expire stop.caller, s.bus, s.pool.forget stop.caller, rfl, ?_⟩
      rw [Pool.apply, hfind, Option.bind_some, if_pos hdeadline]
      rfl

/-- Where the workers that a call waits for have ended, any other that has not is left to a later
call, or another one waits for it or has waited in vain. -/
theorem Watched.isOver_or (h : s.Watched) (hover : stop.workers.all s.pool.isOver = true) {w : Nat}
    {phase : WorkerPhase} (hw : s.pool.workers.get? w = some phase) :
  phase.isOver = true ∨ w ∈ s.pool.handles ∨
    ∃ other ∈ s.pool.stops ++ s.late, other ≠ stop ∧ w ∈ other.workers
  := by
  rcases h.workers w phase hw with hphase | hhandle | ⟨other, hother, hmem⟩
  · exact .inl hphase
  · exact .inr (.inl hhandle)
  · by_cases heq : other = stop
    · have hphase := List.all_eq_true.1 hover w (heq ▸ hmem)
      rw [Pool.isOver, hw] at hphase
      exact .inl hphase
    · exact .inr (.inr ⟨other, hother, heq, hmem⟩)

/-- The only call that waits, where none has timed out and no worker was started since, waits
for all workers that have not ended. -/
theorem Watched.isOver_of_only (h : s.Watched) (hlate : s.late = [])
    (honly : ∀ other ∈ s.pool.stops, other = stop) (hhandles : s.pool.handles = [])
    (hover : stop.workers.all s.pool.isOver = true) {w : Nat} {phase : WorkerPhase}
    (hw : s.pool.workers.get? w = some phase) :
  phase.isOver = true
  := by
  rcases h.isOver_or hover hw with hphase | hhandle | ⟨other, hother, hne, -⟩
  · exact hphase
  · rw [hhandles] at hhandle
    cases hhandle
  · rw [hlate, List.append_nil] at hother
    exact absurd (honly other hother) hne

/-- A first call to stop the pool waits for all workers that have not ended. -/
theorem Watched.first (h : s.Watched) (hlate : s.late = []) (hstops : s.pool.stops = [])
    {caller : Party} {timeout : Nat} (hmove : s.move (.stop caller timeout) = some t) :
  ∃ stop : Stop, t.pool.stops = [stop] ∧ stop.caller = caller ∧ stop.timeout = timeout ∧
    stop.deadline = s.pool.now + timeout ∧ t.exchange.isClosed = true ∧ t.pool.handles = [] ∧
    ∀ w phase, t.pool.workers.get? w = some phase → phase.isOver = false → w ∈ stop.workers
  := by
  simp only [move] at hmove
  split at hmove
  case isTrue => cases hmove
  case isFalse =>
  cases hmove
  refine ⟨⟨caller, s.pool.handles, timeout, s.pool.now + timeout⟩, ?_, rfl, rfl, rfl, rfl, rfl,
    fun w phase hw hphase => ?_⟩
  · show s.pool.stops ++ [_] = [_]
    rw [hstops]
    rfl
  · rcases h.workers w phase hw with hover | hhandle | ⟨other, hother, -⟩
    · cases hphase.symm.trans hover
    · exact hhandle
    · rw [hstops, hlate] at hother
      cases hother

/-- A call to stop the pool learns that the workers it has taken over have ended, once they
have, and that they have not ended in time, once the time is over.  The first call has taken
over all of them.  Once a call may learn that its workers have ended, any worker that has not is
left to a later call, or another call waits for it or has timed out; if there is none of these,
all workers have ended, and nothing is queued if one of them has ended by itself.  As long as
one has not ended, such a call learns of nothing but the end of its time. -/
theorem Runs.stop_tells (h : (Workshop.opened capacity plan handler).Runs s) :
  (∀ caller timeout t, s.late = [] → s.pool.stops = [] →
    s.move (.stop caller timeout) = some t →
    ∃ stop : Stop, t.pool.stops = [stop] ∧ stop.caller = caller ∧ stop.timeout = timeout ∧
      stop.deadline = s.pool.now + timeout ∧ t.exchange.isClosed = true ∧ t.pool.handles = [] ∧
      ∀ w phase, t.pool.workers.get? w = some phase → phase.isOver = false → w ∈ stop.workers) ∧
  ∀ stop ∈ s.pool.stops,
    (∀ result, s.Answers stop.caller result ↔
      result = .ok () ∧ stop.workers.all s.pool.isOver = true ∨
      result = .error (.timeout Pool.draining (stop.timeout % 2 ^ 64)) ∧
        stop.deadline ≤ s.pool.now) ∧
    (s.Answers stop.caller (.ok ()) → ∀ w phase, s.pool.workers.get? w = some phase →
      phase.isOver = true ∨ w ∈ s.pool.handles ∨
        ∃ other ∈ s.pool.stops ++ s.late, other ≠ stop ∧ w ∈ other.workers) ∧
    (s.late = [] → (∀ other ∈ s.pool.stops, other = stop) → s.pool.handles = [] →
      (s.Answers stop.caller (.ok ()) →
        (∀ w phase, s.pool.workers.get? w = some phase → phase.isOver = true) ∧
        ((∃ w, s.pool.workers.get? w = some .ended) →
          s.bus.queue = [] ∧ s.exchange.waiting = [])) ∧
      ((∃ w phase, s.pool.workers.get? w = some phase ∧ phase.isOver = false) →
        ∀ result, s.Answers stop.caller result ↔
          result = .error (.timeout Pool.draining (stop.timeout % 2 ^ 64)) ∧
            stop.deadline ≤ s.pool.now))
  := by
  have hwatched := h.watched
  refine ⟨fun caller timeout t hlate hstops hmove => hwatched.first hlate hstops hmove,
    fun stop hstop => ?_⟩
  have hanswers := hwatched.answers_iff hstop
  have hok : s.Answers stop.caller (.ok ()) → stop.workers.all s.pool.isOver = true := by
    intro hanswer
    rcases (hanswers _).1 hanswer with ⟨-, hover⟩ | ⟨hresult, -⟩
    · exact hover
    · cases hresult
  refine ⟨hanswers, fun hanswer w phase hw => hwatched.isOver_or (hok hanswer) hw, ?_⟩
  intro hlate honly hhandles
  constructor
  · intro hanswer
    refine ⟨fun w phase hw => hwatched.isOver_of_only hlate honly hhandles (hok hanswer) hw, ?_⟩
    rintro ⟨w, hw⟩
    obtain ⟨hqueue, hwaiting, -⟩ := h.staffed.nothing_left hw
    exact ⟨hqueue, hwaiting⟩
  · rintro ⟨w, phase, hw, hphase⟩ result
    rw [hanswers, or_iff_right]
    rintro ⟨-, hover⟩
    cases hphase.symm.trans (hwatched.isOver_of_only hlate honly hhandles hover hw)

/-! ### Calls in time and calls in vain -/

/-- There is one worker, and a call is repeated after a long time only. -/
def busyStart : Workshop :=
  opened 2 { workers := 1, retries := 5, delay := .ofMillis 10000 } moody

/-- The call for a notice has failed and will be repeated, when the pool is stopped for a short
time. -/
def busyMoves : List Move :=
  [.start] ++ publishing "x" ++ taking 0 ++
    [.work (.conclude 0), .stop (.caller 9) 50, .pass 50]

/-- The workshop once the time is over. -/
def busyEnd : Workshop :=
  (busyMoves.foldlM move busyStart).getD busyStart

theorem runs_busy :
  busyStart.Runs busyEnd
  := by
  apply reflTransGen_of_isSome
  decide +kernel

theorem stop_tells_busy :
  busyEnd.pool.workers.get? 0 = some (.asleep (Exchange.noticeOf "x") 0 10000) ∧
  ∀ result, busyEnd.Answers (.caller 9) result ↔
    result = .error (.timeout Pool.draining 50) ∧ 50 ≤ busyEnd.pool.now
  := by
  have hworker : busyEnd.pool.workers.get? 0
      = some (.asleep (Exchange.noticeOf "x") 0 10000) := by
    decide +kernel
  have hstops : busyEnd.pool.stops
      = [{ caller := .caller 9, workers := [0], timeout := 50, deadline := 50 }] := by
    decide +kernel
  obtain ⟨-, htells⟩ := Runs.stop_tells runs_busy
  obtain ⟨-, -, honly⟩ := htells _ (hstops ▸ List.mem_singleton_self _)
  obtain ⟨-, htimeout⟩ := honly (by decide +kernel)
    (fun other hother => List.mem_singleton.1 (hstops ▸ hother)) (by decide +kernel)
  exact ⟨hworker, htimeout ⟨0, _, hworker, rfl⟩⟩

/-- The pool is stopped once more, while its worker still waits to repeat the call. -/
def againMoves : List Move :=
  busyMoves ++ [.work (.expire (.caller 9)), .stop (.caller 9) 50]

def againEnd : Workshop :=
  (againMoves.foldlM move busyStart).getD busyStart

/-- The only worker panics at a notice, and leaves another one in the queue. -/
def strandedMoves : List Move :=
  [.start] ++ publishing "p" ++ publishing "a" ++ taking 0 ++
    [.work (.conclude 0), .stop (.caller 9) 50]

def strandedEnd : Workshop :=
  (strandedMoves.foldlM move busyStart).getD busyStart

/-- A call that comes after one that has timed out may learn that the workers have ended while
one of them has a notice in hand, and a call may learn it where a notice is left in the queue of
which no worker is left to take it. -/
theorem answers_while_busy :
  ¬ (∀ s, busyStart.Runs s → ∀ caller, s.Answers caller (.ok ()) →
      ∀ w phase, s.pool.workers.get? w = some phase → phase.isFree) ∧
  ¬ (∀ s, busyStart.Runs s → ∀ caller, s.Answers caller (.ok ()) → s.bus.queue = [])
  := by
  constructor
  · intro h
    have hruns : busyStart.Runs againEnd := by
      apply reflTransGen_of_isSome
      decide +kernel
    have hstop : (⟨.caller 9, [], 50, 100⟩ : Stop) ∈ againEnd.pool.stops := by
      decide +kernel
    have hanswer : againEnd.Answers (.caller 9) (.ok ()) :=
      (hruns.watched.answers_iff hstop _).2 (.inl ⟨rfl, rfl⟩)
    have hworker : againEnd.pool.workers.get? 0
        = some (.asleep (Exchange.noticeOf "x") 0 10000) := by
      decide +kernel
    cases h againEnd hruns _ hanswer 0 _ hworker
  · intro h
    have hruns : busyStart.Runs strandedEnd := by
      apply reflTransGen_of_isSome
      decide +kernel
    have hstop : (⟨.caller 9, [0], 50, 50⟩ : Stop) ∈ strandedEnd.pool.stops := by
      decide +kernel
    have hanswer : strandedEnd.Answers (.caller 9) (.ok ()) :=
      (hruns.watched.answers_iff hstop _).2 (.inl ⟨rfl, by decide +kernel⟩)
    have hqueue : strandedEnd.bus.queue = [Exchange.noticeOf "a"] := by decide +kernel
    cases hqueue.symm.trans (h strandedEnd hruns _ hanswer)

end Workshop

end Reconciliation
