import Reconciliation.Proofs.Pool

/-!
# Workers and the number of their calls

`Pool.Goes` says what a worker that has no notice to wait for can do next, and `Pool.Step.shift`
that a step of the pool is that of one worker.  Calls are repeated as often as the plan says and
not more often (`Pool.IsBounded`), so every step lowers the bound on the number of steps that are
left, if the notices on their way are counted in (`Pool.work_lt`).  Where a call takes no time, it
is over as soon as it has begun (`Pool.IsPrompt`).
-/

namespace Reconciliation

/-- A worker has not repeated a call more often than so many times, and is not about to. -/
def WorkerPhase.IsWithin (retries : Nat) : WorkerPhase → Prop
  | .calling _ attempt _ _ => attempt ≤ retries
  | .asleep _ attempt _ => attempt < retries
  | .idle => True
  | .waiting => True
  | .holding _ => True
  | .ended => True
  | .crashed => True

/-- A call that a worker is in is over by this time. -/
def WorkerPhase.IsDue (now : Nat) : WorkerPhase → Prop
  | .calling _ _ _ finish => finish ≤ now
  | .asleep _ _ _ => True
  | .idle => True
  | .waiting => True
  | .holding _ => True
  | .ended => True
  | .crashed => True

namespace Pool

variable {b b' : Bus} {p p' : Pool} {w : Nat} {old new : WorkerPhase}

/-- What a worker goes on to, without a notice from the bus. -/
inductive Goes (p : Pool) : WorkerPhase → WorkerPhase → Prop where
  | ask : Goes p .idle .waiting
  | dismiss : Goes p .waiting .ended
  /-- The event of the notice was seen before. -/
  | skip {n : Notice} : Goes p (.holding n) .idle
  | call {n : Notice} (nth : Nat) :
      Goes p (.holding n) (.calling n 0 nth (p.now + p.handler.millis))
  /-- A call has reconciled its notice, or was the last one for it. -/
  | settle {n : Notice} {attempt nth finish : Nat} : Goes p (.calling n attempt nth finish) .idle
  | postpone {n : Notice} {attempt nth finish : Nat} (due : Nat) (h : attempt < p.plan.retries) :
      Goes p (.calling n attempt nth finish) (.asleep n attempt due)
  | crash {n : Notice} {attempt nth finish : Nat} :
      Goes p (.calling n attempt nth finish) .crashed
  | retry {n : Notice} {attempt due : Nat} (nth : Nat) :
      Goes p (.asleep n attempt due)
        (.calling n (attempt + 1) nth (p.now + p.handler.millis))
  | abandon {n : Notice} {attempt due : Nat} : Goes p (.asleep n attempt due) .idle

/-- What a step changes. -/
inductive Shift (b : Bus) (p : Pool) (b' : Bus) (p' : Pool) : Prop where
  /-- A worker goes on by itself. -/
  | goes {w : Nat} {old new : WorkerPhase} (hw : p.workers.get? w = some old)
      (hgoes : p.Goes old new) (hworkers : p'.workers = (p.setPhase w new).workers)
      (hstops : p'.stops = p.stops) (hqueue : b'.queue = b.queue)
  /-- A worker takes a notice. -/
  | receives {w : Nat} {n : Notice} (hw : p.workers.get? w = some .waiting)
      (hworkers : p'.workers = (p.setPhase w (.holding n)).workers)
      (hstops : p'.stops = p.stops) (hqueue : b.queue = n :: b'.queue)
  /-- A caller ceases to wait for the workers. -/
  | forgets (hworkers : p'.workers = p.workers) (hstops : p'.stops.length < p.stops.length)
      (hqueue : b'.queue = b.queue)

/-- A caller who is forgotten has waited. -/
theorem length_stops_forget {s : Stop} (h : p.stop? s.caller = some s) :
  (p.forget s.caller).stops.length < p.stops.length
  := by
  have hmem := List.mem_of_find?_eq_some h
  have hlength := List.length_eraseP_of_mem (p := fun t => t.caller == s.caller) hmem
    (beq_self_eq_true s.caller)
  have hpos := List.length_pos_of_mem hmem
  simp only [forget, hlength]
  omega

theorem shift_of_process {n : Notice} (hw : p.workers.get? w = some (.holding n)) :
  Shift b p b (p.process w n)
  := by
  rw [process]
  split
  · exact .goes hw (.call _) rfl rfl rfl
  · split
    · exact .goes hw .skip rfl rfl rfl
    · exact .goes hw (.call _) rfl rfl rfl

theorem shift_of_settleCall {n : Notice} {attempt nth finish : Nat}
    (hw : p.workers.get? w = some (.calling n attempt nth finish)) (verdict : Verdict) :
  Shift b p b (p.settleCall w n attempt verdict)
  := by
  cases verdict with
  | reconciled =>
    rw [settleCall]
    split
    · exact .goes hw .settle rfl rfl rfl
    · exact .goes hw .settle rfl rfl rfl
  | failed fault =>
    rw [settleCall, fail]
    split
    · next hretry => exact .goes hw (.postpone _ hretry) rfl rfl rfl
    · exact .goes hw .settle rfl rfl rfl
  | panicked => exact .goes hw .crash rfl rfl rfl

/-- A step is one of a worker, or of a caller. -/
theorem Step.shift (h : Step b p b' p')
    (htakers : ∀ w takers, b.takers = .worker w :: takers → p.workers.get? w = some .waiting) :
  Shift b p b' p'
  := by
  cases h with
  | ask hw => exact .goes hw .ask rfl rfl rfl
  | receive htaker hqueue => exact .receives (htakers _ _ htaker) rfl rfl hqueue
  | dismiss htaker _ => exact .goes (htakers _ _ htaker) .dismiss rfl rfl rfl
  | begin hw => exact shift_of_process hw
  | conclude hw _ => exact shift_of_settleCall hw _
  | retry hw _ => exact .goes hw (.retry _) rfl rfl rfl
  | abandon hw _ => exact .goes hw .abandon rfl rfl rfl
  | confirm hs _ => exact .forgets rfl (length_stops_forget hs) rfl
  | expire hs _ => exact .forgets rfl (length_stops_forget hs) rfl

/-- What a step leaves as it is. -/
structure IsLikeNow (p q : Pool) : Prop where
  plan : q.plan = p.plan
  handler : q.handler = p.handler
  now : q.now = p.now

theorem isLikeNow_process (p : Pool) (w : Nat) (n : Notice) :
  p.IsLikeNow (p.process w n)
  := by
  rw [process]
  split
  · exact ⟨rfl, rfl, rfl⟩
  · split
    · exact ⟨rfl, rfl, rfl⟩
    · exact ⟨rfl, rfl, rfl⟩

theorem isLikeNow_settleCall (p : Pool) (w : Nat) (n : Notice) (attempt : Nat)
    (verdict : Verdict) :
  p.IsLikeNow (p.settleCall w n attempt verdict)
  := by
  cases verdict with
  | reconciled =>
    rw [settleCall]
    split
    · exact ⟨rfl, rfl, rfl⟩
    · exact ⟨rfl, rfl, rfl⟩
  | failed fault =>
    rw [settleCall, fail]
    split
    · exact ⟨rfl, rfl, rfl⟩
    · exact ⟨rfl, rfl, rfl⟩
  | panicked => exact ⟨rfl, rfl, rfl⟩

theorem Step.isLikeNow (h : Step b p b' p') :
  p.IsLikeNow p'
  := by
  cases h with
  | begin _ => exact isLikeNow_process _ _ _
  | conclude _ _ => exact isLikeNow_settleCall _ _ _ _ _
  | ask | receive | dismiss | retry | abandon | confirm | expire => exact ⟨rfl, rfl, rfl⟩

/-! ### Bounds -/

/-- No call is repeated more often than the plan says. -/
def IsBounded (p : Pool) : Prop :=
  ∀ w phase, p.workers.get? w = some phase → phase.IsWithin p.plan.retries

theorem Goes.isWithin (h : p.Goes old new) (hold : old.IsWithin p.plan.retries) :
  new.IsWithin p.plan.retries
  := by
  cases h with
  | ask | dismiss | skip | settle | crash | abandon => trivial
  | call nth => exact Nat.zero_le _
  | postpone due h => exact h
  | retry nth => exact hold

/-- What holds of the phases of all workers, and of the phase that one of them goes on to, holds of
all phases afterwards. -/
theorem forall_setPhase {P : WorkerPhase → Prop}
    (h : ∀ w phase, p.workers.get? w = some phase → P phase)
    (hw : p.workers.get? w = some old) (hnew : P new)
    (hworkers : p'.workers = (p.setPhase w new).workers) :
  ∀ w phase, p'.workers.get? w = some phase → P phase
  := by
  intro k phase hk
  rw [hworkers, setPhase, Keyed.get?_modify hw] at hk
  split at hk
  · cases hk
    exact hnew
  · exact h k phase hk

theorem IsBounded.step (h : p.IsBounded) (hstep : Step b p b' p')
    (htakers : ∀ w takers, b.takers = .worker w :: takers → p.workers.get? w = some .waiting) :
  p'.IsBounded
  := by
  rw [IsBounded, hstep.isLikeNow.plan]
  cases hstep.shift htakers with
  | goes hw hgoes hworkers => exact forall_setPhase h hw (hgoes.isWithin (h _ _ hw)) hworkers
  | @receives w n hw hworkers =>
    have hnew : (WorkerPhase.holding n).IsWithin p.plan.retries := trivial
    exact forall_setPhase h hw hnew hworkers
  | forgets hworkers =>
    rw [hworkers]
    exact h

/-! ### Prompt pools -/

/-- Workers were started, their calls take no time, and nobody waits for them to end. -/
structure IsPrompt (p : Pool) : Prop where
  workers : p.workers ≠ []
  millis : p.handler.millis = 0
  stops : p.stops = []
  due : ∀ w phase, p.workers.get? w = some phase → phase.IsDue p.now

theorem Goes.isDue (h : p.Goes old new) (hmillis : p.handler.millis = 0) :
  new.IsDue p.now
  := by
  cases h with
  | ask | dismiss | skip | settle | postpone | crash | abandon => trivial
  | call | retry =>
    rw [hmillis]
    exact Nat.le_refl _

theorem IsPrompt.step (h : p.IsPrompt) (hstep : Step b p b' p')
    (htakers : ∀ w takers, b.takers = .worker w :: takers → p.workers.get? w = some .waiting) :
  p'.IsPrompt
  := by
  obtain ⟨-, hhandler, hnow⟩ := hstep.isLikeNow
  have hworkers : ∀ {w new}, p'.workers = (p.setPhase w new).workers → p'.workers ≠ [] := by
    intro w new hworkers
    rw [hworkers, setPhase, Keyed.modify, ne_eq, List.map_eq_nil_iff]
    exact h.workers
  cases hstep.shift htakers with
  | goes hw hgoes hsetPhase hstops =>
    refine ⟨hworkers hsetPhase, by rw [hhandler, h.millis], hstops.trans h.stops, ?_⟩
    rw [hnow]
    exact forall_setPhase h.due hw (hgoes.isDue h.millis) hsetPhase
  | @receives w n hw hsetPhase hstops =>
    have hnew : (WorkerPhase.holding n).IsDue p.now := trivial
    refine ⟨hworkers hsetPhase, by rw [hhandler, h.millis], hstops.trans h.stops, ?_⟩
    rw [hnow]
    exact forall_setPhase h.due hw hnew hsetPhase
  | forgets _ hstops =>
    rw [h.stops] at hstops
    cases hstops

/-- A pool is prompt once its workers are started, if its handler is. -/
theorem isPrompt_start (plan : DeliveryPlan) :
  (start (ofPlan plan (.announcing 0))).IsPrompt
  where
    workers := by
      have hworkers : 0 < plan.normalized.workers := by
        rw [DeliveryPlan.normalized]
        dsimp only
        split
        · exact Nat.zero_lt_succ 3
        · next h => exact Nat.pos_of_ne_zero h
      intro hnil
      have hlength := congrArg List.length hnil
      simp only [start, ofPlan, List.length_append, List.length_map, List.length_range,
        List.length_nil] at hlength
      omega
    millis := rfl
    stops := rfl
    due w phase hw := by
      obtain ⟨_, -, heq⟩ := List.mem_map.1 (Keyed.mem_of_get? hw)
      cases heq
      trivial

theorem isBounded_start (plan : DeliveryPlan) (handler : Handler) :
  (start (ofPlan plan handler)).IsBounded
  := by
  intro w phase hw
  obtain ⟨_, -, heq⟩ := List.mem_map.1 (Keyed.mem_of_get? hw)
  cases heq
  trivial

/-! ### The effort that is left -/

/-- A worker that goes on is nearer to its end. -/
theorem Goes.phaseWork_lt (h : p.Goes old new) (hold : old.IsWithin p.plan.retries) :
  phaseWork p.plan.retries new < phaseWork p.plan.retries old
  := by
  cases h with
  | ask | dismiss => exact Nat.lt_succ_self _
  | skip | call | crash =>
    simp only [phaseWork, noticeWork]
    omega
  | settle | postpone =>
    simp only [WorkerPhase.IsWithin] at hold
    simp only [phaseWork]
    omega
  | retry | abandon =>
    simp only [WorkerPhase.IsWithin] at hold
    simp only [phaseWork]
    omega

theorem total_phaseWork_setPhase (hkeys : (p.workers.map Prod.fst).Nodup)
    (hw : p.workers.get? w = some old) (new : WorkerPhase) :
  Keyed.total (phaseWork p.plan.retries) (p.setPhase w new).workers
      + phaseWork p.plan.retries old
    = Keyed.total (phaseWork p.plan.retries) p.workers + phaseWork p.plan.retries new
  := Keyed.total_modify (phaseWork p.plan.retries) hkeys hw (fun _ => new)

theorem work_mono (p : Pool) {m n : Nat} (h : m ≤ n) :
  p.work m ≤ p.work n
  := by
  have hmul := Nat.mul_le_mul_right (noticeWork p.plan.retries) h
  rw [work, work]
  omega

/-- Every step lowers the bound on the steps that are left, with the notices of the bus among
those on their way. -/
theorem work_lt (h : Step b p b' p') (hbounded : p.IsBounded)
    (hkeys : (p.workers.map Prod.fst).Nodup)
    (htakers : ∀ w takers, b.takers = .worker w :: takers → p.workers.get? w = some .waiting)
    (notices : Nat) :
  p'.work (notices + b'.queue.length) < p.work (notices + b.queue.length)
  := by
  have hwork : ∀ q : Pool, ∀ k, q.work k = q.stops.length + k * noticeWork q.plan.retries +
      Keyed.total (phaseWork q.plan.retries) q.workers := fun _ _ => rfl
  rw [hwork, hwork, h.isLikeNow.plan]
  cases h.shift htakers with
  | @goes w old new hw hgoes hworkers hstops hqueue =>
    have hlt := hgoes.phaseWork_lt (hbounded _ _ hw)
    have htotal := total_phaseWork_setPhase hkeys hw new
    rw [hworkers, hstops, hqueue]
    omega
  | @receives w n hw hworkers hstops hqueue =>
    have htotal := total_phaseWork_setPhase hkeys hw (.holding n)
    simp only [phaseWork] at htotal
    rw [hworkers, hstops, hqueue, List.length_cons, ← Nat.add_assoc, Nat.add_mul _ 1]
    omega
  | forgets hworkers hstops hqueue =>
    rw [hworkers, hqueue]
    omega

end Pool

end Reconciliation
