import Reconciliation.Proofs.Cases

/-!
# Workers that are never late

A worker that can set about its notice, repeat a call or let go of its notice does so before any
time passes (`Workshop.IsTimely`), while a call of the handler takes as long as it likes.  So a
worker that sleeps goes on exactly when its delay is over (`Workshop.IsTimely.asleep`), and those
who can go on still come to a state in which nobody will.
-/

namespace Reconciliation

/-- A worker of the pool would not be late at this time, if it did not go on before. -/
def Pool.isOnTime (p : Pool) (time : Nat) : WorkerPhase → Bool
  | .holding _ => false
  | .asleep _ _ due => !p.isShutDown && decide (time ≤ due)
  | .idle => true
  | .waiting => true
  | .calling _ _ _ _ => true
  | .ended => true
  | .crashed => true

namespace Workshop

variable {s t : Workshop}

/-! ### Time -/

/-- The move is one that a worker makes as soon as it can. -/
def Move.isPrompt : Move → Bool
  | .work (.begin _) | .work (.retry _) | .work (.abandon _) => true
  | .work (.ask _) | .work (.receive _) | .work (.dismiss _) | .work (.conclude _) => false
  | .work (.confirm _) | .work (.expire _) => false
  | .bus _ | .start | .shutDown | .stop _ _ | .pass _ => false

/-- No time passes while a worker can go on. -/
def IsTimely (s : Workshop) : Move → Prop
  | .pass millis => ∀ k < millis, ∀ m, m.isPrompt → (s.passed k).move m = none
  | .bus _ | .work _ | .start | .shutDown | .stop _ _ => True

/-- A move leads from one workshop to the other, and no worker is late. -/
def TimelyLeads (s t : Workshop) : Prop :=
  ∃ m, s.IsTimely m ∧ s.move m = some t

/-- Moves lead from one workshop to the other, and no worker is late. -/
def TimelyRuns : Workshop → Workshop → Prop :=
  Relation.ReflTransGen TimelyLeads

theorem TimelyLeads.leads (h : s.TimelyLeads t) :
  s.Leads t
  := by
  obtain ⟨m, -, hm⟩ := h
  exact ⟨m, hm⟩

theorem TimelyRuns.runs (h : s.TimelyRuns t) :
  s.Runs t
  := Relation.ReflTransGen.mono (fun _ _ => TimelyLeads.leads) s t h

theorem IsTimely.apply_eq_none {millis : Nat} (h : s.IsTimely (.pass millis)) (hs : s.Staffed)
    {a : Pool.Action} (ha : (Move.work a).isPrompt) {k : Nat} (hk : k < millis) :
  (s.passed k).pool.apply s.bus a = none
  := by
  by_contra hsome
  have hstaffed : (s.passed k).Staffed := hs.step (.pass k)
  obtain ⟨t, ht⟩ := hstaffed.exists_move (Option.isSome_iff_ne_none.2 hsome)
  cases ht.symm.trans (h k hk (.work a) ha)

/-- No time passes while a worker has a notice that it has not set about. -/
theorem IsTimely.notHolding {millis : Nat} (h : s.IsTimely (.pass millis)) (hs : s.Staffed)
    (hpos : 0 < millis) {w : Nat} {n : Notice} :
  s.pool.workers.get? w ≠ some (.holding n)
  := by
  intro hw
  have hnone := h.apply_eq_none hs (a := .begin w) rfl hpos
  have hw' : (s.passed 0).pool.workers.get? w = some (.holding n) := hw
  simp [Pool.apply, hw'] at hnone

/-- A worker sleeps until its delay is over, and no longer than until the pool is shut down. -/
theorem IsTimely.asleep {millis : Nat} (h : s.IsTimely (.pass millis)) (hs : s.Staffed)
    (hpos : 0 < millis) {w : Nat} {n : Notice} {attempt due : Nat}
    (hw : s.pool.workers.get? w = some (.asleep n attempt due)) :
  s.pool.isShutDown = false ∧ s.pool.now + millis ≤ due
  := by
  have hw' : ∀ k, (s.passed k).pool.workers.get? w = some (.asleep n attempt due) := fun _ => hw
  constructor
  · by_contra hdown
    rw [Bool.not_eq_false] at hdown
    have hdown' : (s.passed 0).pool.isShutDown = true := hdown
    have hnone := h.apply_eq_none hs (a := .abandon w) rfl hpos
    simp [Pool.apply, hw', hdown'] at hnone
  · by_contra hlate
    have hk : due - s.pool.now < millis := by omega
    have hdue : due ≤ (s.passed (due - s.pool.now)).pool.now := by
      show due ≤ s.pool.now + (due - s.pool.now)
      omega
    have hnone := h.apply_eq_none hs (a := .retry w) rfl hk
    simp only [Pool.apply, hw', if_pos hdue] at hnone
    cases hnone

/-- Time passes only while no worker has a notice that it has not set about, and no worker sleeps
longer than it has to. -/
theorem time_of_move {m : Move} (h : s.move m = some t) (hm : s.IsTimely m) (hs : s.Staffed) :
  t.pool.now = s.pool.now ∨
    (∀ w n, s.pool.workers.get? w ≠ some (.holding n)) ∧
    ∀ w n attempt due, s.pool.workers.get? w = some (.asleep n attempt due) →
      s.pool.isShutDown = false ∧ t.pool.now ≤ due
  := by
  have hmanages := manages_of_move h
  generalize t.pool = pool at hmanages
  cases hmanages with
  | bus | start | shutDown | stop => exact .inl rfl
  | work hstep => exact .inl hstep.isLikeNow.now
  | pass millis =>
    rcases Nat.eq_zero_or_pos millis with rfl | hpos
    · exact .inl rfl
    · exact .inr ⟨fun w n => hm.notHolding hs hpos, fun w n attempt due => hm.asleep hs hpos⟩

/-- No worker would be late if so much time passed. -/
def isOnTime (s : Workshop) (millis : Nat) : Bool :=
  s.pool.workers.all fun entry => s.pool.isOnTime (s.pool.now + millis) entry.2

/-- The workshop after a move, if the move is possible and no worker is late. -/
def timelyMove (s : Workshop) : Move → Option Workshop
  | .pass millis => if s.isOnTime millis then s.move (.pass millis) else none
  | .bus a => s.move (.bus a)
  | .work a => s.move (.work a)
  | .start => s.move .start
  | .shutDown => s.move .shutDown
  | .stop caller timeout => s.move (.stop caller timeout)

theorem isTimely_of_isOnTime {millis : Nat} (h : s.isOnTime millis) :
  s.IsTimely (.pass millis)
  := by
  have hphase : ∀ {w phase}, s.pool.workers.get? w = some phase →
      s.pool.isOnTime (s.pool.now + millis) phase = true := by
    intro w phase hw
    exact List.all_eq_true.1 h (w, phase) (Keyed.mem_of_get? hw)
  intro k hk m hprompt
  by_contra hsome
  obtain ⟨t, ht⟩ := Option.ne_none_iff_exists'.1 hsome
  cases m with
  | bus | start | shutDown | stop | pass => cases hprompt
  | work a =>
    obtain ⟨⟨bus, pool, answer⟩, happly, -⟩ := Option.bind_eq_some_iff.1 ht
    cases a with
    | ask | receive | dismiss | conclude | confirm | expire => cases hprompt
    | begin w =>
      obtain ⟨n, hw, -⟩ := Pool.apply_begin_eq_some happly
      cases hphase hw
    | retry w =>
      obtain ⟨n, attempt, due, hw, hdue, -⟩ := Pool.apply_retry_eq_some happly
      have hontime := hphase hw
      have hdue : due ≤ s.pool.now + k := hdue
      rw [Pool.isOnTime, Bool.and_eq_true, decide_eq_true_eq] at hontime
      omega
    | abandon w =>
      obtain ⟨n, attempt, due, hw, hdown, -⟩ := Pool.apply_abandon_eq_some happly
      have hontime := hphase hw
      have hdown : s.pool.isShutDown = true := hdown
      rw [Pool.isOnTime, hdown] at hontime
      cases hontime

theorem timelyMove_eq_some {m : Move} (h : s.timelyMove m = some t) :
  s.IsTimely m ∧ s.move m = some t
  := by
  cases m with
  | pass millis =>
    simp only [timelyMove] at h
    split at h
    · next hontime => exact ⟨isTimely_of_isOnTime hontime, h⟩
    · cases h
  | bus | work | start | shutDown | stop => exact ⟨trivial, h⟩

/-- Moves that are possible one after the other, and by which no worker is late, make a run. -/
theorem timelyRuns_of_isSome {ms : List Move} (h : (ms.foldlM timelyMove s).isSome) :
  s.TimelyRuns ((ms.foldlM timelyMove s).getD s)
  := by
  refine Relation.ReflTransGen.mono ?_ _ _ (reflTransGen_of_isSome h)
  rintro _ _ ⟨m, hm⟩
  exact ⟨m, timelyMove_eq_some hm⟩

/-! ### Coming to rest in time -/

theorem Move.isOwn_of_isPrompt {m : Move} (h : m.isPrompt) :
  m.isOwn
  := by
  cases m with
  | work => rfl
  | bus | start | shutDown | stop | pass => cases h

theorem isTimely_of_isOwn {m : Move} (h : m.isOwn) :
  s.IsTimely m
  := by
  cases m with
  | pass => cases h
  | bus | work | start | shutDown | stop => trivial

/-- Whoever goes on after some time can do so before any worker is late. -/
theorem Proceeds.exists_timely (h : s.Proceeds t) :
  ∃ u, s.Proceeds u ∧ s.TimelyRuns u
  := by
  classical
  have hex : ∃ millis, ∃ m u, m.isOwn ∧ (s.passed millis).move m = some u := by
    obtain ⟨millis, m, hown, hm⟩ := h
    exact ⟨millis, m, t, hown, hm⟩
  obtain ⟨m, u, hown, hm⟩ := Nat.find_spec hex
  have hpass : s.IsTimely (.pass (Nat.find hex)) := by
    intro k hk m hprompt
    by_contra hsome
    obtain ⟨v, hv⟩ := Option.ne_none_iff_exists'.1 hsome
    exact Nat.find_min hex hk ⟨m, v, Move.isOwn_of_isPrompt hprompt, hv⟩
  refine ⟨u, ⟨Nat.find hex, m, hown, hm⟩, ?_⟩
  apply Relation.ReflTransGen.tail (.single ⟨_, hpass, rfl⟩)
  exact ⟨m, isTimely_of_isOwn hown, hm⟩

/-- Those who can go on come to a state in which nobody will, and no worker is late. -/
theorem IsOrderly.exists_timely_quiet (h : s.IsOrderly) :
  ∃ t, s.TimelyRuns t ∧ t.IsQuiet
  := by
  have hrests : ∃ t, Relation.ReflTransGen (fun s t => Proceeds s t ∧ TimelyRuns s t) s t ∧
      ∀ u, ¬ (t.Proceeds u ∧ t.TimelyRuns u) :=
    exists_rest work (fun _ _ hs hstep => hs.proceeds hstep.1)
      (fun _ _ hs hstep => hs.work_lt hstep.1) h
  obtain ⟨t, hsteps, hrest⟩ := hrests
  refine ⟨t, ?_, ?_⟩
  · clear hrest
    induction hsteps with
    | refl => exact .refl
    | tail _ hstep ih => exact ih.trans hstep.2
  · intro u hproceeds
    obtain ⟨v, hv⟩ := hproceeds.exists_timely
    exact hrest v hv

end Workshop

end Reconciliation
