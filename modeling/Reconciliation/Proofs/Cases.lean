import Reconciliation.Proofs.Quiet

/-!
# One case at a time

A move leaves a case as it is, or it is what the worker of the case does with the notice in its
hands (`Workshop.Follows`); a worker that sleeps after a failed call sleeps for the delay of the
plan, and repeats the call once it is over (`Pool.Paces`).
-/

namespace Reconciliation

/-! ### When workers go on -/

namespace Pool

variable {b b' : Bus} {p p' : Pool} {w : Nat} {old new : WorkerPhase}

/-- What time has to do with a worker that goes on: after a failed call it sleeps for the delay, and
it repeats the call once the delay is over. -/
structure Paces (p : Pool) (old new : WorkerPhase) : Prop where
  postponed : ∀ {n m : Notice} {attempt nth finish k due : Nat},
    old = .calling n attempt nth finish → new = .asleep m k due →
    due = p.now + (p.delay attempt).toMillisCeil
  repeated : ∀ {n m : Notice} {attempt due k nth finish : Nat},
    old = .asleep n attempt due → new = .calling m k nth finish → due ≤ p.now

/-- When a call is settled its worker goes on, and if the call is to be repeated it sleeps for the
delay. -/
theorem exists_settled (p : Pool) (w : Nat) (n : Notice) (attempt : Nat) (verdict : Verdict) :
  ∃ phase, (p.settleCall w n attempt verdict).workers = (p.setPhase w phase).workers ∧
    ∀ m k due, phase = .asleep m k due → due = p.now + (p.delay attempt).toMillisCeil
  := by
  cases verdict with
  | reconciled =>
    refine ⟨.idle, ?_, by rintro _ _ _ ⟨⟩⟩
    rw [settleCall]
    split
    · rfl
    · rfl
  | failed fault =>
    rw [settleCall, fail]
    split
    · exact ⟨_, rfl, by rintro _ _ _ ⟨⟩; rfl⟩
    · exact ⟨.idle, rfl, by rintro _ _ _ ⟨⟩⟩
  | panicked => exact ⟨.crashed, rfl, by rintro _ _ _ ⟨⟩⟩

/-- A worker that goes on to another phase does so in time. -/
theorem Step.paces (h : Step b p b' p') (hw : p.workers.get? w = some old)
    (hw' : p'.workers.get? w = some new) (hne : new ≠ old) :
  p.Paces old new
  := by
  -- The worker is the one that goes on.
  have hself : ∀ {k phase}, p'.workers = (p.setPhase k phase).workers → w = k ∧ phase = new := by
    intro k phase hworkers
    by_cases hk : w = k
    · subst hk
      rw [hworkers, setPhase, Keyed.get?_modify hw, if_pos rfl] at hw'
      exact ⟨rfl, Option.some.inj hw'⟩
    · rw [hworkers, setPhase, Keyed.get?_modify_of_ne _ hk, hw] at hw'
      exact absurd (Option.some.inj hw').symm hne
  have hsame : p'.workers = p.workers → p.Paces old new := by
    intro hworkers
    rw [hworkers, hw] at hw'
    exact absurd (Option.some.inj hw').symm hne
  cases h with
  | ask | receive | dismiss | abandon =>
    obtain ⟨-, rfl⟩ := hself rfl
    constructor
    · rintro _ _ _ _ _ _ _ - ⟨⟩
    · rintro _ _ _ _ _ _ _ - ⟨⟩
  | begin hk =>
    obtain ⟨_, _, _, -, hpool⟩ := treats_process hk
    obtain ⟨rfl, -⟩ := hself hpool.workers
    cases hw.symm.trans hk
    constructor
    · rintro _ _ _ _ _ _ _ ⟨⟩
    · rintro _ _ _ _ _ _ _ ⟨⟩
  | @conclude k n attempt nth finish hk =>
    obtain ⟨phase, hworkers, hdue⟩ := p.exists_settled k n attempt (p.handler.verdict n nth)
    obtain ⟨rfl, rfl⟩ := hself hworkers
    cases hw.symm.trans hk
    constructor
    · rintro _ m _ _ _ j due ⟨⟩ hnew
      exact hdue m j due hnew
    · rintro _ _ _ _ _ _ _ ⟨⟩
  | retry hk hdue =>
    obtain ⟨rfl, -⟩ := hself rfl
    cases hw.symm.trans hk
    constructor
    · rintro _ _ _ _ _ _ _ ⟨⟩
    · rintro _ _ _ _ _ _ _ ⟨⟩ -
      exact hdue
  | confirm | expire => exact hsame rfl

end Pool

namespace Workshop

variable {s t : Workshop}

/-- What a move does to the pool. -/
inductive Manages (s : Workshop) : Move → Pool → Prop where
  | bus (a : Bus.Action) : Manages s (.bus a) s.pool
  | work {a : Pool.Action} {bus : Bus} {pool : Pool} (h : Pool.Step s.bus s.pool bus pool) :
    Manages s (.work a) pool
  | start : Manages s .start s.pool.start
  | shutDown : Manages s .shutDown s.pool.shutDown
  | stop (caller : Party) (timeout : Nat) :
    Manages s (.stop caller timeout) (s.pool.stop caller timeout)
  | pass (millis : Nat) : Manages s (.pass millis) (s.pool.passTo (s.pool.now + millis))

theorem manages_of_move {m : Move} (h : s.move m = some t) :
  s.Manages m t.pool
  := by
  cases m with
  | bus a =>
    simp only [move] at h
    split at h
    case isFalse => cases h
    case isTrue =>
    obtain ⟨exchange, -, rfl⟩ := Option.map_eq_some_iff.1 h
    exact .bus a
  | work a =>
    obtain ⟨⟨bus, pool, answer⟩, happly, h⟩ := Option.bind_eq_some_iff.1 h
    obtain ⟨exchange, -, h⟩ := Option.bind_eq_some_iff.1 h
    cases h
    exact .work (Pool.step_of_apply happly)
  | stop caller timeout =>
    simp only [move] at h
    split at h
    case isTrue => cases h
    case isFalse =>
    cases h
    exact .stop caller timeout
  | start =>
    cases h
    exact .start
  | shutDown =>
    cases h
    exact .shutDown
  | pass millis =>
    cases h
    exact .pass millis

/-- A worker of a workshop that goes on to another phase does so in time. -/
theorem paces_of_move {m : Move} (h : s.move m = some t) {w : Nat} {old new : WorkerPhase}
    (hw : s.pool.workers.get? w = some old) (hw' : t.pool.workers.get? w = some new)
    (hne : new ≠ old) :
  s.pool.Paces old new
  := by
  have hmanages := manages_of_move h
  generalize t.pool = pool at hw' hmanages
  cases hmanages with
  | work hstep => exact hstep.paces hw hw' hne
  | start =>
    rcases s.pool.get?_start w with heq | ⟨hnone, -⟩
    · rw [hw] at heq
      exact absurd (Option.some.inj (hw'.symm.trans heq)) hne
    · cases hw.symm.trans hnone
  | bus | shutDown | stop | pass => exact absurd (Option.some.inj (hw'.symm.trans hw)) hne

/-- Workers only become more, and a pool stays shut down. -/
theorem Step.grows (h : s.Step t) :
  s.pool.workers.length ≤ t.pool.workers.length ∧
    (t.pool.isShutDown = false → s.pool.isShutDown = false)
  := by
  have hphase : ∀ w new, s.pool.workers.length ≤ (s.pool.setPhase w new).workers.length := by
    intro w new
    rw [Pool.setPhase, Keyed.length_modify]
  cases h with
  | ask | take | leave => exact ⟨hphase _ _, id⟩
  | treat _ _ hpool =>
    rw [hpool.workers, hpool.isShutDown]
    exact ⟨hphase _ _, id⟩
  | start =>
    refine ⟨?_, id⟩
    rw [Pool.start, List.length_append]
    exact Nat.le_add_right _ _
  | shutDown =>
    refine ⟨Nat.le_refl _, fun hup => ?_⟩
    cases hup
  | outside | confirm | expire | stop | pass => exact ⟨Nat.le_refl _, id⟩

/-! ### What a move does to a case -/

/-- A case without a fate is the only one on the desk of its worker. -/
theorem Filed.desk_eq (h : s.Filed) {c : Case} (hc : c ∈ s.cases) (hfate : c.fate = none) :
  s.desk c.worker = [c] ∧ ∃ phase, s.pool.workers.get? c.worker = some phase ∧
    phase.isFree = false
  := (h.desks c.worker).eq_of_mem (mem_desk hc hfate)

/-- What a move does to a case, seen together with the worker of the case. -/
inductive Follows (s t : Workshop) (c : Case) : Case → Prop where
  | rests (hphase : c.fate = none →
      t.pool.workers.get? c.worker = s.pool.workers.get? c.worker) :
    Follows s t c c
  | treat {w : Nat} {n : Notice} {old new : WorkerPhase} {change : Case → Case}
      {seen : List String} {calls : List Call} (hworker : c.worker = w) (hnotice : c.notice = n)
      (hfate : c.fate = none) (hw : s.pool.workers.get? w = some old)
      (hw' : t.pool.workers.get? w = some new) (hdesk : Desk s.pool.plan.retries w (some old) [c])
      (htreats : s.pool.Treats n old new change seen calls) (hpaces : s.pool.Paces old new)
      (hnow : t.pool.now = s.pool.now) :
    Follows s t c (change c)

theorem getElem?_amend (cases : List Case) (w : Nat) (change : Case → Case) (i : Nat) :
  (Case.amend cases w change)[i]? = cases[i]?.map (fun c => if c.isWith w then change c else c)
  := List.getElem?_map

/-- What a move does to one case. -/
theorem follows_of_move (hs : s.IsOrderly) {m : Move} (h : s.move m = some t) {i : Nat} {c : Case}
    (hc : s.cases[i]? = some c) :
  ∃ d, t.cases[i]? = some d ∧ s.Follows t c d
  := by
  have hmem : c ∈ s.cases := List.mem_of_getElem? hc
  -- The worker of an open case is not one without a notice in its hands.
  have hother : ∀ {w phase}, s.pool.workers.get? w = some phase → phase.isFree → c.fate = none →
      c.worker ≠ w := by
    rintro w phase hw hfree hfate rfl
    obtain ⟨-, phase', hw', hbusy⟩ := hs.2.desk_eq hmem hfate
    cases hw.symm.trans hw'
    rw [hfree] at hbusy
    cases hbusy
  have hphase : ∀ {w phase} new, s.pool.workers.get? w = some phase → phase.isFree →
      c.fate = none →
      (s.pool.setPhase w new).workers.get? c.worker = s.pool.workers.get? c.worker := by
    intro w phase new hw hfree hfate
    rw [Pool.setPhase, Keyed.get?_modify_of_ne _ (hother hw hfree hfate)]
  cases step_of_move h with
  | outside | confirm | expire | shutDown | stop | pass => exact ⟨c, hc, .rests fun _ => rfl⟩
  | ask hw => exact ⟨c, hc, .rests (hphase _ hw rfl)⟩
  | take htakers =>
    refine ⟨c, ?_, .rests (hphase _ (hs.1.get?_of_takers htakers) rfl)⟩
    exact (List.getElem?_append_left (List.getElem?_eq_some_iff.1 hc).1).trans hc
  | leave htakers => exact ⟨c, hc, .rests (hphase _ (hs.1.get?_of_takers htakers) rfl)⟩
  | start =>
    refine ⟨c, hc, .rests fun hfate => ?_⟩
    obtain ⟨-, phase, hw, -⟩ := hs.2.desk_eq hmem hfate
    rcases s.pool.get?_start c.worker with heq | ⟨hnone, -⟩
    · exact heq
    · cases hw.symm.trans hnone
  | @treat w n old new change seen calls pool hw htreats hpool =>
    refine ⟨if c.isWith w then change c else c, ?_, ?_⟩
    · rw [getElem?_amend, hc]
      rfl
    · by_cases hwith : c.isWith w
      · rw [if_pos hwith]
        rw [Case.isWith, Bool.and_eq_true, Option.isNone_iff_eq_none, beq_iff_eq] at hwith
        obtain ⟨rfl, hfate⟩ := hwith
        have hw' := (hpool.get? hw c.worker).trans (if_pos rfl)
        obtain ⟨d, hd, -, hnotice, -, hdesk⟩ := hs.2.exists_case hw htreats
        obtain rfl := List.singleton_inj.1 (hd.symm.trans (hs.2.desk_eq hmem hfate).1)
        refine .treat rfl hnotice hfate hw hw' hdesk htreats ?_ hpool.now
        apply paces_of_move h hw hw'
        rintro rfl
        cases htreats
      · rw [if_neg hwith]
        refine .rests fun hfate => ?_
        rw [hpool.get? hw, if_neg]
        rintro rfl
        apply hwith
        simp [Case.isWith, hfate]

/-- A case that is there after a move was there before, or its notice was just taken. -/
theorem appears_of_move (hs : s.IsOrderly) {m : Move} (h : s.move m = some t) {i : Nat} {d : Case}
    (hd : t.cases[i]? = some d) (hnew : s.cases[i]? = none) :
  ∃ w n, d = { worker := w, notice := n } ∧ t.pool.workers.get? w = some (.holding n) ∧
    t.pool.now = s.pool.now
  := by
  have hlength : ∀ cases : List Case, cases.length = s.cases.length → cases[i]? = some d →
      False := by
    intro cases hlength hd
    rw [List.getElem?_eq_none_iff] at hnew
    have hlt := (List.getElem?_eq_some_iff.1 hd).1
    omega
  cases step_of_move h with
  | outside | ask | leave | confirm | expire | start | shutDown | stop | pass =>
    exact (hlength _ rfl hd).elim
  | treat => exact (hlength _ (List.length_map _) hd).elim
  | @take w takers n queue htakers =>
    have hd : (s.cases ++ [{ worker := w, notice := n }])[i]? = some d := hd
    rw [List.getElem?_eq_none_iff] at hnew
    rw [List.getElem?_append_right hnew] at hd
    obtain ⟨hi, rfl⟩ := List.getElem?_eq_some_iff.1 hd
    rw [List.getElem_singleton]
    refine ⟨w, n, rfl, ?_, rfl⟩
    show (s.pool.setPhase w (.holding n)).workers.get? w = _
    rw [Pool.setPhase, Keyed.get?_modify (hs.1.get?_of_takers htakers), if_pos rfl]

/-- A case after some moves: the notice is the same, the calls become more, and a closed case stays as
it is. -/
structure IsFollowedBy (c d : Case) : Prop where
  worker : d.worker = c.worker
  notice : d.notice = c.notice
  calls_le : c.calls ≤ d.calls
  closed : c.fate ≠ none → d = c

theorem Follows.isFollowedBy {c d : Case} (h : s.Follows t c d) :
  IsFollowedBy c d
  := by
  cases h with
  | rests => exact ⟨rfl, rfl, Nat.le_refl _, fun _ => rfl⟩
  | treat _ _ hfate _ _ _ htreats =>
    obtain ⟨hworker, hnotice⟩ := htreats.keeps c
    refine ⟨hworker, hnotice, ?_, fun hclosed => absurd hfate hclosed⟩
    cases htreats with
    | begin | retry => exact Nat.le_succ c.calls
    | skip | reconcile | postpone | exhaust | crash | abandon => exact Nat.le_refl c.calls

/-- What was taken stays in its place. -/
theorem Runs.followed (hs : s.IsOrderly) (h : s.Runs t) {i : Nat} {c : Case}
    (hc : s.cases[i]? = some c) :
  t.IsOrderly ∧ ∃ d, t.cases[i]? = some d ∧ IsFollowedBy c d
  := by
  induction h with
  | refl => exact ⟨hs, c, hc, rfl, rfl, Nat.le_refl _, fun _ => rfl⟩
  | tail _ hleads ih =>
    obtain ⟨horderly, d, hd, hfollowed⟩ := ih
    obtain ⟨m, hm⟩ := hleads
    obtain ⟨e, he, hfollows⟩ := follows_of_move horderly hm hd
    have hnext := hfollows.isFollowedBy
    refine ⟨horderly.step (step_of_move hm), e, he, ?_⟩
    constructor
    · exact hnext.worker.trans hfollowed.worker
    · exact hnext.notice.trans hfollowed.notice
    · exact hfollowed.calls_le.trans hnext.calls_le
    · intro hclosed
      have hsame := hfollowed.closed hclosed
      rw [← hsame] at hclosed ⊢
      exact hnext.closed hclosed

end Workshop

end Reconciliation
