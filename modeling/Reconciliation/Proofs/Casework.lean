import Reconciliation.Proofs.Desks
import Reconciliation.Proofs.Staffing

/-!
# What becomes of the notices taken

The cases of a workshop are those of the notices that were taken, each of them on the desk of the
worker that has it, or closed.  `Workshop.Filed` is what holds of them after any number of moves.  A
panic ends only the worker that had the notice (`Workshop.Filed.crashed_iff`).
-/

namespace Reconciliation

/-! ### The case on a desk -/

namespace Case

variable {cases : List Case} {c : Case} {w k : Nat} {change : Case → Case}

/-- The case in the hands of a worker is one among the others, and the only one that is amended. -/
theorem exists_amend (h : cases.filter (·.isWith w) = [c]) :
  ∃ before after, cases = before ++ c :: after ∧
    (∀ d ∈ before ++ after, d.isWith w = false) ∧
    ∀ change, amend cases w change = before ++ change c :: after
  := by
  obtain ⟨before, after, rfl, hbefore, hc, hnil⟩ := List.filter_eq_cons_iff.1 h
  have hbefore' : ∀ d ∈ before, d.isWith w = false := by simpa using hbefore
  have hafter : ∀ d ∈ after, d.isWith w = false := by simpa using List.filter_eq_nil_iff.1 hnil
  have hothers : ∀ l : List Case, (∀ d ∈ l, d.isWith w = false) → ∀ change : Case → Case,
      l.map (fun d => if d.isWith w then change d else d) = l := by
    intro l hl change
    conv_rhs => rw [← List.map_id l]
    refine List.map_congr_left fun d hd => ?_
    rw [hl d hd]
    rfl
  refine ⟨before, after, rfl, ?_, ?_⟩
  · intro d hd
    rcases List.mem_append.1 hd with hd | hd
    · exact hbefore' d hd
    · exact hafter d hd
  · intro change
    rw [amend, List.map_append, List.map_cons, hothers before hbefore', hothers after hafter,
      if_pos hc]

/-- The desk of the worker who goes on. -/
theorem desk_amend_self (h : cases.filter (·.isWith w) = [c]) (change : Case → Case) :
  (amend cases w change).filter (·.isWith w) = [change c].filter (·.isWith w)
  := by
  obtain ⟨before, after, -, hothers, hamend⟩ := exists_amend h
  have hnone : ∀ l : List Case, (∀ d ∈ l, d.isWith w = false) →
      l.filter (·.isWith w) = [] := by
    intro l hl
    rw [List.filter_eq_nil_iff]
    intro d hd
    rw [hl d hd]
    nofun
  rw [hamend, List.filter_append, hnone before fun d hd => hothers d (List.mem_append_left _ hd),
    List.nil_append, ← List.singleton_append, List.filter_append,
    hnone after fun d hd => hothers d (List.mem_append_right _ hd), List.append_nil]

/-- The desks of the others. -/
theorem desk_amend_of_ne (h : cases.filter (·.isWith w) = [c])
    (hkeeps : (change c).worker = c.worker) (hk : k ≠ w) :
  (amend cases w change).filter (·.isWith k) = cases.filter (·.isWith k)
  := by
  have hmem : c ∈ cases.filter (·.isWith w) := by
    rw [h]
    exact List.mem_singleton_self c
  have hc : c.worker = w := by
    have hwith := (List.mem_filter.1 hmem).2
    rw [isWith, Bool.and_eq_true] at hwith
    exact eq_of_beq hwith.1
  have hother : ∀ d : Case, d.worker = w → d.isWith k = false := by
    rintro d rfl
    rw [isWith, beq_eq_false_iff_ne.2 (Ne.symm hk), Bool.false_and]
  obtain ⟨before, after, rfl, -, hamend⟩ := exists_amend h
  rw [hamend, List.filter_append, List.filter_append, List.filter_cons, List.filter_cons,
    hother c hc, hother (change c) (hkeeps.trans hc)]
  rfl

/-- What the change adds to one case, it adds to all of them. -/
theorem flatMap_amend {β : Type} (g : Case → List β) (h : cases.filter (·.isWith w) = [c])
    {change : Case → Case} {added : List β} (hadded : (g (change c)).Perm (g c ++ added)) :
  ((amend cases w change).flatMap g).Perm (cases.flatMap g ++ added)
  := by
  obtain ⟨before, after, rfl, -, hamend⟩ := exists_amend h
  have hbefore : ((before ++ c :: after).flatMap g).Perm (g c ++ (before ++ after).flatMap g) :=
    List.perm_middle.flatMap_right g
  have hafter : ((before ++ change c :: after).flatMap g).Perm
      (g (change c) ++ (before ++ after).flatMap g) :=
    List.perm_middle.flatMap_right g
  rw [hamend]
  refine hafter.trans ((hadded.append_right _).trans (List.Perm.trans ?_
    (hbefore.append_right _).symm))
  rw [List.append_assoc, List.append_assoc]
  exact List.perm_append_comm.append_left _

/-- What a change leaves as it is stays so for all cases. -/
theorem map_amend {β : Type} {g : Case → β} (h : ∀ c, g (change c) = g c) :
  (amend cases w change).map g = cases.map g
  := by
  rw [amend, List.map_map]
  refine List.map_congr_left fun c _ => ?_
  rw [Function.comp_apply]
  split
  · exact h c
  · rfl

/-- An amended case is the one that was in the hands of the worker, or one that was there before. -/
theorem mem_amend {d : Case} (h : cases.filter (·.isWith w) = [c])
    (hd : d ∈ amend cases w change) :
  d = change c ∨ d ∈ cases
  := by
  obtain ⟨before, after, rfl, -, hamend⟩ := exists_amend h
  rw [hamend] at hd
  rcases List.mem_append.1 hd with hd | hd
  · exact .inr (List.mem_append_left _ hd)
  · rcases List.mem_cons.1 hd with rfl | hd
    · exact .inl rfl
    · exact .inr (List.mem_append_right _ (List.mem_cons_of_mem c hd))

/-- The worker whose call for the notice has panicked. -/
def victim (c : Case) : List Nat :=
  if c.fate = some .panicked then [c.worker] else []

end Case

/-- The workers that a panic has ended. -/
def Pool.victims (p : Pool) : List Nat :=
  p.workers.gather (fun w (phase : WorkerPhase) => if phase = .crashed then [w] else [])

theorem Pool.victims_setPhase {p : Pool} {w : Nat} {old : WorkerPhase}
    (hkeys : (p.workers.map Prod.fst).Nodup) (hw : p.workers.get? w = some old)
    (new : WorkerPhase) :
  ((p.setPhase w new).victims ++ if old = .crashed then [w] else []).Perm
    (p.victims ++ if new = .crashed then [w] else [])
  := Keyed.gather_modify (fun w (phase : WorkerPhase) => if phase = .crashed then [w] else [])
      hkeys hw (fun _ => new)

/-- A worker is ended by one panic at most. -/
theorem Pool.nodup_victims {p : Pool} (hkeys : (p.workers.map Prod.fst).Nodup) :
  p.victims.Nodup
  := by
  have hsublist : ∀ workers : Keyed Nat WorkerPhase,
      (workers.flatMap fun entry => if entry.2 = .crashed then [entry.1] else []).Sublist
        (workers.map Prod.fst) := by
    intro workers
    induction workers with
    | nil => exact .slnil
    | cons entry workers ih =>
      rw [List.flatMap_cons, List.map_cons]
      split
      · exact ih.cons_cons entry.1
      · exact ih.cons entry.1
  exact hkeys.sublist (hsublist p.workers)

theorem Pool.mem_victims_iff {p : Pool} (hkeys : (p.workers.map Prod.fst).Nodup) {w : Nat} :
  w ∈ p.victims ↔ p.workers.get? w = some .crashed
  := by
  constructor
  · intro hmem
    obtain ⟨⟨k, phase⟩, hentry, hk⟩ := List.mem_flatMap.1 hmem
    simp only at hk
    split at hk
    · next hphase =>
      rw [List.mem_singleton.1 hk, Keyed.get?_of_mem hkeys hentry, hphase]
    · cases hk
  · intro hw
    exact List.mem_flatMap.2 ⟨(w, .crashed), Keyed.mem_of_get? hw, List.mem_singleton_self w⟩

namespace Workshop

variable {s t : Workshop} {capacity : Nat} {plan : DeliveryPlan} {handler : Handler}

/-- What lies on the desk of a worker. -/
def desk (s : Workshop) (w : Nat) : List Case :=
  s.cases.filter (·.isWith w)

/-- The cases are those of the notices that were taken: they lie on the desks of the workers, or
they are closed. -/
structure Filed (s : Workshop) : Prop where
  taken : s.exchange.told.filterMap (fun t => t.2.map fun n => (t.1, n))
    = s.cases.map (fun c => (.worker c.worker, c.notice))
  desks : ∀ w, Desk s.pool.plan.retries w (s.pool.workers.get? w) (s.desk w)
  closed : ∀ c ∈ s.cases, ∀ fate, c.fate = some fate →
    fate.Explains s.pool.plan.retries c.verdicts ∧ c.calls = c.verdicts.length
  victims : s.pool.victims.Perm (s.cases.flatMap Case.victim)
  abandoned : ∀ c ∈ s.cases, c.fate = some .abandoned → s.pool.isShutDown

namespace Filed

theorem opened :
  (opened capacity plan handler).Filed
  where
    taken := rfl
    desks _ := .absent
    closed := nofun
    victims := .nil
    abandoned := nofun

/-- Where neither the workers nor the cases change, nor what was taken. -/
theorem of_workers (h : s.Filed)
    (htaken : t.exchange.told.filterMap (fun t => t.2.map fun n => (t.1, n))
      = s.exchange.told.filterMap (fun t => t.2.map fun n => (t.1, n)))
    (hcases : t.cases = s.cases) (hplan : t.pool.plan = s.pool.plan)
    (hworkers : t.pool.workers = s.pool.workers)
    (hdown : s.pool.isShutDown → t.pool.isShutDown) :
  t.Filed
  := by
  constructor
  · rw [htaken, hcases]
    exact h.taken
  · intro w
    rw [desk, hplan, hworkers, hcases]
    exact h.desks w
  · rw [hplan, hcases]
    exact h.closed
  · rw [Pool.victims, hworkers, hcases]
    exact h.victims
  · intro c hc hfate
    rw [hcases] at hc
    exact hdown (h.abandoned c hc hfate)

/-- A worker without a notice goes on to another phase without one. -/
theorem free (h : s.Filed) (hkeys : (s.pool.workers.map Prod.fst).Nodup) {w : Nat}
    {old : WorkerPhase} (hw : s.pool.workers.get? w = some old) (new : WorkerPhase)
    (hold : old.isFree) (hnew : new.isFree) (hcrashed : old ≠ .crashed ∧ new ≠ .crashed)
    {exchange : Exchange}
    (htaken : exchange.told.filterMap (fun t => t.2.map fun n => (t.1, n))
      = s.exchange.told.filterMap (fun t => t.2.map fun n => (t.1, n))) :
  Filed { s with exchange, pool := s.pool.setPhase w new }
  where
    taken := htaken.trans h.taken
    desks k := by
      show Desk _ k ((s.pool.workers.modify w (fun _ => new)).get? k) (s.desk k)
      rw [Keyed.get?_modify hw]
      split
      · next hk =>
        have hdesk := h.desks k
        rw [hk, hw] at hdesk
        rw [hk, hdesk.eq_nil hold]
        exact .free hnew
      · exact h.desks k
    closed := h.closed
    victims := by
      have hperm := Pool.victims_setPhase hkeys hw new
      rw [if_neg hcrashed.1, if_neg hcrashed.2, List.append_nil, List.append_nil] at hperm
      exact hperm.trans h.victims
    abandoned := h.abandoned

theorem take (h : s.Filed) (hkeys : (s.pool.workers.map Prod.fst).Nodup) {w : Nat} {n : Notice}
    (hw : s.pool.workers.get? w = some .waiting) {bus : Bus} :
  Filed { s with
    exchange := { s.exchange with bus, told := s.exchange.told ++ [(.worker w, some n)] }
    pool := s.pool.setPhase w (.holding n)
    cases := s.cases ++ [{ worker := w, notice := n }] }
  where
    taken := by
      rw [List.filterMap_append, h.taken, List.map_append]
      rfl
    desks k := by
      show Desk _ k ((s.pool.workers.modify w (fun _ => .holding n)).get? k)
        ((s.cases ++ [_]).filter (·.isWith k))
      have hdesk := h.desks k
      rw [Keyed.get?_modify hw, List.filter_append]
      split
      · next hk =>
        subst hk
        rw [hw] at hdesk
        have hnil : s.cases.filter (·.isWith k) = [] := hdesk.eq_nil rfl
        rw [hnil]
        have hwith : Case.isWith { worker := k, notice := n } k = true := by
          simp [Case.isWith]
        rw [List.filter_cons_of_pos (p := fun c : Case => c.isWith k) hwith]
        exact .holding n
      · next hk =>
        have hwith : ¬ Case.isWith { worker := w, notice := n } k = true := by
          simp [Case.isWith, Ne.symm hk]
        rw [List.filter_cons_of_neg (p := fun c : Case => c.isWith k) hwith, List.filter_nil,
          List.append_nil]
        exact hdesk
    closed c hc := by
      rcases List.mem_append.1 hc with hc | hc
      · exact h.closed c hc
      · rw [List.mem_singleton.1 hc]
        intro fate hfate
        cases hfate
    victims := by
      have hperm := Pool.victims_setPhase hkeys hw (.holding n)
      rw [if_neg (by simp), if_neg (by simp), List.append_nil, List.append_nil] at hperm
      rw [List.flatMap_append]
      exact hperm.trans (h.victims.trans (by simp [Case.victim]))
    abandoned c hc hfate := by
      rcases List.mem_append.1 hc with hc | hc
      · exact h.abandoned c hc hfate
      · rw [List.mem_singleton.1 hc] at hfate
        cases hfate

/-- A case without a fate lies on the desk of its worker. -/
theorem mem_desk {c : Case} (hc : c ∈ s.cases) (hfate : c.fate = none) :
  c ∈ s.desk c.worker
  := by
  refine List.mem_filter.2 ⟨hc, ?_⟩
  simp [Case.isWith, hfate]

theorem isRetried (h : s.Filed) {c : Case} (hc : c ∈ s.cases) :
  c.IsRetried s.pool.plan.retries
  := by
  cases hfate : c.fate with
  | none => exact (h.desks c.worker).isRetried (mem_desk hc hfate)
  | some fate =>
    obtain ⟨hexplains, hcalls⟩ := h.closed c hc fate hfate
    exact hexplains.isRetried hcalls

/-- A worker that goes on with a notice has it on the desk. -/
theorem exists_case (h : s.Filed) {w : Nat} {n : Notice} {old new : WorkerPhase}
    {change : Case → Case} {seen : List String} {calls : List Call}
    (hw : s.pool.workers.get? w = some old)
    (htreats : s.pool.Treats n old new change seen calls) :
  ∃ c, s.desk w = [c] ∧ c.worker = w ∧ c.notice = n ∧ c.fate = none ∧
    Desk s.pool.plan.retries w (some old) [c]
  := by
  have hdesk := h.desks w
  rw [hw] at hdesk
  obtain ⟨c, hc, hworker, hnotice, hfate⟩ := htreats.exists_case hdesk
  rw [hc] at hdesk
  exact ⟨c, hc, hworker, hnotice, hfate, hdesk⟩

theorem treat (h : s.Filed) (hkeys : (s.pool.workers.map Prod.fst).Nodup) {w : Nat} {n : Notice}
    {old new : WorkerPhase} {change : Case → Case} {seen : List String} {calls : List Call}
    {pool : Pool} (hw : s.pool.workers.get? w = some old)
    (htreats : s.pool.Treats n old new change seen calls)
    (hpool : s.pool.Advances w new seen calls pool) :
  Filed { s with pool, cases := Case.amend s.cases w change }
  := by
  obtain ⟨c, hc, hworker, hnotice, hfate, hdesk⟩ := h.exists_case hw htreats
  have hkeeps := htreats.keeps
  constructor
  case taken =>
    refine h.taken.trans (Eq.symm (Case.map_amend fun c => ?_))
    rw [(hkeeps c).1, (hkeeps c).2]
  case desks =>
    intro k
    show Desk pool.plan.retries k (pool.workers.get? k)
      ((Case.amend s.cases w change).filter (·.isWith k))
    rw [hpool.get? hw, hpool.plan]
    split
    · next hk =>
      rw [hk, Case.desk_amend_self hc]
      exact htreats.desk hdesk
    · next hk =>
      rw [Case.desk_amend_of_ne hc (hkeeps c).1 hk]
      exact h.desks k
  case closed =>
    intro d hd fate hd'
    rw [hpool.plan]
    rcases Case.mem_amend hc hd with rfl | hd
    · exact htreats.explains hdesk hd'
    · exact h.closed d hd fate hd'
  case victims =>
    have hworkers : pool.victims = (s.pool.setPhase w new).victims := by
      rw [Pool.victims, hpool.workers, Pool.victims]
    have hphase := Pool.victims_setPhase hkeys hw new
    have hold : old ≠ .crashed := by
      rintro rfl
      cases htreats
    have hbefore : c.victim = [] := by
      rw [Case.victim, hfate]
      rfl
    have hafter : (change c).victim = if new = .crashed then [w] else [] := by
      rw [Case.victim, (hkeeps c).1, hworker]
      cases htreats with
      | skip | begin | reconcile | postpone | exhaust | crash | retry | abandon =>
        simp [Case.closed, Case.called, Case.judged, hfate]
    have hvictim : ((change c).victim).Perm (c.victim ++ if new = .crashed then [w] else []) := by
      rw [hbefore, hafter, List.nil_append]
    rw [if_neg hold, List.append_nil] at hphase
    rw [hworkers]
    refine hphase.trans ((h.victims.append_right _).trans ?_)
    exact (Case.flatMap_amend Case.victim hc hvictim).symm
  case abandoned =>
    intro d hd hd'
    rw [hpool.isShutDown]
    rcases Case.mem_amend hc hd with rfl | hd
    · cases htreats with
      | abandon hdown => exact hdown
      | begin | retry =>
        rw [Case.called, hfate] at hd'
        cases hd'
      | skip | reconcile | postpone | exhaust | crash => cases hd'
    · exact h.abandoned d hd hd'

theorem start (h : s.Filed) :
  Filed { s with pool := s.pool.start }
  where
    taken := h.taken
    desks k := by
      show Desk _ k (s.pool.start.workers.get? k) (s.desk k)
      have hdesk := h.desks k
      rcases s.pool.get?_start k with heq | ⟨hnone, hidle, -⟩
      · rw [heq]
        exact hdesk
      · rw [hnone] at hdesk
        rw [hidle]
        generalize s.desk k = l at hdesk
        cases hdesk with
        | absent => exact .free rfl
    closed := h.closed
    victims := by
      have hfresh : s.pool.start.victims = s.pool.victims := by
        simp [Pool.victims, Pool.start, Keyed.gather, List.flatMap_map]
      rw [hfresh]
      exact h.victims
    abandoned := h.abandoned

theorem step (h : s.Filed) (hs : s.Staffed) (hstep : s.Step t) :
  t.Filed
  := by
  cases hstep with
  | outside ha hmove =>
    obtain ⟨-, htold, -⟩ := Exchange.move_of_isOutside ha hmove
    exact h.of_workers (by rw [htold]) rfl rfl rfl id
  | ask hw => exact h.free hs.keys hw .waiting rfl rfl ⟨nofun, nofun⟩ rfl
  | take htakers => exact h.take hs.keys (hs.get?_of_takers htakers)
  | leave htakers =>
    refine h.free hs.keys (hs.get?_of_takers htakers) .ended rfl rfl ⟨nofun, nofun⟩ ?_
    rw [List.filterMap_append]
    exact List.append_nil _
  | treat hw htreats hpool => exact h.treat hs.keys hw htreats hpool
  | start => exact h.start
  | shutDown => exact h.of_workers rfl rfl rfl rfl fun _ => rfl
  | confirm | expire | stop | pass => exact h.of_workers rfl rfl rfl rfl id

end Filed

/-- The workers that panics have ended, one for each case that ended so. -/
theorem Filed.victims_perm (h : s.Filed) :
  s.pool.victims.Perm
    ((s.cases.filter (fun c => decide (c.fate = some .panicked))).map Case.worker)
  := by
  have hflat : ∀ cases : List Case, cases.flatMap Case.victim
      = (cases.filter (fun c => decide (c.fate = some .panicked))).map Case.worker := by
    intro cases
    induction cases with
    | nil => rfl
    | cons c cases ih =>
      rw [List.flatMap_cons, ih, List.filter_cons, Case.victim]
      by_cases hfate : c.fate = some .panicked
      · rw [if_pos hfate, if_pos (decide_eq_true hfate)]
        rfl
      · rw [if_neg hfate, if_neg (by simp [hfate])]
        rfl
  rw [← hflat]
  exact h.victims

/-- A worker was ended by a panic if this was the fate of a notice in its hands. -/
theorem Filed.crashed_iff (h : s.Filed) (hs : s.Staffed) {w : Nat} :
  s.pool.workers.get? w = some .crashed ↔
    ∃ c ∈ s.cases, c.worker = w ∧ c.fate = some .panicked
  := by
  rw [← Pool.mem_victims_iff hs.keys, h.victims_perm.mem_iff, List.mem_map]
  constructor
  · rintro ⟨c, hc, rfl⟩
    obtain ⟨hc, hfate⟩ := List.mem_filter.1 hc
    exact ⟨c, hc, rfl, of_decide_eq_true hfate⟩
  · rintro ⟨c, hc, rfl, hfate⟩
    exact ⟨c, List.mem_filter.2 ⟨hc, decide_eq_true hfate⟩, rfl⟩

theorem Runs.filed (h : (Workshop.opened capacity plan handler).Runs s) :
  s.Filed
  := by
  induction h with
  | refl => exact .opened
  | tail hruns hleads ih =>
    obtain ⟨m, hm⟩ := hleads
    exact ih.step (Runs.staffed hruns) (step_of_move hm)

end Workshop

end Reconciliation
