import Reconciliation.Proofs.Workshop

/-!
# What is on the desks

Every notice that a worker has taken lies on the desk of that worker until the worker is done with
it.  What is on a desk fits what its worker does (`Desk`), and a notice that the worker is done with
has met a fate that the verdicts on its calls explain (`Fate.Explains`).
-/

namespace Reconciliation

/-! ### Desks -/

/-- The verdicts on the calls for a notice that has met a fate: the last call decides, and it is not
repeated more often than the plan allows. -/
def Fate.Explains (retries : Nat) : Fate → List Verdict → Prop
  | .duplicate, verdicts => verdicts = []
  | .reconciled, verdicts => ∃ failures, verdicts = failures ++ [.reconciled] ∧
      failures.all Verdict.isFailed ∧ failures.length ≤ retries
  | .exhausted, verdicts => verdicts.all Verdict.isFailed ∧ verdicts.length = retries + 1
  | .abandoned, verdicts => verdicts.all Verdict.isFailed ∧ 0 < verdicts.length ∧
      verdicts.length ≤ retries
  | .panicked, verdicts => ∃ failures, verdicts = failures ++ [.panicked] ∧
      failures.all Verdict.isFailed ∧ failures.length ≤ retries

/-- The handler is called again only after all earlier calls for the notice have failed, and not
more often than the plan allows. -/
structure Case.IsRetried (retries : Nat) (c : Case) : Prop where
  calls_le : c.calls ≤ retries + 1
  verdicts : c.calls ≤ c.verdicts.length + 1
  failures : (c.verdicts.take (c.calls - 1)).all Verdict.isFailed

/-- A closed case was tried as often as there are verdicts. -/
theorem Fate.Explains.isRetried {retries : Nat} {fate : Fate} {c : Case}
    (h : fate.Explains retries c.verdicts) (hcalls : c.calls = c.verdicts.length) :
  c.IsRetried retries
  := by
  have hlast : ∀ failures v, c.verdicts = failures ++ [v] → failures.all Verdict.isFailed →
      failures.length ≤ retries → c.IsRetried retries := by
    intro failures v hverdicts hfailures hle
    rw [hverdicts, List.length_append, List.length_singleton] at hcalls
    refine ⟨by omega, by rw [hverdicts, List.length_append, List.length_singleton]; omega, ?_⟩
    rw [hcalls, hverdicts, Nat.add_sub_cancel, List.take_left]
    exact hfailures
  have hall : ∀ {n}, c.verdicts.all Verdict.isFailed → c.verdicts.length ≤ n → n ≤ retries + 1 →
      c.IsRetried retries := by
    intro n hfailures hle hn
    refine ⟨by omega, by omega, ?_⟩
    rw [List.all_eq_true] at hfailures ⊢
    exact fun v hv => hfailures v (List.mem_of_mem_take hv)
  cases fate with
  | duplicate =>
    have hnil : c.verdicts = [] := h
    exact hall (by rw [hnil]; rfl) (Nat.le_of_eq (by rw [hnil]; rfl)) (Nat.zero_le _)
  | reconciled | panicked =>
    obtain ⟨failures, hverdicts, hfailures, hle⟩ := h
    exact hlast failures _ hverdicts hfailures hle
  | exhausted => exact hall h.1 (Nat.le_of_eq h.2) (Nat.le_refl _)
  | abandoned => exact hall h.1 h.2.2 (Nat.le_succ _)

/-- What was only tried in vain, and could be tried again, was not tried at all or was given up. -/
theorem Fate.Explains.eq_of_failed {retries : Nat} {fate : Fate} {verdicts : List Verdict}
    (h : fate.Explains retries verdicts) (hfailed : verdicts.all Verdict.isFailed)
    (hle : verdicts.length ≤ retries) :
  fate = .duplicate ∨ fate = .abandoned
  := by
  cases fate with
  | duplicate => exact .inl rfl
  | abandoned => exact .inr rfl
  | reconciled | panicked =>
    obtain ⟨failures, rfl, -⟩ := h
    rw [List.all_append, Bool.and_eq_true] at hfailed
    cases hfailed.2
  | exhausted =>
    rw [h.2] at hle
    exact absurd hle (Nat.not_succ_le_self retries)

/-- A worker with no notice in its hands. -/
def WorkerPhase.isFree : WorkerPhase → Bool
  | .idle => true
  | .waiting => true
  | .ended => true
  | .crashed => true
  | .holding _ => false
  | .calling _ _ _ _ => false
  | .asleep _ _ _ => false

/-- What lies on the desk of a worker, which may not have been started: the notice in its hands,
with a call for it after so many failed ones, or with a failed one that is to be repeated. -/
inductive Desk (retries w : Nat) : Option WorkerPhase → List Case → Prop where
  | absent : Desk retries w none []
  | free {phase : WorkerPhase} (h : phase.isFree) : Desk retries w (some phase) []
  | holding (n : Notice) : Desk retries w (some (.holding n)) [{ worker := w, notice := n }]
  | calling {n : Notice} {attempt nth finish : Nat} {failures : List Verdict}
      (hfailures : failures.all Verdict.isFailed) (hlength : failures.length = attempt)
      (hattempt : attempt ≤ retries) :
    Desk retries w (some (.calling n attempt nth finish))
      [{ worker := w, notice := n, calls := attempt + 1, verdicts := failures }]
  | asleep {n : Notice} {attempt due : Nat} {failures : List Verdict}
      (hfailures : failures.all Verdict.isFailed) (hlength : failures.length = attempt + 1)
      (hattempt : attempt < retries) :
    Desk retries w (some (.asleep n attempt due))
      [{ worker := w, notice := n, calls := attempt + 1, verdicts := failures }]

namespace Desk

variable {retries w : Nat} {phase : WorkerPhase} {l : List Case}

theorem isWithin (h : Desk retries w (some phase) l) :
  phase.IsWithin retries
  := by
  cases h with
  | free h =>
    cases phase with
    | idle | waiting | ended | crashed => trivial
    | holding | calling | asleep => cases h
  | holding => trivial
  | calling _ _ hattempt => exact hattempt
  | asleep _ _ hattempt => exact hattempt

theorem eq_nil (h : Desk retries w (some phase) l) (hfree : phase.isFree) :
  l = []
  := by
  cases h with
  | free => rfl
  | holding | calling | asleep => cases hfree

theorem isRetried {o : Option WorkerPhase} (h : Desk retries w o l) {c : Case} (hc : c ∈ l) :
  c.IsRetried retries
  := by
  cases h with
  | absent | free => cases hc
  | holding n =>
    rw [List.mem_singleton.1 hc]
    exact ⟨Nat.zero_le _, Nat.zero_le _, rfl⟩
  | calling hfailures hlength hattempt | asleep hfailures hlength hattempt =>
    rw [List.mem_singleton.1 hc]
    refine ⟨by dsimp only; omega, by dsimp only; omega, ?_⟩
    rw [List.all_eq_true] at hfailures ⊢
    exact fun v hv => hfailures v (List.mem_of_mem_take hv)

theorem length_le {o : Option WorkerPhase} (h : Desk retries w o l) :
  l.length ≤ 1
  := by
  cases h with
  | absent | free => exact Nat.zero_le 1
  | holding | calling | asleep => exact Nat.le_refl 1

theorem isFree_of_fates (h : Desk retries w (some phase) l) (hfates : ∀ c ∈ l, c.fate ≠ none) :
  phase.isFree
  := by
  cases h with
  | free hfree => exact hfree
  | holding | calling | asleep => exact absurd rfl (hfates _ (List.mem_singleton_self _))

/-- What is on a desk is all there is on it, and the worker has its notice in the hands. -/
theorem eq_of_mem {o : Option WorkerPhase} {c : Case} (h : Desk retries w o l) (hc : c ∈ l) :
  l = [c] ∧ ∃ phase, o = some phase ∧ phase.isFree = false
  := by
  cases h with
  | absent | free => cases hc
  | holding | calling | asleep =>
    rw [List.mem_singleton.1 hc]
    exact ⟨rfl, _, rfl, rfl⟩

/-- A notice that is to be tried again was tried before. -/
theorem calls_of_asleep {n : Notice} {attempt due : Nat} {c : Case}
    (h : Desk retries w (some (.asleep n attempt due)) [c]) :
  c.calls = attempt + 1
  := by
  cases h with
  | asleep => rfl

/-- The verdicts before a call are on those that have failed. -/
theorem length_of_calling {n : Notice} {attempt nth finish : Nat} {c : Case}
    (h : Desk retries w (some (.calling n attempt nth finish)) [c]) :
  c.verdicts.length = attempt
  := by
  cases h with
  | calling _ hlength => exact hlength

end Desk

namespace Pool.Treats

variable {p : Pool} {n : Notice} {old new : WorkerPhase} {change : Case → Case}
  {seen : List String} {calls : List Call} {w : Nat} {l : List Case}

/-- The notice stays what it is, and so does the worker that has it. -/
theorem keeps (h : p.Treats n old new change seen calls) (c : Case) :
  (change c).worker = c.worker ∧ (change c).notice = c.notice
  := by
  cases h with
  | _ => exact ⟨rfl, rfl⟩

/-- Who goes on with a notice has it on the desk. -/
theorem exists_case (h : p.Treats n old new change seen calls)
    (hdesk : Desk p.plan.retries w (some old) l) :
  ∃ c, l = [c] ∧ c.worker = w ∧ c.notice = n ∧ c.fate = none
  := by
  cases h with
  | skip | begin =>
    cases hdesk with
    | free h => cases h
    | holding => exact ⟨_, rfl, rfl, rfl, rfl⟩
  | reconcile | postpone | exhaust | crash =>
    cases hdesk with
    | free h => cases h
    | calling => exact ⟨_, rfl, rfl, rfl, rfl⟩
  | retry | abandon =>
    cases hdesk with
    | free h => cases h
    | asleep => exact ⟨_, rfl, rfl, rfl, rfl⟩

theorem all_concat {failures : List Verdict} (h : failures.all Verdict.isFailed) (fault : Fault) :
  (failures ++ [Verdict.failed fault]).all Verdict.isFailed
  := by
  rw [List.all_append, h]
  rfl

/-- What lies on the desk afterwards. -/
theorem desk (h : p.Treats n old new change seen calls) {c : Case}
    (hdesk : Desk p.plan.retries w (some old) [c]) :
  Desk p.plan.retries w (some new) ([change c].filter (·.isWith w))
  := by
  have hself : (w == w) = true := beq_self_eq_true w
  cases h with
  | skip =>
    cases hdesk with
    | holding =>
      simp only [List.filter, Case.closed, Case.isWith, hself]
      exact .free rfl
  | begin =>
    cases hdesk with
    | holding =>
      simp only [List.filter, Case.called, Case.isWith, hself]
      exact .calling rfl rfl (Nat.zero_le _)
  | reconcile | crash =>
    cases hdesk with
    | calling =>
      simp only [List.filter, Case.judged, Case.isWith, hself]
      exact .free rfl
  | exhaust =>
    cases hdesk with
    | calling =>
      simp only [List.filter, Case.judged, Case.isWith, hself]
      exact .free rfl
  | postpone due hverdict hattempt =>
    cases hdesk with
    | calling hfailures hlength =>
      simp only [List.filter, Case.judged, Case.isWith, hself]
      refine .asleep (all_concat hfailures _) ?_ hattempt
      rw [List.length_append, hlength]
      rfl
  | retry =>
    cases hdesk with
    | asleep hfailures hlength hattempt =>
      simp only [List.filter, Case.called, Case.isWith, hself]
      exact .calling hfailures hlength hattempt
  | abandon =>
    cases hdesk with
    | asleep =>
      simp only [List.filter, Case.closed, Case.isWith, hself]
      exact .free rfl

/-- A notice that a worker is done with has met a fate that the verdicts explain. -/
theorem explains (h : p.Treats n old new change seen calls) {c : Case}
    (hdesk : Desk p.plan.retries w (some old) [c]) {fate : Fate}
    (hfate : (change c).fate = some fate) :
  fate.Explains p.plan.retries (change c).verdicts ∧
    (change c).calls = (change c).verdicts.length
  := by
  cases h with
  | skip =>
    cases hdesk with
    | holding =>
      cases hfate
      exact ⟨rfl, rfl⟩
  | begin =>
    cases hdesk with
    | holding => cases hfate
  | reconcile | crash =>
    cases hdesk with
    | calling hfailures hlength hattempt =>
      cases hfate
      refine ⟨⟨_, rfl, hfailures, by rw [hlength]; exact hattempt⟩, ?_⟩
      rw [Case.judged, List.length_append, hlength]
      rfl
  | postpone =>
    cases hdesk with
    | calling => cases hfate
  | exhaust hverdict hlast =>
    cases hdesk with
    | calling hfailures hlength hattempt =>
      cases hfate
      refine ⟨⟨all_concat hfailures _, ?_⟩, ?_⟩
      · rw [Case.judged, List.length_append, hlength, Nat.le_antisymm hattempt (Nat.not_lt.1 hlast)]
        rfl
      · rw [Case.judged, List.length_append, hlength]
        rfl
  | retry =>
    cases hdesk with
    | asleep => cases hfate
  | abandon =>
    cases hdesk with
    | asleep hfailures hlength hattempt =>
      cases hfate
      refine ⟨⟨hfailures, ?_, ?_⟩, hlength.symm⟩
      · rw [Case.closed, hlength]
        exact Nat.succ_pos _
      · rw [Case.closed, hlength]
        exact hattempt

end Pool.Treats

end Reconciliation
