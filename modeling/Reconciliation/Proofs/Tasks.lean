import Reconciliation.Proofs.Slots

/-!
# The accounts of a runner

`Runner.Shift` lists what those at a runner do without a new call: a task in line gets its slot or
is dropped, a task goes from one phase to the next, a caller is told.  `Runner.Accounts` holds of a
new runner, and is kept by shifts, submissions, waits and tokens that fire: every slot is free or
held by a task under way, the errors are those of the failed tasks that have ended, and no task is
dropped or skipped before a token fires.

A runner whose callers wait once, after all submissions, keeps track of all tasks
(`Runner.HasWaiters`).
-/

namespace Reconciliation

/-- The error that a task brings which ends this way. -/
def TaskOutcome.faults : TaskOutcome → List Fault
  | .succeeded => []
  | .failed fault => [fault]
  | .panicked _ => []

/-- The error that a task in this phase has brought. -/
def TaskPhase.faults : TaskPhase → List Fault
  | .admitted => []
  | .running => []
  | .returned _ => []
  | .skipped => []
  | .ended outcome => outcome.faults

namespace Runner

variable {r r' : Runner} {caller : Party} {task : Nat}

theorem errorsWith_eq (errors : List Fault) (outcome : TaskOutcome) :
  errorsWith errors outcome = errors ++ outcome.faults
  := by
  cases outcome with
  | failed => rfl
  | succeeded | panicked => exact (List.append_nil errors).symm

/-! ### Shifts -/

/-- What those at a runner do without a new call. -/
inductive Shift (r : Runner) : Runner → Prop where
  | enter {caller : Party} {task : Nat} {r' : Runner} (h : r.enter? caller = some (task, r')) :
    Shift r r'
  | drop {caller : Party} {task : Nat} {r' : Runner} (h : r.drop? caller = some (task, r')) :
    Shift r r'
  /-- A task that is under way goes to another phase. -/
  | turn {task : Nat} {t : Task} {new : TaskPhase} {free : Nat} (h : r.tasks.get? task = some t)
      (hold : t.phase.isOver = false) (hskipped : new = .skipped → t.token ∈ r.fired)
      (hfree : free + new.slots = r.free + t.phase.slots) :
    Shift r { r.setPhase task new with free, errors := r.errors ++ new.faults }
  | report {caller : Party} {errors : List Fault} {r' : Runner}
      (h : r.report? caller = some (errors, r')) :
    Shift r r'

theorem shift_of_skip (h : r.skip? task = some r') :
  r.Shift r'
  := by
  obtain ⟨t, ht, hphase, hfired, rfl⟩ := skip?_eq_some h
  have hshift : r.Shift { r.setPhase task .skipped with
      free := r.free + 1
      errors := r.errors ++ TaskPhase.skipped.faults } :=
    .turn ht (by rw [hphase]; rfl) (fun _ => hfired) (by rw [hphase]; rfl)
  rw [TaskPhase.faults, List.append_nil] at hshift
  exact hshift

theorem shift_of_start (h : r.start? task = some r') :
  r.Shift r'
  := by
  obtain ⟨t, ht, hphase, -, rfl⟩ := start?_eq_some h
  have hshift : r.Shift { r.setPhase task .running with
      free := r.free
      errors := r.errors ++ TaskPhase.running.faults } :=
    .turn ht (by rw [hphase]; rfl) nofun (by rw [hphase]; rfl)
  rw [TaskPhase.faults, List.append_nil] at hshift
  exact hshift

theorem shift_of_finish {outcome : TaskOutcome} (h : r.finish? task outcome = some r') :
  r.Shift r'
  := by
  obtain ⟨hrunning, rfl⟩ := finish?_eq_some.1 h
  obtain ⟨t, ht, hphase⟩ := exists_of_phase? hrunning
  have hshift : r.Shift { r.setPhase task (.returned outcome) with
      free := r.free
      errors := r.errors ++ (TaskPhase.returned outcome).faults } :=
    .turn ht (by rw [hphase]; rfl) nofun (by rw [hphase]; rfl)
  rw [TaskPhase.faults, List.append_nil] at hshift
  exact hshift

theorem shift_of_collect {outcome : TaskOutcome} (h : r.collect? task = some (outcome, r')) :
  r.Shift r'
  := by
  obtain ⟨hreturned, rfl⟩ := collect?_eq_some h
  obtain ⟨t, ht, hphase⟩ := exists_of_phase? hreturned
  rw [errorsWith_eq]
  exact .turn ht (by rw [hphase]; rfl) nofun (by rw [hphase]; rfl)

/-! ### Accounts -/

/-- The errors of the failed tasks that have ended. -/
def taskErrors (r : Runner) : List Fault :=
  Keyed.gather (fun _ t => t.phase.faults) r.tasks

/-- Every slot, every error and every task is accounted for. -/
structure Accounts (r : Runner) : Prop where
  numbered : r.Numbered
  slots : r.free + r.taken = r.capacity
  errors : r.errors.Perm r.taskErrors
  all : r.fired = [] → ∀ k < r.submitted, k ∈ r.numbers
  unskipped : r.fired = [] → ∀ k, r.phase? k ≠ some .skipped

theorem accounts_ofCapacity (n : Nat) :
  (ofCapacity n).Accounts
  where
    numbered := numbered_ofCapacity n
    slots := rfl
    errors := .nil
    all := nofun
    unskipped := nofun

namespace Accounts

/-- There are never more tasks under way than there are slots. -/
theorem length_underWay_le (h : r.Accounts) :
  r.underWay.length ≤ r.capacity
  := by
  rw [length_underWay, ← h.slots]
  exact Nat.le_add_left _ _

theorem submit (h : r.Accounts) (caller : Party) (token : Token) :
  (r.submit caller token).Accounts
  where
    numbered := h.numbered.of_numbers_cons (numbers_submit r caller token) rfl
    slots := h.slots
    errors := h.errors
    all hfired k hk := by
      rw [(numbers_submit r caller token).mem_iff]
      rcases Nat.lt_succ_iff_lt_or_eq.1 hk with hlt | rfl
      · exact List.mem_cons_of_mem _ (h.all hfired k hlt)
      · exact List.mem_cons_self
    unskipped := h.unskipped

theorem wait (h : r.Accounts) (caller : Party) :
  (r.wait caller).Accounts
  := ⟨⟨h.numbered.nodup, h.numbered.lt_submitted⟩, h.slots, h.errors, h.all, h.unskipped⟩

theorem enter (h : r.Accounts) (henter : r.enter? caller = some (task, r')) :
  r'.Accounts
  := by
  have hnumbers := numbers_of_enter henter
  obtain ⟨s, line, hline, -, rfl, hfree, rfl⟩ := enter?_eq_some henter
  have hnone := h.numbered.phase?_of_mem_line (s := s) (by rw [hline]; exact List.mem_cons_self)
  constructor
  · exact h.numbered.of_numbers_perm hnumbers rfl
  · have htotal := Keyed.total_add (fun t => t.phase.slots) r.tasks s.task { token := s.token }
    have hslots := h.slots
    simp only [taken] at hslots ⊢
    rw [htotal]
    show r.free - 1 + (_ + 1) = r.capacity
    omega
  · show r.errors.Perm (Keyed.gather _ (r.tasks.add s.task { token := s.token }))
    rw [Keyed.gather_add]
    exact h.errors.trans (.of_eq (List.append_nil _).symm)
  · intro hfired k hk
    rw [hnumbers.mem_iff]
    exact h.all hfired k hk
  · intro hfired k hk
    have hk' := (phase?_add hnone { token := s.token } k).symm.trans hk
    split at hk'
    · cases hk'
    · exact h.unskipped hfired k hk'

theorem drop (h : r.Accounts) (hdrop : r.drop? caller = some (task, r')) :
  r'.Accounts
  := by
  have hnumbers := numbers_of_drop hdrop
  obtain ⟨s, -, -, -, hfired, rfl⟩ := drop?_eq_some hdrop
  have hne : r.fired ≠ [] := List.ne_nil_of_mem hfired
  exact ⟨h.numbered.of_numbers_sublist hnumbers rfl, h.slots, h.errors,
    fun hnil => absurd hnil hne, h.unskipped⟩

theorem turn (h : r.Accounts) {t : Task} {new : TaskPhase} {free : Nat}
    (ht : r.tasks.get? task = some t) (hold : t.phase.isOver = false)
    (hskipped : new = .skipped → t.token ∈ r.fired)
    (hfree : free + new.slots = r.free + t.phase.slots) :
  Accounts { r.setPhase task new with free, errors := r.errors ++ new.faults }
  := by
  have hkeys := h.numbered.keys
  have hphase := phase?_of_get? ht
  constructor
  · exact h.numbered.of_numbers_perm (.of_eq (numbers_setPhase r task new)) rfl
  · have htaken := taken_setPhase hkeys hphase new
    have hslots := h.slots
    show free + (r.setPhase task new).taken = r.capacity
    omega
  · -- A task under way has brought no error yet, so its entry adds what the new phase brings.
    have hnone : t.phase.faults = [] := by
      cases hcase : t.phase with
      | admitted | running | returned | skipped => rfl
      | ended =>
        rw [hcase] at hold
        cases hold
    have hgather := Keyed.gather_modify (fun _ t => t.phase.faults) hkeys ht
      (fun t => { t with phase := new })
    dsimp only at hgather
    rw [hnone, List.append_nil] at hgather
    exact (h.errors.append_right _).trans hgather.symm
  · intro hfired k hk
    show k ∈ (r.setPhase task new).numbers
    rw [numbers_setPhase]
    exact h.all hfired k hk
  · intro hfired k hk
    have hk' := (phase?_setPhase hphase new k).symm.trans hk
    split at hk'
    · have hmem := hskipped (Option.some.inj hk')
      rw [show r.fired = [] from hfired] at hmem
      cases hmem
    · exact h.unskipped hfired k hk'

theorem shift (h : r.Accounts) (hshift : r.Shift r') :
  r'.Accounts
  := by
  cases hshift with
  | enter henter => exact h.enter henter
  | drop hdrop => exact h.drop hdrop
  | turn ht hold hskipped hfree => exact h.turn ht hold hskipped hfree
  | report hreport =>
    obtain ⟨w, -, -, -, -, rfl⟩ := report?_eq_some hreport
    exact ⟨⟨h.numbered.nodup, h.numbered.lt_submitted⟩, h.slots, h.errors, h.all, h.unskipped⟩

theorem fire (h : r.Accounts) (token : Token) :
  (r.fire token).Accounts
  := ⟨⟨h.numbered.nodup, h.numbered.lt_submitted⟩, h.slots, h.errors, nofun, nofun⟩

end Accounts

/-- Neither the number of slots nor the tokens that have fired change. -/
theorem Shift.constant (h : r.Shift r') :
  r'.capacity = r.capacity ∧ r'.fired = r.fired
  := by
  cases h with
  | enter h =>
    obtain ⟨_, _, _, _, _, _, rfl⟩ := enter?_eq_some h
    exact ⟨rfl, rfl⟩
  | drop h =>
    obtain ⟨_, _, _, _, _, rfl⟩ := drop?_eq_some h
    exact ⟨rfl, rfl⟩
  | report h =>
    obtain ⟨_, _, _, _, _, rfl⟩ := report?_eq_some h
    exact ⟨rfl, rfl⟩
  | turn => exact ⟨rfl, rfl⟩

/-- The error that a task has brought so far. -/
def faultsOf (r : Runner) (task : Nat) : List Fault :=
  (r.phase? task).elim [] TaskPhase.faults

/-- The errors are those that the tasks have brought, whether they were admitted or not. -/
theorem Accounts.errors_perm (h : r.Accounts) :
  r.errors.Perm ((List.range r.submitted).flatMap r.faultsOf)
  := by
  have hkeys := h.numbered.keys
  have hadmitted : r.taskErrors = (r.tasks.map Prod.fst).flatMap r.faultsOf := by
    rw [taskErrors, Keyed.gather_eq_flatMap _ hkeys]
    apply List.flatMap_congr
    intro k _
    rw [faultsOf, phase?]
    cases r.tasks.get? k with
    | none => rfl
    | some t => rfl
  -- The tasks that were not admitted have brought none.
  let others := (List.range r.submitted).filter (fun k => !decide (k ∈ r.tasks.map Prod.fst))
  have hothers : others.flatMap r.faultsOf = [] := by
    rw [List.flatMap_eq_nil_iff]
    intro k hk
    have hnone : k ∉ r.tasks.map Prod.fst := by simpa using (List.mem_filter.1 hk).2
    rw [faultsOf, phase?_eq_none_iff.2 hnone]
    rfl
  have hperm : (r.tasks.map Prod.fst ++ others).Perm (List.range r.submitted) := by
    refine List.Perm.trans (List.Perm.append_right _ ?_) (List.filter_append_perm _ _)
    rw [List.perm_ext_iff_of_nodup hkeys (List.nodup_range.filter _)]
    intro k
    rw [List.mem_filter, List.mem_range, decide_eq_true_eq]
    exact ⟨fun hk => ⟨h.numbered.lt_submitted k (List.mem_append_right _ hk), hk⟩, And.right⟩
  have hflat := hperm.flatMap_right r.faultsOf
  rw [List.flatMap_append, hothers, List.append_nil, ← hadmitted] at hflat
  exact h.errors.trans hflat

/-! ### One wait for all tasks -/

/-- Nobody has waited yet, so that the next wait takes over all tasks. -/
structure IsUnwaited (r : Runner) : Prop where
  waits : r.waits = []
  current : r.current = r.tasks.map Prod.fst

theorem isUnwaited_ofCapacity (n : Nat) :
  (ofCapacity n).IsUnwaited
  := ⟨rfl, rfl⟩

theorem IsUnwaited.submit (h : r.IsUnwaited) (caller : Party) (token : Token) :
  (r.submit caller token).IsUnwaited
  := ⟨h.waits, h.current⟩

theorem IsUnwaited.shift (h : r.IsUnwaited) (hshift : r.Shift r') :
  r'.IsUnwaited
  := by
  cases hshift with
  | enter henter =>
    obtain ⟨s, line, -, -, rfl, -, rfl⟩ := enter?_eq_some henter
    refine ⟨h.waits, ?_⟩
    show r.current ++ [s.task] = (r.tasks.add s.task _).map Prod.fst
    rw [Keyed.keys_add, h.current]
  | drop hdrop =>
    obtain ⟨_, _, _, _, _, rfl⟩ := drop?_eq_some hdrop
    exact ⟨h.waits, h.current⟩
  | turn => exact ⟨h.waits, h.current.trans (keys_setPhase r _ _).symm⟩
  | report hreport =>
    obtain ⟨w, hw, -⟩ := report?_eq_some hreport
    rw [h.waits] at hw
    cases hw

theorem IsUnwaited.fire (h : r.IsUnwaited) (token : Token) :
  (r.fire token).IsUnwaited
  := ⟨h.waits, h.current⟩

/-- Nobody waits for a slot, and those who wait for tasks to end wait for all of them. -/
structure HasWaiters (r : Runner) : Prop where
  line : r.line = []
  waits : ∀ w ∈ r.waits, w.tasks = r.tasks.map Prod.fst

theorem IsUnwaited.wait (h : r.IsUnwaited) (hline : r.line = []) (caller : Party) :
  (r.wait caller).HasWaiters
  where
    line := hline
    waits w hw := by
      have hwaits : (r.wait caller).waits = [{ caller, tasks := r.current }] := by
        rw [Runner.wait, h.waits, List.nil_append]
      rw [hwaits, List.mem_singleton] at hw
      rw [hw]
      exact h.current

theorem HasWaiters.shift (h : r.HasWaiters) (hshift : r.Shift r') :
  r'.HasWaiters
  := by
  cases hshift with
  | enter henter =>
    obtain ⟨_, _, hline, -⟩ := enter?_eq_some henter
    rw [h.line] at hline
    cases hline
  | drop hdrop =>
    obtain ⟨s, hs, -⟩ := drop?_eq_some hdrop
    rw [h.line] at hs
    cases hs
  | turn => exact ⟨h.line, fun w hw => (h.waits w hw).trans (keys_setPhase r _ _).symm⟩
  | report hreport =>
    obtain ⟨w, -, -, -, -, rfl⟩ := report?_eq_some hreport
    exact ⟨h.line, fun w hw => h.waits w (List.mem_of_mem_eraseP hw)⟩

theorem HasWaiters.fire (h : r.HasWaiters) (token : Token) :
  (r.fire token).HasWaiters
  := ⟨h.line, h.waits⟩

/-- Once one of them is told, all tasks are over. -/
theorem HasWaiters.isOver (h : r.HasWaiters) {errors : List Fault}
    (hreport : r.report? caller = some (errors, r')) {phase : TaskPhase}
    (hphase : r.phase? task = some phase) :
  phase.isOver = true
  := by
  obtain ⟨w, hw, -, hall, -⟩ := report?_eq_some hreport
  rw [h.waits w hw, List.all_eq_true] at hall
  have hover := hall task (exists_phase?_iff.1 ⟨phase, hphase⟩)
  rw [Runner.isOver, hphase] at hover
  exact hover

end Runner

end Reconciliation
