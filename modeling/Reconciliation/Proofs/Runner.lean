import Reconciliation.Proofs.Keyed
import Reconciliation.Runner

/-!
# The bookkeeping of a runner

What each operation of a runner that is possible finds and does; and the numbers of its tasks,
which are never in use twice (`Runner.Numbered`).
-/

namespace Reconciliation.Runner

variable {r r' : Runner} {caller : Party} {task other : Nat}

/-! ### Phases -/

theorem phase?_of_get? {t : Task} (h : r.tasks.get? task = some t) :
  r.phase? task = some t.phase
  := by
  rw [phase?, h]
  rfl

theorem exists_of_phase? {phase : TaskPhase} (h : r.phase? task = some phase) :
  ∃ t, r.tasks.get? task = some t ∧ t.phase = phase
  := Option.map_eq_some_iff.1 h

/-- A new phase shows at its own task and at no other. -/
theorem phase?_setPhase {old : TaskPhase} (h : r.phase? task = some old) (new : TaskPhase)
    (k : Nat) :
  (r.setPhase task new).phase? k = if k = task then some new else r.phase? k
  := by
  obtain ⟨t, ht, -⟩ := exists_of_phase? h
  rw [phase?, setPhase, Keyed.get?_modify ht]
  split
  · rfl
  · rfl

/-- A task that no phase is known of has no entry. -/
theorem phase?_eq_none_iff :
  r.phase? task = none ↔ task ∉ r.tasks.map Prod.fst
  := by
  rw [phase?, Option.map_eq_none_iff, Keyed.get?_eq_none_iff]

/-- The admitted tasks are those that a phase is known of. -/
theorem exists_phase?_iff :
  (∃ phase, r.phase? task = some phase) ↔ task ∈ r.tasks.map Prod.fst
  := by
  rw [← Option.ne_none_iff_exists', ne_eq, phase?_eq_none_iff, not_not]

/-- The phase of an admitted task shows at that task and at no other. -/
theorem phase?_add (h : r.phase? task = none) (t : Task) (k : Nat) :
  { r with tasks := r.tasks.add task t }.phase? k
    = if k = task then some t.phase else r.phase? k
  := by
  rw [phase?]
  split
  · next hk =>
    subst hk
    rw [Keyed.get?_add_self (Option.map_eq_none_iff.1 h)]
    rfl
  · next hk =>
    rw [Keyed.get?_add_of_ne hk]
    rfl

/-! ### Operations -/

/-- The task that enters is the first in line, and there is a slot for it. -/
theorem enter?_eq_some (h : r.enter? caller = some (task, r')) :
  ∃ s line, r.line = s :: line ∧ s.caller = caller ∧ s.task = task ∧ 0 < r.free ∧
    r' = { r with
      free := r.free - 1
      line
      tasks := r.tasks.add task { token := s.token }
      current := r.current ++ [task] }
  := by
  unfold enter? at h
  split at h
  · cases h
  · next s line hline =>
    split at h
    · next hs =>
      cases h
      exact ⟨s, line, hline, hs.1, rfl, hs.2, rfl⟩
    · cases h

/-- A dropped task was in line, and its token has fired. -/
theorem drop?_eq_some (h : r.drop? caller = some (task, r')) :
  ∃ s ∈ r.line, s.caller = caller ∧ s.task = task ∧ s.token ∈ r.fired ∧
    r' = { r with line := r.line.eraseP (fun s => s.caller == caller) }
  := by
  unfold drop? at h
  split at h
  · cases h
  · next s hfind =>
    split at h
    · next hs =>
      cases h
      have hcaller := List.find?_some hfind
      exact ⟨s, List.mem_of_find?_eq_some hfind, by simpa using hcaller, rfl, hs, rfl⟩
    · cases h

theorem skip?_eq_some (h : r.skip? task = some r') :
  ∃ t, r.tasks.get? task = some t ∧ t.phase = .admitted ∧ t.token ∈ r.fired ∧
    r' = { r.setPhase task .skipped with free := r.free + 1 }
  := by
  unfold skip? at h
  split at h
  · next token hget =>
    split at h
    · next hfired =>
      cases h
      exact ⟨_, hget, rfl, hfired, rfl⟩
    · cases h
  · cases h

theorem start?_eq_some (h : r.start? task = some r') :
  ∃ t, r.tasks.get? task = some t ∧ t.phase = .admitted ∧ t.token ∉ r.fired ∧
    r' = r.setPhase task .running
  := by
  unfold start? at h
  split at h
  · next token hget =>
    split at h
    · cases h
    · next hfired =>
      cases h
      exact ⟨_, hget, rfl, hfired, rfl⟩
  · cases h

theorem finish?_eq_some {outcome : TaskOutcome} :
  r.finish? task outcome = some r'
    ↔ r.phase? task = some .running ∧ r' = r.setPhase task (.returned outcome)
  := by
  unfold finish?
  split
  · next h => simp [h, eq_comm]
  · next h =>
    constructor
    · intro h'
      cases h'
    · rintro ⟨h', -⟩
      exact absurd h' h

theorem collect?_eq_some {outcome : TaskOutcome} (h : r.collect? task = some (outcome, r')) :
  r.phase? task = some (.returned outcome) ∧
    r' = { r.setPhase task (.ended outcome) with
      free := r.free + 1
      errors := errorsWith r.errors outcome }
  := by
  unfold collect? at h
  split at h
  · next o hphase =>
    cases h
    exact ⟨hphase, rfl⟩
  · cases h

/-- A caller that reports had a wait, all of whose tasks are over. -/
theorem report?_eq_some {errors : List Fault} (h : r.report? caller = some (errors, r')) :
  ∃ w ∈ r.waits, w.caller = caller ∧ w.tasks.all r.isOver ∧ errors = r.errors ∧
    r' = { r with waits := r.waits.eraseP (fun w => w.caller == caller) }
  := by
  unfold report? at h
  split at h
  · cases h
  · next w hfind =>
    split at h
    · next hw =>
      cases h
      have hcaller := List.find?_some hfind
      exact ⟨w, List.mem_of_find?_eq_some hfind, by simpa using hcaller, hw, rfl, rfl⟩
    · cases h

/-! ### Numbers -/

/-- The numbers of the tasks in line and of the admitted tasks. -/
def numbers (r : Runner) : List Nat :=
  r.line.map Submission.task ++ r.tasks.map Prod.fst

theorem keys_setPhase (r : Runner) (task : Nat) (phase : TaskPhase) :
  (r.setPhase task phase).tasks.map Prod.fst = r.tasks.map Prod.fst
  := Keyed.keys_modify r.tasks task (fun t => { t with phase })

theorem numbers_setPhase (r : Runner) (task : Nat) (phase : TaskPhase) :
  (r.setPhase task phase).numbers = r.numbers
  := by
  rw [numbers, keys_setPhase]
  rfl

theorem numbers_submit (r : Runner) (caller : Party) (token : Token) :
  (r.submit caller token).numbers.Perm (r.submitted :: r.numbers)
  := by
  simp only [numbers, submit, List.map_append, List.map_singleton, List.append_assoc]
  exact List.perm_middle

theorem numbers_of_enter (h : r.enter? caller = some (task, r')) :
  r'.numbers.Perm r.numbers
  := by
  obtain ⟨s, line, hline, -, rfl, -, rfl⟩ := enter?_eq_some h
  simp only [numbers, hline, Keyed.keys_add, List.map_cons, ← List.append_assoc]
  exact List.perm_append_singleton _ _

theorem numbers_of_drop (h : r.drop? caller = some (task, r')) :
  r'.numbers.Sublist r.numbers
  := by
  obtain ⟨s, -, -, -, -, rfl⟩ := drop?_eq_some h
  exact (List.eraseP_sublist.map _).append_right _

/-- No number is in use twice, and those in use were handed out. -/
structure Numbered (r : Runner) : Prop where
  nodup : r.numbers.Nodup
  lt_submitted : ∀ n ∈ r.numbers, n < r.submitted

namespace Numbered

theorem keys (h : r.Numbered) :
  (r.tasks.map Prod.fst).Nodup
  := (List.nodup_append.1 h.nodup).2.1

/-- A task in line has no phase yet. -/
theorem phase?_of_mem_line (h : r.Numbered) {s : Submission} (hs : s ∈ r.line) :
  r.phase? s.task = none
  := by
  rw [phase?_eq_none_iff]
  intro hmem
  exact (List.nodup_append.1 h.nodup).2.2 _ (List.mem_map_of_mem hs) _ hmem rfl

/-- A task that was not submitted has no phase. -/
theorem phase?_submitted (h : r.Numbered) :
  r.phase? r.submitted = none
  := by
  rw [phase?_eq_none_iff]
  intro hmem
  exact Nat.lt_irrefl _ (h.lt_submitted _ (List.mem_append_right _ hmem))

theorem of_numbers_perm (h : r.Numbered) (hperm : r'.numbers.Perm r.numbers)
    (hsubmitted : r'.submitted = r.submitted) :
  r'.Numbered
  := by
  constructor
  · exact hperm.nodup_iff.2 h.nodup
  · intro n hn
    rw [hsubmitted]
    exact h.lt_submitted n (hperm.mem_iff.1 hn)

theorem of_numbers_sublist (h : r.Numbered) (hsub : r'.numbers.Sublist r.numbers)
    (hsubmitted : r'.submitted = r.submitted) :
  r'.Numbered
  := by
  constructor
  · exact h.nodup.sublist hsub
  · intro n hn
    rw [hsubmitted]
    exact h.lt_submitted n (hsub.mem hn)

theorem of_numbers_cons (h : r.Numbered) (hperm : r'.numbers.Perm (r.submitted :: r.numbers))
    (hsubmitted : r'.submitted = r.submitted + 1) :
  r'.Numbered
  := by
  constructor
  · rw [hperm.nodup_iff, List.nodup_cons]
    exact ⟨fun hmem => Nat.lt_irrefl _ (h.lt_submitted _ hmem), h.nodup⟩
  · intro n hn
    rw [hsubmitted]
    rcases List.mem_cons.1 (hperm.mem_iff.1 hn) with rfl | hmem
    · exact Nat.lt_succ_self _
    · exact Nat.lt_succ_of_lt (h.lt_submitted n hmem)

end Numbered

theorem numbered_ofCapacity (n : Nat) :
  (ofCapacity n).Numbered
  := by
  constructor
  · exact List.nodup_nil
  · intro m hm
    cases hm

end Reconciliation.Runner
