import Mathlib.Data.List.Flatten
import Reconciliation.Proofs.Waits

/-!
# The errors that waits report

The errors of a runner are those of the tasks that have ended, one of each that failed, in the order
in which their keepers collected them.  A runner may forget tasks that have ended as soon as it
likes, instead of leaving them to the next wait (`Docket.Reaps`): their errors remain.  So a wait
that no other one is in the way of reports what became of the tasks before it, whether somebody had
waited for them already or not, and a later wait reports the same and what has come since
(`Docket.Lasts.wait_reports`).
-/

namespace Reconciliation

/-- How a task has ended whose outcome is collected. -/
def TaskPhase.collected? : TaskPhase → Option TaskOutcome
  | .admitted => none
  | .running => none
  | .returned _ => none
  | .skipped => none
  | .ended outcome => some outcome

namespace Runner

variable {r : Runner} {task : Nat} {outcome : TaskOutcome}

/-- The tasks that have ended, each with its outcome, in the order of their admission. -/
def finished (r : Runner) : List (Nat × TaskOutcome) :=
  r.tasks.gather fun k t => (t.phase.collected?.map fun o => (k, o)).toList

theorem mem_finished_iff (h : r.Numbered) :
  (task, outcome) ∈ r.finished ↔ r.phase? task = some (.ended outcome)
  := by
  rw [finished, Keyed.gather, List.mem_flatMap]
  constructor
  · rintro ⟨⟨k, t⟩, hmem, hended⟩
    have hphase := phase?_of_get? (Keyed.get?_of_mem h.keys hmem)
    cases hcase : t.phase with
    | admitted | running | returned | skipped =>
      rw [hcase] at hended
      cases hended
    | ended o =>
      rw [hcase] at hended hphase
      cases List.mem_singleton.1 hended
      exact hphase
  · intro hphase
    obtain ⟨t, ht, hended⟩ := exists_of_phase? hphase
    refine ⟨(task, t), Keyed.mem_of_get? ht, ?_⟩
    rw [hended]
    exact List.mem_singleton_self _

/-- No task has ended twice. -/
theorem nodup_finished (h : r.Numbered) :
  (r.finished.map Prod.fst).Nodup
  := by
  apply List.Nodup.sublist _ h.keys
  rw [finished, Keyed.gather, List.map_flatMap, List.map_eq_flatMap]
  apply List.Sublist.flatMap_right
  rintro ⟨k, t⟩ _
  cases hcase : t.phase with
  | admitted | running | returned | skipped => exact List.nil_sublist _
  | ended o => exact List.Sublist.refl _

/-- The errors of the tasks are those that the tasks have ended with. -/
theorem taskErrors_eq (r : Runner) :
  r.taskErrors = r.finished.flatMap (fun task => task.2.faults)
  := by
  rw [taskErrors, finished, Keyed.gather, Keyed.gather, List.flatMap_assoc]
  apply List.flatMap_congr
  rintro ⟨k, t⟩ _
  cases hcase : t.phase with
  | admitted | running | returned | skipped => rfl
  | ended o => exact (List.append_nil _).symm

end Runner

namespace Docket

variable {d e f g : Docket} {n : Nat} {caller : Party} {task : Nat}

/-! ### Tasks that are forgotten -/

/-- Some tasks that are over are no longer among those that the next wait will take over. -/
def Reaps (d e : Docket) : Prop :=
  ∃ current, current.Sublist d.runner.current ∧
    (∀ k ∈ d.runner.current, k ∈ current ∨ d.runner.isOver k) ∧
    e = { d with runner := { d.runner with current } }

/-- A move leads from one docket to the other, or some tasks are forgotten. -/
def Tends (d e : Docket) : Prop :=
  d.Leads e ∨ d.Reaps e

/-- Moves, in any number and order, lead from one docket to the other, and tasks that are over are
forgotten at any time. -/
def Lasts : Docket → Docket → Prop :=
  Relation.ReflTransGen Tends

/-- No task need be forgotten. -/
theorem Runs.lasts (h : d.Runs e) :
  d.Lasts e
  := Relation.ReflTransGen.mono (fun _ _ => Or.inl) _ _ h

theorem Sound.reap (h : d.Sound) (hreaps : d.Reaps e) :
  e.Sound
  := by
  obtain ⟨current, -, -, rfl⟩ := hreaps
  have haccounts := h.accounts
  exact {
    h with
    toMarks := h.toMarks.of_phase? ⟨rfl, rfl, rfl⟩ fun _ => rfl
    accounts := ⟨⟨haccounts.numbered.nodup, haccounts.numbered.lt_submitted⟩, haccounts.slots,
      haccounts.errors, haccounts.all, haccounts.unskipped⟩ }

theorem Sound.tends (h : d.Sound) (htends : d.Tends e) :
  e.Sound
  := by
  rcases htends with ⟨a, ha⟩ | hreaps
  · exact h.step (step_of_move ha)
  · exact h.reap hreaps

/-- What holds of a sound docket, and is kept from one to the next, holds later on. -/
theorem Sound.lasts {P : Docket → Prop} (hP : ∀ {d e}, d.Sound → d.Tends e → P d → P e)
    (h : d.Sound) (hd : P d) (hlasts : d.Lasts e) :
  e.Sound ∧ P e
  := by
  induction hlasts with
  | refl => exact ⟨h, hd⟩
  | tail _ htends ih => exact ⟨ih.1.tends htends, hP ih.1 htends ih.2⟩

theorem Lasts.sound (h : (opened n).Lasts d) :
  d.Sound
  := (Sound.lasts (P := fun _ => True) (fun _ _ => id) (sound_opened n) trivial h).1

/-! ### What lasts -/

theorem Sound.isOver_tends (h : d.Sound) (htends : d.Tends e) (hover : d.runner.isOver task) :
  e.runner.isOver task
  := by
  rcases htends with ⟨a, ha⟩ | ⟨current, -, -, rfl⟩
  · exact h.isOver_step (step_of_move ha) hover
  · exact hover

theorem Sound.keeps_tends (h : d.Sound) (htends : d.Tends e) {w : Wait} (hw : Keeps w d) :
  Keeps w e
  := by
  rcases htends with ⟨a, ha⟩ | ⟨current, -, -, rfl⟩
  · exact h.keeps_step (step_of_move ha) hw
  · exact hw

/-- A task that is forgotten is over. -/
theorem Awaited.tends (h : d.Awaited) (hd : d.Sound) (htends : d.Tends e) :
  e.Awaited
  := by
  rcases htends with ⟨a, ha⟩ | ⟨current, -, hcurrent, rfl⟩
  · exact h.step hd (step_of_move ha)
  · intro k hk
    rcases h k hk with hover | hleft | htaken
    · exact .inl hover
    · exact (hcurrent k hleft).symm.imp_right Or.inl
    · exact .inr (.inr htaken)

theorem Tends.dropped_subset (h : d.Tends e) :
  d.dropped ⊆ e.dropped
  := by
  rcases h with ⟨a, ha⟩ | ⟨current, -, -, rfl⟩
  · exact (step_of_move ha).dropped_subset
  · exact List.Subset.refl _

theorem Lasts.dropped_subset (h : d.Lasts e) :
  d.dropped ⊆ e.dropped
  := by
  induction h with
  | refl => exact List.Subset.refl _
  | tail _ htends ih => exact List.Subset.trans ih htends.dropped_subset

/-- No error is ever taken away. -/
theorem Step.errors_grow (h : d.Step e) :
  d.runner.errors <+: e.runner.errors
  := by
  cases h with
  | submit | wait | fire => exact List.prefix_refl _
  | turn => exact List.prefix_append _ _
  | enter henter =>
    obtain ⟨s, line, -, -, -, -, rfl⟩ := Runner.enter?_eq_some henter
    exact List.prefix_refl _
  | drop hdrop =>
    obtain ⟨s, -, -, -, -, rfl⟩ := Runner.drop?_eq_some hdrop
    exact List.prefix_refl _
  | report hreport =>
    obtain ⟨w, -, -, -, -, rfl⟩ := Runner.report?_eq_some hreport
    exact List.prefix_refl _

theorem Tends.errors_grow (h : d.Tends e) :
  d.runner.errors <+: e.runner.errors
  := by
  rcases h with ⟨a, ha⟩ | ⟨current, -, -, rfl⟩
  · exact (step_of_move ha).errors_grow
  · exact List.prefix_refl _

theorem Lasts.errors_grow (h : d.Lasts e) :
  d.runner.errors <+: e.runner.errors
  := by
  induction h with
  | refl => exact List.prefix_refl _
  | tail _ htends ih => exact ih.trans htends.errors_grow

theorem Lasts.awaited (h : (opened n).Lasts d) :
  d.Awaited
  := (Sound.lasts (fun hd htends hawaited => Awaited.tends hawaited hd htends) (sound_opened n)
      nofun h).2

/-! ### Waits -/

/-- A caller that waits is told these errors, and does not wait any more. -/
def Tells (d : Docket) (caller : Party) (errors : List Fault) (e : Docket) : Prop :=
  d.runner.report? caller = some (errors, e.runner) ∧ d.move (.report caller) = some e

variable {errors : List Fault}

theorem Tells.errors_eq (h : d.Tells caller errors e) :
  errors = d.runner.errors ∧ e.runner.errors = d.runner.errors
  := by
  obtain ⟨w, -, -, -, herrors, hrunner⟩ := Runner.report?_eq_some h.1
  exact ⟨herrors, by rw [hrunner]⟩

theorem Tells.lasts (h : d.Tells caller errors e) :
  d.Lasts e
  := .single (.inl ⟨_, h.2⟩)

/-- What is told are the errors that the tasks have ended with. -/
theorem Sound.errors_perm_finished (h : d.Sound) :
  d.runner.errors.Perm (d.runner.finished.flatMap fun task => task.2.faults)
  := by
  rw [← Runner.taskErrors_eq]
  exact h.accounts.errors

/-- Without another wait in the way, every task before a wait is over when the wait is told. -/
theorem Sound.isOver_of_tells (h : d.Sound) (hawaited : d.Awaited) (halone : d.runner.waits = [])
    (hwait : d.move (.wait caller) = some e) (hlasts : e.Lasts f)
    (htells : f.Tells caller errors g) (htask : task ∈ d.admitted) :
  f.runner.isOver task
  := by
  have he := h.step (step_of_move hwait)
  obtain ⟨-, rfl⟩ := of_move_wait hwait
  have hown : ⟨caller, d.runner.current⟩ ∈ d.runner.waits ++ [⟨caller, d.runner.current⟩] :=
    List.mem_append_right _ (List.mem_singleton_self _)
  obtain ⟨hf, hkeeps⟩ := Sound.lasts (fun hd htends => hd.keeps_tends htends) he (.inl hown) hlasts
  have hcurrent : ∀ k ∈ d.runner.current, f.runner.isOver k := by
    rcases hkeeps with hmem | hover
    · exact (hf.move_report_iff hmem).1 ⟨g, htells.2⟩
    · exact hover
  rcases hawaited task htask with hover | hleft | ⟨w, hw, -⟩
  · exact (Sound.lasts (fun hd htends => hd.isOver_tends htends) he hover hlasts).2
  · exact hcurrent task hleft
  · rw [halone] at hw
    cases hw

/-- A task that has no slot, or was not to start, does not end. -/
theorem Sound.notMem_finished (h : d.Sound) (htask : task ∈ d.dropped ++ d.skipped)
    (outcome : TaskOutcome) :
  (task, outcome) ∉ d.runner.finished
  := by
  rw [Runner.mem_finished_iff h.accounts.numbered]
  intro hphase
  rcases List.mem_append.1 htask with hdropped | hskipped
  · have hadmitted : task ∈ d.admitted := by
      rw [← h.keys, ← Runner.exists_phase?_iff]
      exact ⟨_, hphase⟩
    have hnodup := h.fates.nodup_iff.2 List.nodup_range
    exact (List.nodup_append.1 hnodup).2.2 task hadmitted task
      (List.mem_append_right _ hdropped) rfl
  · cases hphase.symm.trans ((h.skipped task).1 hskipped)

/-- A task that is over was skipped, or has ended. -/
theorem Sound.cases_of_isOver (h : d.Sound) (hover : d.runner.isOver task) :
  task ∈ d.skipped ∨ ∃ outcome, (task, outcome) ∈ d.runner.finished
  := by
  obtain ⟨phase, hphase, hphaseOver⟩ := exists_of_isOver hover
  cases phase with
  | admitted | running | returned => cases hphaseOver
  | skipped => exact .inl ((h.skipped task).2 hphase)
  | ended outcome => exact .inr ⟨outcome, (Runner.mem_finished_iff h.accounts.numbered).2 hphase⟩

/-- A task that is over has ended the way its body did. -/
theorem Sound.mem_finished_of_ended (h : d.Sound) (hover : d.runner.isOver task)
    {outcome : TaskOutcome} (hended : (task, outcome) ∈ d.ended) :
  (task, outcome) ∈ d.runner.finished
  := by
  rw [Runner.mem_finished_iff h.accounts.numbered]
  apply ((h.ended task outcome).1 hended).resolve_left
  intro hreturned
  rw [isOver_of_phase? hreturned] at hover
  cases hover

theorem Sound.finished_subset (h : d.Sound) :
  d.runner.finished ⊆ d.ended
  := by
  rintro ⟨k, outcome⟩ hk
  exact (h.ended k outcome).2 (.inr ((Runner.mem_finished_iff h.accounts.numbered).1 hk))

/-- There are errors only if a task has failed. -/
theorem Sound.errors_eq_nil_iff (h : d.Sound) :
  d.runner.errors = [] ↔ ∀ k fault, (k, TaskOutcome.failed fault) ∉ d.runner.finished
  := by
  have hperm := h.errors_perm_finished
  rw [← List.length_eq_zero_iff, hperm.length_eq, List.length_eq_zero_iff,
    List.flatMap_eq_nil_iff]
  constructor
  · intro hnone k fault hk
    cases hnone _ hk
  · rintro hnone ⟨k, outcome⟩ hk
    cases outcome with
    | succeeded | panicked => rfl
    | failed fault => exact absurd hk (hnone k fault)

/-- Whoever is told later is told the same, and what has come since. -/
theorem Lasts.errors_of_tells (h : d.Lasts e) (hd : d.Sound) (he : e.Sound) :
  d.runner.errors <+: e.runner.errors ∧
  (e.runner.finished ⊆ d.runner.finished → e.runner.errors = d.runner.errors)
  := by
  have hgrows := h.errors_grow
  refine ⟨hgrows, fun hsubset => ?_⟩
  have hnodup : e.runner.finished.Nodup :=
    (Runner.nodup_finished he.accounts.numbered).of_map _
  obtain ⟨tasks, hperm, hsub⟩ := hnodup.subperm hsubset
  have hlength := (hsub.flatMap fun task => task.2.faults).length_le
  rw [(hperm.flatMap_right fun task => task.2.faults).length_eq,
    ← he.errors_perm_finished.length_eq, ← hd.errors_perm_finished.length_eq] at hlength
  exact (hgrows.eq_of_length_le hlength).symm

/-- A caller waits, without another wait in the way, and is told some errors.  Then:

* Every task before the wait was dropped or skipped, or has ended.
* The errors are those that the tasks have ended with so far, one of each that failed: no task has
  ended twice, each has ended the way its body did, and of those before the wait each whose body
  ended is among them.  Those that were dropped or skipped are not.  There are no errors if no task
  has failed, and only then.
* Whoever is told later, after whatever has happened, is told the same errors and then others; there
  are no others if no task has ended since.

Tasks may be forgotten once they are over, whether somebody has waited for them or not. -/
theorem Lasts.wait_reports (h : (opened n).Lasts d) (halone : d.runner.waits = [])
    (hwait : d.move (.wait caller) = some e) (hlasts : e.Lasts f)
    (htells : f.Tells caller errors g) :
  (∀ k ∈ d.admitted ++ d.dropped,
    k ∈ f.dropped ∨ k ∈ f.skipped ∨ ∃ outcome, (k, outcome) ∈ f.runner.finished) ∧
  (errors.Perm (f.runner.finished.flatMap fun task => task.2.faults) ∧
    (f.runner.finished.map Prod.fst).Nodup ∧ f.runner.finished ⊆ f.ended ∧
    (∀ k ∈ d.admitted, ∀ outcome, (k, outcome) ∈ f.ended → (k, outcome) ∈ f.runner.finished) ∧
    (∀ k ∈ f.dropped ++ f.skipped, ∀ outcome, (k, outcome) ∉ f.runner.finished) ∧
    (errors = [] ↔ ∀ k fault, (k, TaskOutcome.failed fault) ∉ f.runner.finished)) ∧
  ∀ f' g' caller' errors', g.Lasts f' → f'.Tells caller' errors' g' →
    errors <+: errors' ∧ (f'.runner.finished ⊆ f.runner.finished → errors' = errors)
  := by
  have hd := h.sound
  have hleads : d.Lasts f := .head (.inl ⟨_, hwait⟩) hlasts
  have hf := Lasts.sound (h.trans hleads)
  obtain ⟨rfl, hsame⟩ := htells.errors_eq
  have hover : ∀ k ∈ d.admitted, f.runner.isOver k := fun k =>
    hd.isOver_of_tells h.awaited halone hwait hlasts htells
  refine ⟨fun k hk => ?_, ⟨hf.errors_perm_finished, Runner.nodup_finished hf.accounts.numbered,
    hf.finished_subset, fun k hk outcome => hf.mem_finished_of_ended (hover k hk),
    fun k => hf.notMem_finished, hf.errors_eq_nil_iff⟩, fun f' g' caller' errors' hlater htells' => ?_⟩
  · rcases List.mem_append.1 hk with hadmitted | hdropped
    · rcases hf.cases_of_isOver (hover k hadmitted) with hskipped | ⟨outcome, hfinished⟩
      · exact .inr (.inl hskipped)
      · exact .inr (.inr ⟨outcome, hfinished⟩)
    · exact .inl (hleads.dropped_subset hdropped)
  · obtain ⟨rfl, -⟩ := htells'.errors_eq
    have hlasts' : f.Lasts f' := htells.lasts.trans hlater
    exact hlasts'.errors_of_tells hf (Lasts.sound (h.trans (hleads.trans hlasts')))

/-! ### Two waits -/

/-- A first task fails. -/
def failingActions : List Runner.Action :=
  [.submit (.caller 0) "t", .enter (.caller 0), .start 0, .finish 0 (.failed .busClosed),
    .collect 0]

/-- The docket with a task that has failed. -/
def failed : Docket :=
  (failingActions.foldlM move (opened 2)).getD (opened 2)

/-- The docket once the task is forgotten. -/
def forgotten : Docket :=
  { failed with runner := { failed.runner with current := [] } }

/-- A second task panics, a third one is skipped and a fourth one dropped; a fifth one runs. -/
def mixedActions : List Runner.Action :=
  [.submit (.caller 0) "t", .enter (.caller 0), .start 1, .finish 1 (.panicked (.text "boom")),
    .collect 1, .submit (.caller 0) "x", .enter (.caller 0), .fire "x", .skip 2,
    .submit (.caller 0) "x", .drop (.caller 0), .submit (.caller 0) "t", .enter (.caller 0),
    .start 4]

/-- The docket before anybody waits. -/
def mixed : Docket :=
  (mixedActions.foldlM move forgotten).getD forgotten

/-- Somebody waits. -/
def mixedWait : Docket :=
  (mixed.move (.wait (.caller 9))).getD mixed

/-- The fifth task fails as well. -/
def mixedEnds : List Runner.Action :=
  [.finish 4 (.failed .canceled), .collect 4]

/-- The docket before the wait is told. -/
def mixedEnd : Docket :=
  (mixedEnds.foldlM move mixedWait).getD mixedWait

/-- The docket after that. -/
def mixedTold : Docket :=
  (mixedEnd.move (.report (.caller 9))).getD mixedEnd

/-- Somebody waits again. -/
def mixedAgain : Docket :=
  (mixedTold.move (.wait (.caller 8))).getD mixedTold

theorem lasts_mixed :
  (opened 2).Lasts mixed
  := by
  have hfailed : (opened 2).Runs failed := by
    apply reflTransGen_of_isSome
    decide +kernel
  have hforgotten : failed.Reaps forgotten :=
    ⟨[], List.nil_sublist _, by decide +kernel, rfl⟩
  have hmixed : forgotten.Runs mixed := by
    apply reflTransGen_of_isSome
    decide +kernel
  exact (hfailed.lasts.tail (.inr hforgotten)).trans hmixed.lasts

theorem lasts_mixedEnd :
  mixedWait.Lasts mixedEnd
  := by
  apply Runs.lasts
  apply reflTransGen_of_isSome
  decide +kernel

/-- Of five tasks two have failed, one of which was forgotten before the wait; a second wait is told
the same. -/
theorem wait_reports_mixed :
  mixedEnd.Tells (.caller 9) [.busClosed, .canceled] mixedTold ∧
  (∀ k ∈ mixed.admitted ++ mixed.dropped, k ∈ mixedEnd.dropped ∨ k ∈ mixedEnd.skipped ∨
    ∃ outcome, (k, outcome) ∈ mixedEnd.runner.finished) ∧
  mixedEnd.runner.finished
    = [(0, .failed .busClosed), (1, .panicked (.text "boom")), (4, .failed .canceled)] ∧
  ∀ g errors, mixedAgain.Tells (.caller 8) errors g → errors = [.busClosed, .canceled]
  := by
  have htells : mixedEnd.Tells (.caller 9) [.busClosed, .canceled] mixedTold :=
    ⟨by decide +kernel, by decide +kernel⟩
  have hwait : mixed.move (.wait (.caller 9)) = some mixedWait := by decide +kernel
  obtain ⟨hover, -, hlater⟩ :=
    lasts_mixed.wait_reports (by decide +kernel) hwait lasts_mixedEnd htells
  refine ⟨htells, hover, by decide +kernel, fun g errors hagain => ?_⟩
  have hlasts : mixedTold.Lasts mixedAgain :=
    .single (.inl ⟨.wait (.caller 8), by decide +kernel⟩)
  exact (hlater _ g _ errors hlasts hagain).2 (by decide +kernel)

end Docket

end Reconciliation
