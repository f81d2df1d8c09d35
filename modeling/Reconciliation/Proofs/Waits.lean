import Reconciliation.Proofs.Admission

/-!
# What callers who wait for tasks learn

A caller that waits takes over the admitted tasks that no other wait has taken over, and is told
once these are over.  So every admitted task is over, or left to a later wait, or taken over by one
that is still under way (`Docket.Awaited`).  A wait that comes while another one is under way may
therefore end before tasks that were admitted long before it began.
-/

namespace Reconciliation.Docket

variable {d e f g : Docket} {n : Nat} {caller : Party} {task : Nat}

/-- The task was dropped or skipped, or its body has ended. -/
def IsPast (d : Docket) (task : Nat) : Prop :=
  task ∈ d.dropped ∨ task ∈ d.skipped ∨ task ∈ d.ended.map Prod.fst

instance (d : Docket) (task : Nat) : Decidable (d.IsPast task) :=
  inferInstanceAs (Decidable (_ ∨ _ ∨ _))

/-! ### Tasks that are over -/

theorem exists_of_isOver {r : Runner} (h : r.isOver task) :
  ∃ phase, r.phase? task = some phase ∧ phase.isOver
  := by
  unfold Runner.isOver at h
  split at h
  · next phase hphase => exact ⟨phase, hphase, h⟩
  · cases h

theorem isOver_of_phase? {r : Runner} {phase : TaskPhase} (h : r.phase? task = some phase) :
  r.isOver task = phase.isOver
  := by
  rw [Runner.isOver, h]

/-- A task that is over was skipped, or its body has ended. -/
theorem Marks.isPast (h : d.Marks) (hover : d.runner.isOver task) :
  d.IsPast task
  := by
  obtain ⟨phase, hphase, hphaseOver⟩ := exists_of_isOver hover
  cases phase with
  | admitted | running | returned => cases hphaseOver
  | skipped => exact .inr (.inl ((h.skipped task).2 hphase))
  | ended o => exact .inr (.inr (List.mem_map_of_mem ((h.ended task o).2 (.inr hphase))))

/-- A task that is over stays so. -/
theorem Sound.isOver_step (h : d.Sound) (hstep : d.Step e) (hover : d.runner.isOver task) :
  e.runner.isOver task
  := by
  obtain ⟨phase, hphase, hphaseOver⟩ := exists_of_isOver hover
  cases hstep with
  | submit | wait | fire => exact hover
  | drop hdrop =>
    obtain ⟨_, -, -, -, -, rfl⟩ := Runner.drop?_eq_some hdrop
    exact hover
  | report hreport =>
    obtain ⟨_, -, -, -, -, rfl⟩ := Runner.report?_eq_some hreport
    exact hover
  | enter henter =>
    obtain ⟨s, line, hline, -, rfl, -, rfl⟩ := Runner.enter?_eq_some henter
    have hnone := h.accounts.numbered.phase?_of_mem_line (s := s) (hline ▸ List.mem_cons_self)
    have hadd := Runner.phase?_add hnone { token := s.token } task
    rw [if_neg, hphase] at hadd
    · exact (isOver_of_phase? hadd).trans hphaseOver
    · rintro rfl
      cases hnone.symm.trans hphase
  | @turn k t new free ht hnext hfree =>
    have hold := Runner.phase?_of_get? ht
    have hset := Runner.phase?_setPhase hold new task
    rw [if_neg, hphase] at hset
    · exact (isOver_of_phase? hset).trans hphaseOver
    · rintro rfl
      cases hold.symm.trans hphase
      rw [hnext.isOver_old] at hphaseOver
      cases hphaseOver

theorem Sound.isOver (h : d.Sound) (hruns : d.Runs e) (hover : d.runner.isOver task) :
  e.runner.isOver task
  := by
  induction hruns with
  | refl => exact hover
  | tail hruns hleads ih =>
    obtain ⟨a, ha⟩ := hleads
    exact (h.runs hruns).isOver_step (step_of_move ha) ih

/-- A task that was dropped stays so. -/
theorem Step.dropped_subset (h : d.Step e) :
  d.dropped ⊆ e.dropped
  := by
  cases h with
  | submit | enter | wait | report | fire => exact List.Subset.refl _
  | drop => exact List.subset_append_left _ _
  | @turn _ _ new =>
    cases new with
    | _ => exact List.Subset.refl _

theorem Runs.dropped_subset (h : d.Runs e) :
  d.dropped ⊆ e.dropped
  := by
  induction h with
  | refl => exact List.Subset.refl _
  | tail _ hleads ih =>
    obtain ⟨a, ha⟩ := hleads
    exact List.Subset.trans ih (step_of_move ha).dropped_subset

/-! ### Waits under way -/

/-- A caller has one wait. -/
theorem Sound.wait_eq (h : d.Sound) {w w' : Wait} (hw : w ∈ d.runner.waits)
    (hw' : w' ∈ d.runner.waits) (hcaller : w.caller = w'.caller) :
  w = w'
  := List.inj_on_of_nodup_map (List.nodup_append.1 h.callers).2.1 hw hw' hcaller

/-- A wait is still under way, or the tasks that it has taken over are over. -/
def Keeps (w : Wait) (d : Docket) : Prop :=
  w ∈ d.runner.waits ∨ ∀ k ∈ w.tasks, d.runner.isOver k

/-- One who is told had a wait, all of whose tasks are over. -/
theorem Sound.keeps_of_report (h : d.Sound) {errors : List Fault} {r : Runner}
    (hreport : d.runner.report? caller = some (errors, r)) {w : Wait} (hw : w ∈ d.runner.waits) :
  w ∈ r.waits ∨ ∀ k ∈ w.tasks, d.runner.isOver k
  := by
  obtain ⟨told, htold, rfl, hall, -, rfl⟩ := Runner.report?_eq_some hreport
  by_cases hcaller : w.caller = told.caller
  · rw [h.wait_eq hw htold hcaller]
    exact .inr (List.all_eq_true.1 hall)
  · exact .inl ((List.mem_eraseP_of_neg (by simpa using hcaller)).2 hw)

theorem Sound.keeps_step (h : d.Sound) (hstep : d.Step e) {w : Wait} (hw : Keeps w d) :
  Keeps w e
  := by
  rcases hw with hw | hover
  · cases hstep with
    | submit | turn | fire => exact .inl hw
    | wait => exact .inl (List.mem_append_left _ hw)
    | enter henter =>
      obtain ⟨_, _, -, -, -, -, rfl⟩ := Runner.enter?_eq_some henter
      exact .inl hw
    | drop hdrop =>
      obtain ⟨_, -, -, -, -, rfl⟩ := Runner.drop?_eq_some hdrop
      exact .inl hw
    | report hreport =>
      rcases h.keeps_of_report hreport hw with hmem | hover
      · exact .inl hmem
      · exact .inr fun k hk => h.isOver_step (.report hreport) (hover k hk)
  · exact .inr fun k hk => h.isOver_step hstep (hover k hk)

theorem Sound.keeps (h : d.Sound) (hruns : d.Runs e) {w : Wait} (hw : w ∈ d.runner.waits) :
  Keeps w e
  := by
  induction hruns with
  | refl => exact .inl hw
  | tail hruns hleads ih =>
    obtain ⟨a, ha⟩ := hleads
    exact (h.runs hruns).keeps_step (step_of_move ha) ih

/-! ### Whom a task is left to -/

/-- An admitted task is over, or left to a later wait, or one that is under way has taken it
over. -/
def Awaited (d : Docket) : Prop :=
  ∀ k ∈ d.admitted, d.runner.isOver k ∨ k ∈ d.runner.current ∨
    ∃ w ∈ d.runner.waits, k ∈ w.tasks

theorem Awaited.step (h : d.Awaited) (hd : d.Sound) (hstep : d.Step e) :
  e.Awaited
  := by
  have hover : ∀ k, d.runner.isOver k → e.runner.isOver k := fun _ => hd.isOver_step hstep
  intro k hk
  cases hstep with
  | submit | fire => exact h k hk
  | drop hdrop =>
    obtain ⟨_, -, -, -, -, rfl⟩ := Runner.drop?_eq_some hdrop
    exact h k hk
  | turn =>
    refine (h k ?_).imp_left (hover k)
    revert hk
    cases ‹TaskPhase› with
    | _ => exact id
  | enter henter =>
    obtain ⟨_, _, -, -, rfl, -, rfl⟩ := Runner.enter?_eq_some henter
    rcases List.mem_append.1 hk with hk | hk
    · exact (h k hk).imp (hover k) (Or.imp_left (List.mem_append_left _))
    · exact .inr (.inl (List.mem_append_right _ hk))
  | wait caller =>
    rcases h k hk with hk | hk | ⟨w, hw, hk⟩
    · exact .inl hk
    · exact .inr (.inr ⟨_, List.mem_append_right _ (List.mem_singleton_self _), hk⟩)
    · exact .inr (.inr ⟨w, List.mem_append_left _ hw, hk⟩)
  | report hreport =>
    have hkeeps := fun w => hd.keeps_of_report hreport (w := w)
    obtain ⟨_, -, -, -, -, rfl⟩ := Runner.report?_eq_some hreport
    rcases h k hk with hk | hk | ⟨w, hw, hk⟩
    · exact .inl (hover k hk)
    · exact .inr (.inl hk)
    · rcases hkeeps w hw with hmem | hall
      · exact .inr (.inr ⟨w, hmem, hk⟩)
      · exact .inl (hover k (hall k hk))

theorem Runs.awaited (h : (opened n).Runs d) :
  d.Awaited
  := by
  induction h with
  | refl => exact nofun
  | tail hruns hleads ih =>
    obtain ⟨a, ha⟩ := hleads
    exact ih.step (Runs.sound hruns) (step_of_move ha)

/-! ### Waiting and being told -/

/-- One who waits takes over the tasks that no wait has taken over. -/
theorem of_move_wait (h : d.move (.wait caller) = some e) :
  caller ∉ d.runner.callers ∧ e = { d with runner := d.runner.wait caller }
  := by
  obtain ⟨hidle, runner, reply, happly, rfl⟩ := move_eq_some h
  cases happly
  exact ⟨hidle caller rfl, rfl⟩

/-- One who waits may be told once the tasks that the wait has taken over are over. -/
theorem Sound.move_report_iff (h : d.Sound) {w : Wait} (hw : w ∈ d.runner.waits) :
  (∃ e, d.move (.report w.caller) = some e) ↔ ∀ k ∈ w.tasks, d.runner.isOver k
  := by
  constructor
  · rintro ⟨e, he⟩
    obtain ⟨-, runner, reply, happly, -⟩ := move_eq_some he
    obtain ⟨⟨errors, r⟩, hreport, -⟩ := Option.map_eq_some_iff.1 happly
    obtain ⟨told, htold, hcaller, hall, -⟩ := Runner.report?_eq_some hreport
    rw [h.wait_eq hw htold hcaller.symm]
    exact List.all_eq_true.1 hall
  · intro hall
    have hfind : d.runner.waits.find? (fun w' => w'.caller == w.caller) = some w := by
      cases hfind : d.runner.waits.find? (fun w' => w'.caller == w.caller) with
      | none => exact absurd (List.find?_eq_none.1 hfind w hw) (by simp)
      | some w' =>
        have hcaller := List.find?_some hfind
        rw [h.wait_eq (List.mem_of_find?_eq_some hfind) hw (by simpa using hcaller)]
    rw [move, if_pos nofun, Runner.apply, Runner.report?, hfind]
    simp only [List.all_eq_true.2 hall, if_true]
    exact ⟨_, rfl⟩

/-- One who waits is told once the tasks that the wait has taken over are over.  Then any task that
was admitted or dropped before the wait began is past, unless a wait that was under way at that
time is still under way and has taken the task over.  So if there is no such wait, as when waits
do not overlap, all these tasks are past. -/
theorem Runs.wait_covers (h : (opened n).Runs d) (hwait : d.move (.wait caller) = some e)
    (hruns : e.Runs f) (hreport : f.move (.report caller) = some g) :
  (∀ k ∈ d.admitted ++ d.dropped, f.IsPast k ∨
    ∃ w ∈ d.runner.waits, w.caller ≠ caller ∧ w ∈ f.runner.waits ∧ k ∈ w.tasks) ∧
  ((∀ w ∈ d.runner.waits, w ∉ f.runner.waits) → ∀ k ∈ d.admitted ++ d.dropped, f.IsPast k) ∧
  ∀ w ∈ f.runner.waits,
    (∃ g, f.move (.report w.caller) = some g) ↔ ∀ k ∈ w.tasks, f.runner.isOver k
  := by
  have hd := h.sound
  have he := hd.step (step_of_move hwait)
  have hf := he.runs hruns
  obtain ⟨hidle, rfl⟩ := of_move_wait hwait
  have hleads : d.Runs f := .head ⟨_, hwait⟩ hruns
  have hcovers : ∀ k ∈ d.admitted ++ d.dropped, f.IsPast k ∨
      ∃ w ∈ d.runner.waits, w.caller ≠ caller ∧ w ∈ f.runner.waits ∧ k ∈ w.tasks := by
    intro k hk
    rcases List.mem_append.1 hk with hk | hk
    · rcases h.awaited k hk with hover | hcurrent | ⟨w, hw, hk⟩
      · exact .inl (hf.isPast (hd.isOver hleads hover))
      · -- The wait itself has taken the task over, and it is the one that is told.
        have hown := he.keeps hruns (w := ⟨caller, d.runner.current⟩)
          (List.mem_append_right _ (List.mem_singleton_self _))
        rcases hown with hown | hover
        · exact .inl (hf.isPast ((hf.move_report_iff hown).1 ⟨g, hreport⟩ k hcurrent))
        · exact .inl (hf.isPast (hover k hcurrent))
      · rcases hd.keeps hleads hw with hmem | hover
        · refine .inr ⟨w, hw, ?_, hmem, hk⟩
          rintro rfl
          exact hidle (List.mem_append_right _ (List.mem_map_of_mem hw))
        · exact .inl (hf.isPast (hover k hk))
    · exact .inl (.inl (hleads.dropped_subset hk))
  refine ⟨hcovers, fun hnone k hk => ?_, fun w hw => hf.move_report_iff hw⟩
  rcases hcovers k hk with hpast | ⟨w, hw, -, hmem, -⟩
  · exact hpast
  · exact absurd hmem (hnone w hw)

/-! ### Waits that overlap -/

/-- There are two slots.  Somebody waits for a first task, and then a second one is admitted. -/
def overlapActions : List Runner.Action :=
  [.submit (.caller 0) "t", .enter (.caller 0), .start 0, .wait (.caller 8),
    .submit (.caller 1) "t", .enter (.caller 1), .start 1]

/-- The docket before anybody waits for the second task. -/
def overlapStart : Docket :=
  (overlapActions.foldlM move (opened 2)).getD (opened 2)

/-- The docket once somebody does. -/
def overlapWait : Docket :=
  (overlapStart.move (.wait (.caller 9))).getD overlapStart

/-- The second task ends before the first one. -/
def secondEnds : List Runner.Action :=
  [.finish 1 .succeeded, .collect 1]

/-- The docket while the first task still runs. -/
def overlapSecond : Docket :=
  (secondEnds.foldlM move overlapWait).getD overlapWait

/-- The first task ends as well, and the first wait is told. -/
def firstEnds : List Runner.Action :=
  [.finish 0 (.panicked (.text "boom")), .collect 0, .report (.caller 8)]

/-- The docket when only the second wait is under way. -/
def overlapBoth : Docket :=
  (firstEnds.foldlM move overlapSecond).getD overlapSecond

theorem runs_overlap :
  (opened 2).Runs overlapStart
  := by
  apply reflTransGen_of_isSome
  decide +kernel

theorem move_overlap :
  overlapStart.move (.wait (.caller 9)) = some overlapWait
  := by
  decide +kernel

theorem runs_second :
  overlapWait.Runs overlapSecond
  := by
  apply reflTransGen_of_isSome
  decide +kernel

theorem runs_both :
  overlapSecond.Runs overlapBoth
  := by
  apply reflTransGen_of_isSome
  decide +kernel

/-- The second wait may end while the first task runs, which the first wait has taken over.  If it
ends after the first wait, both tasks have ended. -/
theorem wait_covers_overlap :
  (overlapSecond.IsPast 1 ∧
    ∃ w ∈ overlapSecond.runner.waits, w.caller ≠ .caller 9 ∧ 0 ∈ w.tasks) ∧
  overlapBoth.IsPast 0 ∧ overlapBoth.IsPast 1
  := by
  have hwaits : overlapStart.runner.waits = [⟨.caller 8, [0]⟩] := by decide +kernel
  have hadmitted : overlapStart.admitted ++ overlapStart.dropped = [0, 1] := by decide +kernel
  obtain ⟨g, hg⟩ := Option.isSome_iff_exists.1
    (show (overlapSecond.move (.report (.caller 9))).isSome by decide +kernel)
  obtain ⟨g', hg'⟩ := Option.isSome_iff_exists.1
    (show (overlapBoth.move (.report (.caller 9))).isSome by decide +kernel)
  obtain ⟨hcovers, -⟩ := Runs.wait_covers runs_overlap move_overlap runs_second hg
  obtain ⟨-, hall, -⟩ :=
    Runs.wait_covers runs_overlap move_overlap (runs_second.trans runs_both) hg'
  rw [hwaits, hadmitted] at hcovers hall
  constructor
  · constructor
    · refine (hcovers 1 (by decide)).resolve_right ?_
      rintro ⟨w, hw, -, -, hmem⟩
      rw [List.mem_singleton.1 hw] at hmem
      revert hmem
      decide
    · obtain ⟨w, -, hcaller, hw, hmem⟩ := (hcovers 0 (by decide)).resolve_left (by decide +kernel)
      exact ⟨w, hw, hcaller, hmem⟩
  · have hnone : ∀ w ∈ [(⟨.caller 8, [0]⟩ : Wait)], w ∉ overlapBoth.runner.waits := by
      decide +kernel
    exact ⟨hall hnone 0 (by decide), hall hnone 1 (by decide)⟩

/-- A wait may end while a task runs that had been admitted when the wait began. -/
theorem told_while_running :
  ¬ ∀ n d e f g caller, (opened n).Runs d → d.move (.wait caller) = some e → e.Runs f →
      f.move (.report caller) = some g → ∀ k ∈ d.admitted, f.IsPast k
  := by
  intro h
  obtain ⟨g, hg⟩ := Option.isSome_iff_exists.1
    (show (overlapSecond.move (.report (.caller 9))).isSome by decide +kernel)
  have hpast := h 2 _ _ _ g _ runs_overlap move_overlap runs_second hg 0 (by decide +kernel)
  revert hpast
  decide +kernel

end Reconciliation.Docket
