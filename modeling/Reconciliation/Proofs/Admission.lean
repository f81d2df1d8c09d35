import Mathlib.Data.List.Perm.Subperm
import Reconciliation.Proofs.Docket

/-!
# One slot for each task, and one start

`Docket.Sound` is what holds of a docket after any number of moves: every task that was submitted
waits, was dropped or was admitted, in the order of submission; and the phase of an admitted task
tells whether its body has started and how it has ended.  When those at the runner can go on no
more, every slot is free or held by a task whose body runs.  `Docket.Runs.slots_kept` reads off
this what callers may rely on.
-/

namespace Reconciliation.Docket

variable {d e : Docket} {n : Nat} {caller : Party} {task : Nat}

/-! ### Marks -/

/-- The lists of a docket agree with the phases of the tasks, and no body has started twice. -/
structure Marks (d : Docket) : Prop where
  single : d.started.Nodup
  started : ∀ k, k ∈ d.started ↔ ∃ phase, d.runner.phase? k = some phase ∧ phase.hasStarted
  skipped : ∀ k, k ∈ d.skipped ↔ d.runner.phase? k = some .skipped
  ended : ∀ k o, (k, o) ∈ d.ended ↔
    d.runner.phase? k = some (.returned o) ∨ d.runner.phase? k = some (.ended o)

/-- The lists of marked tasks are the same. -/
structure SameMarks (d e : Docket) : Prop where
  started : e.started = d.started
  skipped : e.skipped = d.skipped
  ended : e.ended = d.ended

/-- Where the phases are the same, so are the marks. -/
theorem Marks.of_phase? (h : d.Marks) (hsame : d.SameMarks e)
    (hphase : ∀ k, e.runner.phase? k = d.runner.phase? k) :
  e.Marks
  := by
  obtain ⟨hstarted, hskipped, hended⟩ := hsame
  constructor
  · rw [hstarted]
    exact h.single
  · intro k
    rw [hstarted, hphase]
    exact h.started k
  · intro k
    rw [hskipped, hphase]
    exact h.skipped k
  · intro k o
    rw [hended, hphase]
    exact h.ended k o

/-- A task that is admitted bears no mark yet. -/
theorem Marks.enter (h : d.Marks) (hsame : d.SameMarks e) (hnone : d.runner.phase? task = none)
    (hphase : ∀ k, e.runner.phase? k = if k = task then some .admitted else d.runner.phase? k) :
  e.Marks
  := by
  obtain ⟨hstarted, hskipped, hended⟩ := hsame
  constructor
  · rw [hstarted]
    exact h.single
  · intro k
    rw [hstarted, hphase, h.started]
    split
    · next hk => simp [hk, hnone, TaskPhase.hasStarted]
    · rfl
  · intro k
    rw [hskipped, hphase, h.skipped]
    split
    · next hk => simp [hk, hnone]
    · rfl
  · intro k o
    rw [hended, hphase, h.ended]
    split
    · next hk => simp [hk, hnone]
    · rfl

/-- A task that goes to its next phase is marked. -/
theorem Marks.turn (h : d.Marks) {old new : TaskPhase} {isFired : Prop}
    (hsame : (d.marked task new).SameMarks e) (hold : d.runner.phase? task = some old)
    (hnext : old.Next isFired new)
    (hphase : ∀ k, e.runner.phase? k = if k = task then some new else d.runner.phase? k) :
  e.Marks
  := by
  obtain ⟨hstarted, hskipped, hended⟩ := hsame
  constructor
  · rw [hstarted]
    cases hnext with
    | skip | finish | collect => exact h.single
    | start =>
      have hnew : task ∉ d.started := by
        rw [h.started, hold]
        simp [TaskPhase.hasStarted]
      exact (List.perm_append_singleton task d.started).nodup_iff.2
        (List.nodup_cons.2 ⟨hnew, h.single⟩)
  · intro k
    have hk := h.started k
    rw [hstarted, hphase]
    cases hnext with
    | _ => split <;> simp_all [marked, TaskPhase.hasStarted]
  · intro k
    have hk := h.skipped k
    rw [hskipped, hphase]
    cases hnext with
    | _ => split <;> simp_all [marked]
  · intro k o
    have hk := h.ended k o
    rw [hended, hphase]
    cases hnext with
    | _ => split <;> simp_all [marked, eq_comm]

/-! ### The line -/

/-- In a line without repetition a caller has one place. -/
theorem exists_place {line : List Submission} (hnodup : (line.map Submission.caller).Nodup)
    {s : Submission} (hs : s ∈ line) :
  ∃ before after, line = before ++ s :: after ∧
    line.find? (fun x => x.caller == s.caller) = some s ∧
    line.eraseP (fun x => x.caller == s.caller) = before ++ after
  := by
  obtain ⟨before, after, rfl⟩ := List.append_of_mem hs
  have hbefore : ∀ x ∈ before, ¬ (x.caller == s.caller) = true := by
    intro x hx
    rw [List.map_append, List.map_cons] at hnodup
    have hne := (List.nodup_append.1 hnodup).2.2 _ (List.mem_map_of_mem hx) _ List.mem_cons_self
    simpa using hne
  refine ⟨before, after, rfl, ?_, ?_⟩
  · rw [List.find?_append, List.find?_eq_none.2 hbefore, Option.none_or]
    simp
  · rw [List.eraseP_append_right _ hbefore]
    simp

/-- A known token stays what it is when more tasks are submitted. -/
theorem token_of_append {tokens more : List Token} (htokens : tokens <+: more) {token : Token}
    (h : tokens[task]? = some token) :
  more[task]? = some token
  := by
  obtain ⟨_, rfl⟩ := htokens
  rw [List.getElem?_append_left]
  · exact h
  · exact (List.getElem?_eq_some_iff.1 h).1

/-! ### Soundness -/

/-- Every task waits, was dropped or was admitted, in the order of submission, and every slot is
accounted for. -/
structure Sound (d : Docket) : Prop extends Marks d where
  accounts : d.runner.Accounts
  callers : d.runner.callers.Nodup
  submitted : d.runner.submitted = d.tokens.length
  line : ∀ s ∈ d.runner.line, d.tokens[s.task]? = some s.token
  tasks : ∀ k t, d.runner.tasks.get? k = some t → d.tokens[k]? = some t.token
  keys : d.runner.tasks.map Prod.fst = d.admitted
  order : (d.admitted ++ d.runner.line.map Submission.task).Sublist (List.range d.tokens.length)
  fates : (d.admitted ++ (d.runner.line.map Submission.task ++ d.dropped)).Perm
    (List.range d.tokens.length)
  lost : ∀ k ∈ d.dropped ++ d.skipped, ∃ token ∈ d.runner.fired, d.tokens[k]? = some token

theorem sound_opened (n : Nat) :
  (opened n).Sound
  where
    single := List.nodup_nil
    started k := by simp [opened, Runner.phase?, Runner.ofCapacity, Keyed.get?]
    skipped k := by simp [opened, Runner.phase?, Runner.ofCapacity, Keyed.get?]
    ended k o := by simp [opened, Runner.phase?, Runner.ofCapacity, Keyed.get?]
    accounts := Runner.accounts_ofCapacity n
    callers := List.nodup_nil
    submitted := rfl
    line := nofun
    tasks := nofun
    keys := rfl
    order := .slnil
    fates := .nil
    lost := nofun

namespace Sound

theorem submit (h : d.Sound) (token : Token) (hidle : caller ∉ d.runner.callers) :
  Sound { d with runner := d.runner.submit caller token, tokens := d.tokens ++ [token] }
  where
    toMarks := h.toMarks.of_phase? ⟨rfl, rfl, rfl⟩ fun _ => rfl
    accounts := h.accounts.submit caller token
    callers := by
      show ((d.runner.line ++ [_]).map Submission.caller ++ _).Nodup
      rw [List.map_append, List.append_assoc]
      exact List.perm_middle.nodup_iff.2 (List.nodup_cons.2 ⟨hidle, h.callers⟩)
    submitted := by
      rw [List.length_append, ← h.submitted]
      rfl
    line s hs := by
      rcases List.mem_append.1 hs with hs | hs
      · exact token_of_append (List.prefix_append _ _) (h.line s hs)
      · rw [List.mem_singleton.1 hs, h.submitted]
        exact List.getElem?_concat_length
    tasks k t ht := token_of_append (List.prefix_append _ _) (h.tasks k t ht)
    keys := h.keys
    order := by
      show (d.admitted ++ (d.runner.line ++ [_]).map Submission.task).Sublist _
      rw [List.map_append, ← List.append_assoc, List.length_append, List.length_singleton,
        List.range_succ, h.submitted]
      exact h.order.append_right _
    fates := by
      show (d.admitted ++ ((d.runner.line ++ [_]).map Submission.task ++ d.dropped)).Perm _
      rw [List.map_append, List.append_assoc, List.length_append, List.length_singleton,
        List.range_succ, h.submitted]
      refine List.Perm.trans ?_ (h.fates.append_right _)
      rw [List.append_assoc, List.append_assoc]
      exact (List.perm_append_comm.append_left _).append_left _
    lost k hk := by
      obtain ⟨token', hfired, htoken⟩ := h.lost k hk
      exact ⟨token', hfired, token_of_append (List.prefix_append _ _) htoken⟩

theorem enter (h : d.Sound) {runner : Runner}
    (henter : d.runner.enter? caller = some (task, runner)) :
  Sound { d with runner, admitted := d.admitted ++ [task] }
  := by
  have haccounts := h.accounts.enter henter
  obtain ⟨s, line, hline, -, rfl, -, rfl⟩ := Runner.enter?_eq_some henter
  have hmem : s ∈ d.runner.line := by
    rw [hline]
    exact List.mem_cons_self
  have hnone := h.accounts.numbered.phase?_of_mem_line hmem
  have hlater : line ⊆ d.runner.line := by
    rw [hline]
    exact List.subset_cons_self s line
  have hmoved : d.admitted ++ [s.task] ++ line.map Submission.task
      = d.admitted ++ d.runner.line.map Submission.task := by
    rw [hline, List.append_assoc]
    rfl
  exact {
    toMarks := h.toMarks.enter ⟨rfl, rfl, rfl⟩ hnone (Runner.phase?_add hnone { token := s.token })
    accounts := haccounts
    callers := by
      refine h.callers.sublist ?_
      rw [Runner.callers, Runner.callers, hline]
      exact (List.sublist_cons_self _ _).append_right _
    submitted := h.submitted
    line := fun s' hs' => h.line s' (hlater hs')
    tasks := by
      intro k t ht
      by_cases hk : k = s.task
      · subst hk
        have ht' := (Keyed.get?_add_self (Option.map_eq_none_iff.1 hnone) _).symm.trans ht
        cases ht'
        exact h.line s hmem
      · exact h.tasks k t ((Keyed.get?_add_of_ne hk _).symm.trans ht)
    keys := by
      show (d.runner.tasks.add s.task _).map Prod.fst = _
      rw [Keyed.keys_add, h.keys]
    order := by
      rw [hmoved]
      exact h.order
    fates := by
      rw [← List.append_assoc, hmoved, List.append_assoc]
      exact h.fates
    lost := h.lost }

theorem drop (h : d.Sound) {runner : Runner}
    (hdrop : d.runner.drop? caller = some (task, runner)) :
  Sound { d with runner, dropped := d.dropped ++ [task] }
  := by
  have haccounts := h.accounts.drop hdrop
  obtain ⟨s, hs, rfl, rfl, hfired, rfl⟩ := Runner.drop?_eq_some hdrop
  obtain ⟨before, after, hline, -, herase⟩ := exists_place (List.nodup_append.1 h.callers).1 hs
  rw [herase] at haccounts ⊢
  have hfewer : (before ++ after).Sublist d.runner.line := by
    rw [hline]
    exact (List.sublist_cons_self s after).append_left before
  exact {
    toMarks := h.toMarks.of_phase? ⟨rfl, rfl, rfl⟩ fun _ => rfl
    accounts := haccounts
    callers := h.callers.sublist ((hfewer.map _).append_right _)
    submitted := h.submitted
    line := fun s' hs' => h.line s' (hfewer.mem hs')
    tasks := h.tasks
    keys := h.keys
    order := ((hfewer.map _).append_left _).trans h.order
    fates := by
      refine List.Perm.trans ?_ h.fates
      apply List.Perm.append_left
      rw [hline, List.map_append, List.map_append, List.map_cons, List.append_assoc,
        List.append_assoc, List.cons_append]
      apply List.Perm.append_left
      rw [← List.append_assoc]
      exact List.perm_append_singleton _ _
    lost := by
      intro k hk
      rw [List.append_assoc, List.mem_append] at hk
      rcases hk with hk | hk
      · exact h.lost k (List.mem_append_left _ hk)
      · rcases List.mem_cons.1 hk with rfl | hk
        · exact ⟨s.token, hfired, h.line s hs⟩
        · exact h.lost k (List.mem_append_right _ hk) }

/-- A task that goes to its next phase keeps its token, its place and its slot, or gives the slot
back when it is over. -/
theorem turn (h : d.Sound) {t : Task} {new : TaskPhase} {free : Nat}
    (ht : d.runner.tasks.get? task = some t)
    (hnext : t.phase.Next (t.token ∈ d.runner.fired) new)
    (hfree : free + new.slots = d.runner.free + t.phase.slots) :
  Sound { d.marked task new with
    runner := { d.runner.setPhase task new with free, errors := d.runner.errors ++ new.faults } }
  := by
  have hphase := Runner.phase?_of_get? ht
  have hmarked : (d.marked task new).tokens = d.tokens ∧
      (d.marked task new).admitted = d.admitted ∧ (d.marked task new).dropped = d.dropped := by
    cases new with
    | _ => exact ⟨rfl, rfl, rfl⟩
  obtain ⟨htokens, hadmitted, hdropped⟩ := hmarked
  constructor
  case toMarks =>
    exact h.toMarks.turn ⟨rfl, rfl, rfl⟩ hphase hnext (Runner.phase?_setPhase hphase new)
  case accounts => exact h.accounts.turn ht hnext.isOver_old hnext.of_skipped hfree
  case callers => exact h.callers
  case submitted =>
    rw [htokens]
    exact h.submitted
  case line =>
    rw [htokens]
    exact h.line
  case tasks =>
    rw [htokens]
    intro k t' ht'
    have ht' : (d.runner.tasks.modify task (fun t => { t with phase := new })).get? k = some t' :=
      ht'
    rw [Keyed.get?_modify ht] at ht'
    split at ht'
    · next hk =>
      cases ht'
      rw [hk]
      exact h.tasks task t ht
    · exact h.tasks k t' ht'
  case keys =>
    rw [hadmitted, ← h.keys]
    exact Runner.keys_setPhase d.runner task new
  case order =>
    rw [hadmitted, htokens]
    exact h.order
  case fates =>
    rw [hadmitted, hdropped, htokens]
    exact h.fates
  case lost =>
    rw [hdropped, htokens]
    intro k hk
    rcases List.mem_append.1 hk with hk | hk
    · exact h.lost k (List.mem_append_left _ hk)
    · generalize t.phase = old at hnext
      cases hnext with
      | start | finish | collect => exact h.lost k (List.mem_append_right _ hk)
      | skip hfired =>
        rcases List.mem_append.1 hk with hk | hk
        · exact h.lost k (List.mem_append_right _ hk)
        · rw [List.mem_singleton.1 hk]
          exact ⟨t.token, hfired, h.tasks task t ht⟩

theorem wait (h : d.Sound) (hidle : caller ∉ d.runner.callers) :
  Sound { d with runner := d.runner.wait caller }
  := {
    h with
    toMarks := h.toMarks.of_phase? ⟨rfl, rfl, rfl⟩ fun _ => rfl
    accounts := h.accounts.wait caller
    callers := by
      show (d.runner.line.map Submission.caller ++ (d.runner.waits ++ [_]).map Wait.caller).Nodup
      rw [List.map_append, ← List.append_assoc]
      exact (List.perm_append_singleton caller _).nodup_iff.2
        (List.nodup_cons.2 ⟨hidle, h.callers⟩) }

theorem report (h : d.Sound) {errors : List Fault} {runner : Runner}
    (hreport : d.runner.report? caller = some (errors, runner)) :
  Sound { d with runner }
  := by
  have haccounts := h.accounts.shift (.report hreport)
  obtain ⟨w, -, -, -, -, rfl⟩ := Runner.report?_eq_some hreport
  exact {
    h with
    toMarks := h.toMarks.of_phase? ⟨rfl, rfl, rfl⟩ fun _ => rfl
    accounts := haccounts
    callers := h.callers.sublist ((List.eraseP_sublist.map _).append_left _) }

theorem fire (h : d.Sound) (token : Token) :
  Sound { d with runner := d.runner.fire token }
  := {
    h with
    toMarks := h.toMarks.of_phase? ⟨rfl, rfl, rfl⟩ fun _ => rfl
    accounts := h.accounts.fire token
    lost := by
      intro k hk
      obtain ⟨token', hfired, htoken⟩ := h.lost k hk
      exact ⟨token', List.mem_cons_of_mem _ hfired, htoken⟩ }

theorem step (h : d.Sound) (hstep : d.Step e) :
  e.Sound
  := by
  cases hstep with
  | submit caller token hidle => exact h.submit token hidle
  | enter henter => exact h.enter henter
  | drop hdrop => exact h.drop hdrop
  | turn ht hnext hfree => exact h.turn ht hnext hfree
  | wait caller hidle => exact h.wait hidle
  | report hreport => exact h.report hreport
  | fire token => exact h.fire token

theorem runs (h : d.Sound) (hruns : d.Runs e) :
  e.Sound
  := by
  induction hruns with
  | refl => exact h
  | tail _ hleads ih =>
    obtain ⟨a, ha⟩ := hleads
    exact ih.step (step_of_move ha)

end Sound

theorem Runs.sound (h : (opened n).Runs d) :
  d.Sound
  := (sound_opened n).runs h

end Reconciliation.Docket
