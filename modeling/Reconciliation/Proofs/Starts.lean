import Reconciliation.Proofs.Admission

/-!
# Every task starts once, and gives back its slot

Those at a runner go on without a new call only so often, and come to a state in which nobody can
go on (`Docket.IsSettled`).  Then every admitted task runs or is over, and the slots that are not
free are those of the tasks that run.  What later moves can add is laid down in `Docket.Grows`: no
body starts whose token had fired before.
-/

namespace Reconciliation.Docket

variable {d e f : Docket} {n : Nat} {caller : Party} {task : Nat}

/-- One of those at the runner goes on. -/
def Serves (d e : Docket) : Prop :=
  ∃ a : Runner.Action, a.isTurn = true ∧ d.move a = some e

/-- Some of those at the runner go on, as often as they like. -/
def Settles : Docket → Docket → Prop :=
  Relation.ReflTransGen Serves

/-- Nobody at the runner can go on. -/
def IsSettled (d : Docket) : Prop :=
  ∀ e, ¬ d.Serves e

/-! ### Who can go on -/

/-- What the runner has an answer to may be done without a call. -/
theorem serves_of_apply {a : Runner.Action} (hturn : a.isTurn = true)
    {result : Runner × Option Runner.Reply} (happly : d.runner.apply a = some result) :
  d.Serves { d.noted a result.2 with runner := result.1 }
  := by
  have hcall : ∀ p ∈ a.call?, p ∉ d.runner.callers := by
    cases a with
    | submit | finish | wait | fire => cases hturn
    | enter | drop | skip | start | collect | report => exact nofun
  refine ⟨a, hturn, ?_⟩
  rw [move, if_pos hcall, happly]
  rfl

theorem Sound.serves (h : d.Sound) (hserves : d.Serves e) :
  e.Sound
  := by
  obtain ⟨a, -, ha⟩ := hserves
  exact h.step (step_of_move ha)

/-- Whoever goes on leaves less to do. -/
theorem Sound.work_lt (h : d.Sound) (hserves : d.Serves e) :
  e.runner.work < d.runner.work
  := by
  have hkeys := h.accounts.numbered.keys
  obtain ⟨a, hturn, hmove⟩ := hserves
  obtain ⟨-, runner, reply, happly, rfl⟩ := move_eq_some hmove
  show runner.work < d.runner.work
  cases a with
  | submit | finish | wait | fire => cases hturn
  | enter caller =>
    obtain ⟨_, henter, heq⟩ := Option.map_eq_some_iff.1 happly
    cases heq
    exact Runner.work_lt_of_enter henter
  | drop caller =>
    obtain ⟨_, hdrop, heq⟩ := Option.map_eq_some_iff.1 happly
    cases heq
    exact Runner.work_lt_of_drop hdrop
  | skip task =>
    obtain ⟨_, hskip, heq⟩ := Option.map_eq_some_iff.1 happly
    cases heq
    exact Runner.work_lt_of_skip hkeys hskip
  | start task =>
    obtain ⟨_, hstart, heq⟩ := Option.map_eq_some_iff.1 happly
    cases heq
    exact Runner.work_lt_of_start hkeys hstart
  | collect task =>
    obtain ⟨_, hcollect, heq⟩ := Option.map_eq_some_iff.1 happly
    cases heq
    exact Runner.work_lt_of_collect hkeys hcollect
  | report caller =>
    obtain ⟨_, hreport, heq⟩ := Option.map_eq_some_iff.1 happly
    cases heq
    exact Runner.work_lt_of_report hreport

/-- Those at the runner come to a state in which nobody can go on. -/
theorem Sound.exists_settled (h : d.Sound) :
  ∃ e, d.Settles e ∧ e.IsSettled
  := exists_rest (fun d => d.runner.work) (fun _ _ hd hserves => Sound.serves hd hserves)
      (fun _ _ hd hserves => Sound.work_lt hd hserves) h

/-- In the end an admitted task runs, or it is over. -/
theorem phase_of_settled (hsettled : d.IsSettled) {phase : TaskPhase}
    (hphase : d.runner.phase? task = some phase) :
  phase = .running ∨ phase.isOver = true
  := by
  obtain ⟨⟨token, phase⟩, ht, rfl⟩ := Runner.exists_of_phase? hphase
  cases phase with
  | running => exact .inl rfl
  | skipped | ended => exact .inr rfl
  | admitted =>
    by_cases hfired : token ∈ d.runner.fired
    · have happly : ∃ result, d.runner.apply (.skip task) = some result := by
        rw [Runner.apply, Runner.skip?, ht]
        simp [hfired]
      obtain ⟨result, hresult⟩ := happly
      exact absurd (serves_of_apply rfl hresult) (hsettled _)
    · have happly : ∃ result, d.runner.apply (.start task) = some result := by
        rw [Runner.apply, Runner.start?, ht]
        simp [hfired]
      obtain ⟨result, hresult⟩ := happly
      exact absurd (serves_of_apply rfl hresult) (hsettled _)
  | returned outcome =>
    have happly : ∃ result, d.runner.apply (.collect task) = some result := by
      rw [Runner.apply, Runner.collect?, hphase]
      simp
    obtain ⟨result, hresult⟩ := happly
    exact absurd (serves_of_apply rfl hresult) (hsettled _)

/-- A task in line whose token has fired can leave at once, wherever it stands; the slots and the
others stay as they are. -/
theorem Sound.exists_dropped (h : d.Sound) {s : Submission} (hs : s ∈ d.runner.line)
    (hfired : s.token ∈ d.runner.fired) :
  ∃ before after, d.runner.line = before ++ s :: after ∧
    d.Serves { d with
      runner := { d.runner with line := before ++ after }
      dropped := d.dropped ++ [s.task] }
  := by
  obtain ⟨before, after, hline, hfind, herase⟩ :=
    exists_place (List.nodup_append.1 h.callers).1 hs
  have happly : d.runner.apply (.drop s.caller)
      = some ({ d.runner with line := before ++ after }, some (.dropped s.task)) := by
    rw [Runner.apply, Runner.drop?, hfind]
    simp only
    rw [if_pos hfired, herase]
    rfl
  exact ⟨before, after, hline, serves_of_apply rfl happly⟩

/-- In the end a task waits only for a slot. -/
theorem Sound.full_of_settled (h : d.Sound) (hsettled : d.IsSettled) {s : Submission}
    (hs : s ∈ d.runner.line) :
  d.runner.free = 0 ∧ s.token ∉ d.runner.fired
  := by
  constructor
  · obtain ⟨first, line, hline⟩ := List.exists_cons_of_ne_nil (List.ne_nil_of_mem hs)
    by_contra hfree
    have happly : ∃ result, d.runner.apply (.enter first.caller) = some result := by
      rw [Runner.apply, Runner.enter?, hline]
      simp [Nat.pos_of_ne_zero hfree]
    obtain ⟨result, hresult⟩ := happly
    exact hsettled _ (serves_of_apply rfl hresult)
  · intro hfired
    obtain ⟨before, after, -, hserves⟩ := h.exists_dropped hs hfired
    exact hsettled _ hserves

/-! ### Bodies that run -/

/-- An end is marked for the tasks whose bodies have ended. -/
theorem Marks.mem_ended_iff (h : d.Marks) (k : Nat) :
  k ∈ d.ended.map Prod.fst ↔
    ∃ o, d.runner.phase? k = some (.returned o) ∨ d.runner.phase? k = some (.ended o)
  := by
  constructor
  · intro hk
    obtain ⟨⟨_, o⟩, hmem, rfl⟩ := List.mem_map.1 hk
    exact ⟨o, (h.ended _ o).1 hmem⟩
  · rintro ⟨o, ho⟩
    exact List.mem_map.2 ⟨(k, o), (h.ended k o).2 ho, rfl⟩

theorem Marks.mem_running_iff (h : d.Marks) (k : Nat) :
  k ∈ d.running ↔ d.runner.phase? k = some .running
  := by
  rw [running, List.mem_filter, decide_eq_true_eq, h.started, h.mem_ended_iff]
  constructor
  · rintro ⟨⟨phase, hphase, hstarted⟩, hended⟩
    cases phase with
    | running => exact hphase
    | admitted | skipped => cases hstarted
    | returned o => exact absurd ⟨o, .inl hphase⟩ hended
    | ended o => exact absurd ⟨o, .inr hphase⟩ hended
  · intro hphase
    refine ⟨⟨_, hphase, rfl⟩, ?_⟩
    rw [hphase]
    simp

theorem Sound.mem_admitted_iff (h : d.Sound) (k : Nat) :
  k ∈ d.admitted ↔ ∃ phase, d.runner.phase? k = some phase
  := by
  rw [← h.keys, Runner.exists_phase?_iff]

/-- Bodies that run hold slots. -/
theorem Sound.length_running_le (h : d.Sound) :
  d.running.length ≤ d.runner.capacity
  := by
  have hsubset : d.running ⊆ d.runner.underWay := by
    intro k hk
    exact Runner.mem_underWay ((h.mem_running_iff k).1 hk) rfl
  have hnodup : d.running.Nodup := h.single.filter _
  exact Nat.le_trans (hnodup.subperm hsubset).length_le h.accounts.length_underWay_le

/-- In the end the admitted tasks that have not ended are those that run. -/
theorem Sound.unended_perm (h : d.Sound) (hsettled : d.IsSettled) :
  d.unended.Perm d.runner.underWay
  := by
  have hkeys := h.accounts.numbered.keys
  have hadmitted : d.admitted.Nodup := by
    rw [← h.keys]
    exact hkeys
  have hunderWay : d.runner.underWay.Nodup := hkeys.sublist (List.filter_sublist.map _)
  unfold unended
  rw [List.perm_ext_iff_of_nodup (hadmitted.filter _) hunderWay]
  intro k
  rw [List.mem_filter, decide_eq_true_eq, h.mem_admitted_iff, h.skipped, h.mem_ended_iff]
  constructor
  · rintro ⟨⟨phase, hphase⟩, hskipped, hended⟩
    apply Runner.mem_underWay hphase
    cases phase with
    | admitted | running => rfl
    | skipped => exact absurd hphase hskipped
    | returned o => exact absurd ⟨o, .inl hphase⟩ hended
    | ended o => exact absurd ⟨o, .inr hphase⟩ hended
  · intro hk
    obtain ⟨⟨_, t⟩, hentry, rfl⟩ := List.mem_map.1 hk
    obtain ⟨hmem, hover⟩ := List.mem_filter.1 hentry
    have hphase := Runner.phase?_of_get? (Keyed.get?_of_mem hkeys hmem)
    have hrunning := (phase_of_settled hsettled hphase).resolve_right (by simpa using hover)
    rw [hrunning] at hphase
    refine ⟨⟨_, hphase⟩, ?_, ?_⟩
    · rw [hphase]
      simp
    · rw [hphase]
      simp

/-- In the end the slots that are not free are those of the tasks that have not ended. -/
theorem Sound.slots_of_settled (h : d.Sound) (hsettled : d.IsSettled) :
  d.runner.free + d.unended.length = d.runner.capacity
  := by
  rw [(h.unended_perm hsettled).length_eq, Runner.length_underWay]
  exact h.accounts.slots

/-- In the end every admitted task has started, or it was skipped. -/
theorem Sound.started_of_settled (h : d.Sound) (hsettled : d.IsSettled)
    (htask : task ∈ d.admitted) :
  task ∈ d.started ∨ task ∈ d.skipped
  := by
  obtain ⟨phase, hphase⟩ := (h.mem_admitted_iff task).1 htask
  rw [h.started, h.skipped]
  rcases phase_of_settled hsettled hphase with rfl | hover
  · exact .inl ⟨_, hphase, rfl⟩
  · cases phase with
    | admitted | running | returned => cases hover
    | skipped => exact .inr hphase
    | ended => exact .inl ⟨_, hphase, rfl⟩

/-- A body that has started was admitted, and neither dropped nor skipped. -/
theorem Sound.notMem_lost (h : d.Sound) (htask : task ∈ d.started) :
  task ∈ d.admitted ∧ task ∉ d.dropped ∧ task ∉ d.skipped
  := by
  obtain ⟨phase, hphase, hstarted⟩ := (h.started task).1 htask
  have hadmitted := (h.mem_admitted_iff task).2 ⟨phase, hphase⟩
  refine ⟨hadmitted, fun hdropped => ?_, fun hskipped => ?_⟩
  · have hnodup := h.fates.nodup_iff.2 List.nodup_range
    exact (List.nodup_append.1 hnodup).2.2 _ hadmitted _ (List.mem_append_right _ hdropped) rfl
  · rw [h.skipped, hphase, Option.some.injEq] at hskipped
    rw [hskipped] at hstarted
    cases hstarted

/-- A body that has started runs until it ends by itself, in whatever way. -/
theorem Sound.ends_or_runs (h : d.Sound) (htask : task ∈ d.started) :
  (∃ o, (task, o) ∈ d.ended) ∨ ∀ o, ∃ e, d.move (.finish task o) = some e
  := by
  obtain ⟨phase, hphase, hstarted⟩ := (h.started task).1 htask
  cases phase with
  | admitted | skipped => cases hstarted
  | returned o => exact .inl ⟨o, (h.ended task o).2 (.inl hphase)⟩
  | ended o => exact .inl ⟨o, (h.ended task o).2 (.inr hphase)⟩
  | running =>
    refine .inr fun o => ?_
    rw [move, if_pos nofun, Runner.apply, Runner.finish?, hphase]
    exact ⟨_, rfl⟩

/-! ### What moves add -/

/-- What was noted stays, tokens that have fired stay so, and no body starts whose token had fired
before. -/
structure Grows (d e : Docket) : Prop where
  tokens : d.tokens <+: e.tokens
  fired : d.runner.fired ⊆ e.runner.fired
  started : d.started <+: e.started
  fresh : ∀ k ∈ e.started, k ∉ d.started →
    ∃ token, e.tokens[k]? = some token ∧ token ∉ d.runner.fired

theorem Grows.refl (d : Docket) :
  d.Grows d
  := ⟨List.prefix_rfl, List.Subset.refl _, List.prefix_rfl, fun _ hk hnot => absurd hk hnot⟩

theorem Grows.trans (h : d.Grows e) (h' : e.Grows f) :
  d.Grows f
  where
    tokens := h.tokens.trans h'.tokens
    fired := List.Subset.trans h.fired h'.fired
    started := h.started.trans h'.started
    fresh k hk hnot := by
      by_cases hmem : k ∈ e.started
      · obtain ⟨token, htoken, hfired⟩ := h.fresh k hmem hnot
        exact ⟨token, token_of_append h'.tokens htoken, hfired⟩
      · obtain ⟨token, htoken, hfired⟩ := h'.fresh k hk hmem
        exact ⟨token, htoken, fun hmem => hfired (h.fired hmem)⟩

/-- Where no body starts, nothing new has started. -/
theorem grows_of_started (htokens : d.tokens <+: e.tokens)
    (hfired : d.runner.fired ⊆ e.runner.fired) (hstarted : e.started = d.started) :
  d.Grows e
  where
    tokens := htokens
    fired := hfired
    started := hstarted.symm ▸ List.prefix_rfl
    fresh k hk hnot := by
      rw [hstarted] at hk
      exact absurd hk hnot

theorem Sound.grows_step (h : d.Sound) (hstep : d.Step e) :
  d.Grows e
  := by
  cases hstep with
  | submit caller token => exact grows_of_started (List.prefix_append _ _) (List.Subset.refl _) rfl
  | enter henter =>
    obtain ⟨s, line, -, -, rfl, -, rfl⟩ := Runner.enter?_eq_some henter
    exact grows_of_started List.prefix_rfl (List.Subset.refl _) rfl
  | drop hdrop =>
    obtain ⟨s, -, -, -, -, rfl⟩ := Runner.drop?_eq_some hdrop
    exact grows_of_started List.prefix_rfl (List.Subset.refl _) rfl
  | wait => exact grows_of_started List.prefix_rfl (List.Subset.refl _) rfl
  | report hreport =>
    obtain ⟨w, -, -, -, -, rfl⟩ := Runner.report?_eq_some hreport
    exact grows_of_started List.prefix_rfl (List.Subset.refl _) rfl
  | fire token => exact grows_of_started List.prefix_rfl (List.subset_cons_self _ _) rfl
  | @turn task t new free ht hnext hfree =>
    have htoken := h.tasks task t ht
    generalize t.phase = old at hnext
    cases hnext with
    | skip | finish | collect =>
      exact grows_of_started List.prefix_rfl (List.Subset.refl _) rfl
    | start hfired =>
      refine ⟨List.prefix_rfl, List.Subset.refl _, List.prefix_append _ _, ?_⟩
      intro k hk hnot
      have hmem := (List.mem_append.1 hk).resolve_left hnot
      rw [List.mem_singleton.1 hmem]
      exact ⟨t.token, htoken, hfired⟩

theorem Sound.grows (h : d.Sound) (hruns : d.Runs e) :
  d.Grows e
  := by
  induction hruns with
  | refl => exact .refl d
  | tail hruns hleads ih =>
    obtain ⟨a, ha⟩ := hleads
    exact ih.trans ((h.runs hruns).grows_step (step_of_move ha))

/-- A body whose token has fired before it started never starts, whether it was submitted before or
after that. -/
theorem Grows.notMem_started (h : d.Grows e) {token : Token} (htoken : e.tokens[task]? = some token)
    (hfired : token ∈ d.runner.fired) (htask : task ∉ d.started) :
  task ∉ e.started
  := by
  intro hmem
  obtain ⟨token', htoken', hfired'⟩ := h.fresh task hmem htask
  cases htoken.symm.trans htoken'
  exact hfired' hfired

/-- A task whose token fires while it waits for a slot holds none in the end. -/
theorem Sound.notMem_unended (h : d.Sound) {s : Submission} (hs : s ∈ d.runner.line)
    (hfired : s.token ∈ d.runner.fired) (hruns : d.Runs e) (hsettled : e.IsSettled) :
  s ∉ e.runner.line ∧ s.task ∉ e.unended
  := by
  have he := h.runs hruns
  have hgrows := h.grows hruns
  have hnot : s.task ∉ d.started := by
    rw [h.started, h.accounts.numbered.phase?_of_mem_line hs]
    simp
  have hnever := hgrows.notMem_started (token_of_append hgrows.tokens (h.line s hs)) hfired hnot
  refine ⟨fun hline => ?_, fun hunended => ?_⟩
  · exact (he.full_of_settled hsettled hline).2 (hgrows.fired hfired)
  · obtain ⟨hadmitted, hopen⟩ := List.mem_filter.1 hunended
    rcases he.started_of_settled hsettled hadmitted with hstarted | hskipped
    · exact hnever hstarted
    · simp [hskipped] at hopen

/-! ### Capacity -/

/-- The number of slots stays. -/
theorem Step.capacity (h : d.Step e) :
  e.runner.capacity = d.runner.capacity
  := by
  cases h with
  | submit | turn | wait | fire => rfl
  | enter henter =>
    obtain ⟨_, _, -, -, -, -, rfl⟩ := Runner.enter?_eq_some henter
    rfl
  | drop hdrop =>
    obtain ⟨_, -, -, -, -, rfl⟩ := Runner.drop?_eq_some hdrop
    rfl
  | report hreport =>
    obtain ⟨_, -, -, -, -, rfl⟩ := Runner.report?_eq_some hreport
    rfl

theorem Runs.capacity (h : (opened n).Runs d) :
  d.runner.capacity = if n = 0 then Runner.usualCapacity else n
  := by
  induction h with
  | refl => rfl
  | tail _ hleads ih =>
    obtain ⟨a, ha⟩ := hleads
    rw [(step_of_move ha).capacity, ih]

/-! ### Slots and starts -/

/-- A runner keeps its slots, and starts no body twice, whatever the order of the calls, of the
tokens that fire and of the bodies that end.  Those at the runner can go on only so often.  When
nobody can go on any more, the slots that are not free are as many as the admitted tasks that have
not ended, every admitted task has started or was skipped, and a task waits only for lack of a
slot.  At no time do more bodies run than there are slots.  A body starts once at most, and only if
its task was admitted and not skipped; only tasks whose token has fired are dropped or skipped.
Tasks are admitted in the order in which they came, and one whose token fires can leave the line
from wherever it stands.  Whatever comes later, a body whose token had fired before its start does
not start, one that has started stays free to end in any way until it has ended, and a task whose
token fired in the line waits no more in the end and holds no slot. -/
theorem Runs.slots_kept (h : (opened n).Runs d) :
  d.runner.capacity = (if n = 0 then Runner.usualCapacity else n) ∧
  ((∀ e, d.Serves e → e.runner.work < d.runner.work) ∧ ∃ e, d.Settles e ∧ e.IsSettled) ∧
  (d.IsSettled →
    d.runner.free + d.unended.length = d.runner.capacity ∧
    (∀ k ∈ d.admitted, k ∈ d.started ∨ k ∈ d.skipped) ∧
    ∀ s ∈ d.runner.line, d.runner.free = 0 ∧ s.token ∉ d.runner.fired) ∧
  d.running.length ≤ d.runner.capacity ∧
  (d.started.Nodup ∧ ∀ k ∈ d.started, k ∈ d.admitted ∧ k ∉ d.dropped ∧ k ∉ d.skipped) ∧
  (∀ k ∈ d.dropped ++ d.skipped, ∃ token ∈ d.runner.fired, d.tokens[k]? = some token) ∧
  ((d.admitted ++ d.runner.line.map Submission.task).Sublist (List.range d.tokens.length) ∧
    (d.admitted ++ (d.runner.line.map Submission.task ++ d.dropped)).Perm
      (List.range d.tokens.length)) ∧
  (∀ s ∈ d.runner.line, s.token ∈ d.runner.fired →
    ∃ before after, d.runner.line = before ++ s :: after ∧
      d.Serves { d with
        runner := { d.runner with line := before ++ after }
        dropped := d.dropped ++ [s.task] }) ∧
  ∀ e, d.Runs e →
    (∀ k token, e.tokens[k]? = some token → token ∈ d.runner.fired → k ∉ d.started →
      k ∉ e.started) ∧
    (∀ k ∈ d.started, k ∈ e.started ∧
      ((∃ o, (k, o) ∈ e.ended) ∨ ∀ o, ∃ f, e.move (.finish k o) = some f)) ∧
    (e.IsSettled → ∀ s ∈ d.runner.line, s.token ∈ d.runner.fired →
      s ∉ e.runner.line ∧ s.task ∉ e.unended)
  := by
  have hd := h.sound
  refine ⟨h.capacity, ⟨fun e => hd.work_lt, hd.exists_settled⟩, ?_, hd.length_running_le,
    ⟨hd.single, fun k => hd.notMem_lost⟩, hd.lost, ⟨hd.order, hd.fates⟩,
    fun s => hd.exists_dropped, ?_⟩
  · intro hsettled
    exact ⟨hd.slots_of_settled hsettled, fun k => hd.started_of_settled hsettled,
      fun s => hd.full_of_settled hsettled⟩
  · intro e hruns
    have hgrows := hd.grows hruns
    refine ⟨fun k token => hgrows.notMem_started, fun k hk => ?_, ?_⟩
    · have hstarted := hgrows.started.subset hk
      exact ⟨hstarted, (hd.runs hruns).ends_or_runs hstarted⟩
    · intro hsettled s hs hfired
      exact hd.notMem_unended hs hfired hruns hsettled

/-! ### A docket on which every kind of end occurs -/

/-- There is one slot.  Of the tasks that wait for it the second leaves the line, the third is
skipped, and the fourth starts, although its token fires later; the fifth waits until it ends. -/
def livelyActions : List Runner.Action :=
  [.submit (.caller 0) "t", .enter (.caller 0), .start 0, .submit (.caller 1) "x",
    .submit (.caller 2) "y", .submit (.caller 3) "z", .submit (.caller 4) "t", .fire "x",
    .drop (.caller 1), .finish 0 (.panicked (.text "boom")), .collect 0, .enter (.caller 2),
    .fire "y", .skip 2, .enter (.caller 3), .start 3, .fire "z"]

/-- The docket in the end. -/
def livelyEnd : Docket :=
  (livelyActions.foldlM move (opened 1)).getD (opened 1)

theorem runs_lively :
  (opened 1).Runs livelyEnd
  := by
  apply reflTransGen_of_isSome
  decide +kernel

theorem slots_kept_lively :
  livelyEnd.started = [0, 3] ∧ livelyEnd.dropped = [1] ∧ livelyEnd.skipped = [2] ∧
  livelyEnd.runner.line.map Submission.task = [4] ∧ livelyEnd.running.length ≤ 1 ∧
  ∀ o, ∃ e, livelyEnd.move (.finish 3 o) = some e
  := by
  have hstarted : livelyEnd.started = [0, 3] := by decide +kernel
  have hended : livelyEnd.ended = [(0, .panicked (.text "boom"))] := by decide +kernel
  obtain ⟨hcapacity, -, -, hrunning, -, -, -, -, hlater⟩ := Runs.slots_kept runs_lively
  refine ⟨hstarted, by decide +kernel, by decide +kernel, by decide +kernel, ?_, ?_⟩
  · rw [hcapacity] at hrunning
    exact hrunning
  · have hmem : 3 ∈ livelyEnd.started := by
      rw [hstarted]
      decide
    rcases ((hlater livelyEnd .refl).2.1 3 hmem).2 with ⟨o, ho⟩ | hfree
    · rw [hended] at ho
      cases List.mem_singleton.1 ho
    · exact hfree

end Reconciliation.Docket
