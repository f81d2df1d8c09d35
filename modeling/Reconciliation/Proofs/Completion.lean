import Reconciliation.Proofs.Bodies
import Reconciliation.Proofs.Occupancy
import Reconciliation.Proofs.Results

/-!
# Waiting for all uploads

A caller that waits, once, after all uploads, waits for the tasks of all of them
(`Session.HasWaited`).  When it is told the errors, every task is over, so every upload is where its
task has left it (`Session.HasWaited.exists_record`); and since the errors are those of the tasks,
they are those of the failed uploads (`Session.HasWaited.errors_perm`).
-/

namespace Reconciliation

/-! ### One wait, after all uploads -/

namespace Session

variable {start s t u : Session} {caller : Party} {task : Nat} {id : String}
  {statement : Statement}

/-- A caller has waited once, after all uploads had returned: since then nobody has uploaded a
statement, and nobody else has waited. -/
def HasWaited (start : Session) (caller : Party) (s : Session) : Prop :=
  ∃ t u, start.RunsBy (fun m => !m.isWait) t ∧ t.processor.runner.line = [] ∧
    t.move (.wait caller) = some u ∧ u.RunsBy (fun m => !m.isCall) s

theorem HasWaited.runs (h : start.HasWaited caller s) :
  start.Runs s
  := by
  obtain ⟨t, u, ht, -, hwait, hs⟩ := h
  exact (ht.runs.tail ⟨_, hwait⟩).trans hs.runs

/-- Until somebody waits, nobody has taken over a task. -/
theorem RunsBy.isUnwaited (hnew : start.IsNew) (h : start.RunsBy (fun m => !m.isWait) t) :
  t.processor.runner.IsUnwaited
  := by
  obtain ⟨n, hrunner⟩ := hnew.processor.runner
  apply h.keeps (fun hallowed hfollows => hfollows.isUnwaited (by simpa using hallowed))
  rw [hrunner]
  exact Runner.isUnwaited_ofCapacity n

/-- Without another call those who wait go on waiting for all tasks. -/
theorem RunsBy.hasWaiters (hu : u.processor.runner.HasWaiters)
    (h : u.RunsBy (fun m => !m.isCall) s) :
  s.processor.runner.HasWaiters
  := h.keeps (fun hallowed hfollows => hfollows.hasWaiters (by simpa using hallowed)) hu

theorem HasWaited.hasWaiters (hnew : start.IsNew) (h : start.HasWaited caller s) :
  s.processor.runner.HasWaiters
  := by
  obtain ⟨t, u, ht, hline, hwait, hs⟩ := h
  apply RunsBy.hasWaiters _ hs
  have hu : t.processor.wait caller = u.processor := Option.some.inj (move_eq_some.1 hwait).1
  rw [← hu]
  exact (ht.isUnwaited hnew).wait hline caller

/-! ### The end of the wait -/

/-- No slot was ever given to the task of an upload, or the task was skipped. -/
def isPassedOver (s : Session) (task : Nat) : Bool :=
  match s.processor.runner.phase? task with
  | none => true
  | some .skipped => true
  | some .admitted => false
  | some .running => false
  | some (.returned _) => false
  | some (.ended _) => false

/-- What is known of all uploads, in the order of their acceptance. -/
def uploads (s : Session) : List Upload :=
  s.journal.accepted.filterMap fun upload =>
    (s.processor.store.get? upload.1).map UploadRecord.upload

/-- A caller that has waited is told these errors. -/
def Tells (s : Session) (caller : Party) (errors : List Fault) : Prop :=
  ∃ p, s.processor.apply (.report caller) = some (p, some (.waited errors))

theorem Tells.exists_report {errors : List Fault} (h : s.Tells caller errors) :
  ∃ r, s.processor.runner.report? caller = some (errors, r)
  := by
  obtain ⟨p, hp⟩ := h
  obtain ⟨⟨errors', r⟩, hreport, heq⟩ := Option.map_eq_some_iff.1 hp
  cases heq
  exact ⟨r, hreport⟩

end Session

/-- An upload whose task is over and did nothing, is over and was brought down, or is over and has
written everything. -/
theorem Course.Agrees.cases_of_isOver {missing : List Part} {id : String} {st : Statement}
    {c : Course} (h : c.Agrees missing id st)
    (hover : ∀ phase, c.phase = some phase → phase.isOver = true) :
  ((c.phase = none ∨ c.phase = some .skipped) ∧ c.record = .accepted id) ∨
  (∃ payload begin, c.phase = some (.ended (.panicked payload)) ∧ st.panics ∧
    c.record = Processor.begun begin (.accepted id)) ∨
  (∃ begin close, c.phase = some (.ended (Processor.conclusion st.fatal?)) ∧
    c.record = st.result id begin close)
  := by
  cases hphase : c.phase with
  | none =>
    have hrecord := h.fresh_of_phase (by simp [hphase]) (by rw [Course.outcome?, hphase]; rfl)
    exact .inl ⟨.inl rfl, hrecord.2.1⟩
  | some phase =>
    cases phase with
    | skipped =>
      have hrecord := h.fresh_of_phase (by simp [hphase])
        (by rw [Course.outcome?, hphase]; rfl)
      exact .inl ⟨.inr rfl, hrecord.2.1⟩
    | ended o =>
      have ho : c.outcome? = some o := by
        rw [Course.outcome?, hphase]
        rfl
      obtain ⟨-, -, hclosed⟩ := h.ended_of_outcome? ho
      cases hclosed with
      | finished _ begin close hrecord houtcome =>
        cases ho.symm.trans houtcome
        rw [closed_eq_result] at hrecord
        exact .inr (.inr ⟨begin, close, rfl, hrecord⟩)
      | panicked hpanics begin hrecord m houtcome =>
        cases ho.symm.trans houtcome
        exact .inr (.inl ⟨_, begin, rfl, hpanics, hrecord⟩)
    | admitted | running | returned => cases hover _ hphase

namespace Session

variable {start s t u : Session} {caller : Party} {task : Nat} {id : String}
  {statement : Statement} {errors : List Fault}

/-- When the wait returns, the task of every upload is over. -/
theorem HasWaited.exists_course (hnew : start.IsNew) (h : start.HasWaited caller s)
    (htells : s.Tells caller errors)
    (haccepted : s.journal.accepted[task]? = some (id, statement)) :
  ∃ c, s.Shows task id c ∧ c.Agrees start.processor.missing id statement ∧
    ∀ phase, c.phase = some phase → phase.isOver = true
  := by
  obtain ⟨r, hreport⟩ := htells.exists_report
  obtain ⟨c, hc, hagrees⟩ := h.runs.agrees hnew haccepted
  refine ⟨c, hc, hagrees, fun phase hphase => ?_⟩
  exact (h.hasWaiters hnew).isOver hreport (hc.phase.trans hphase)

/-- A task is dropped or skipped only after the token has fired. -/
theorem HasWaited.fired_of_isPassedOver (hnew : start.IsNew) (h : start.HasWaited caller s)
    (htask : task < s.journal.accepted.length) (hpassed : s.isPassedOver task) :
  Processor.root ∈ s.processor.runner.fired
  := by
  have haccounts := h.runs.accounts hnew
  have hne : s.processor.runner.fired ≠ [] := by
    intro hnil
    rw [← (h.runs.sound hnew.sound).submitted] at htask
    have hmem := haccounts.all hnil task htask
    rw [Runner.numbers, (h.hasWaiters hnew).line, List.map_nil, List.nil_append] at hmem
    obtain ⟨phase, hphase⟩ := Runner.exists_phase?_iff.2 hmem
    rw [isPassedOver, hphase] at hpassed
    cases phase with
    | skipped => exact haccounts.unskipped hnil task hphase
    | admitted | running | returned | ended => cases hpassed
  obtain ⟨token, htoken⟩ := List.exists_mem_of_ne_nil _ hne
  rw [← h.runs.fired hnew token htoken]
  exact htoken

/-- When the wait returns, an upload is as it was accepted if its task was dropped or skipped, it is
being processed if its task was brought down, and otherwise it is at its final stage. -/
theorem HasWaited.exists_record (hnew : start.IsNew) (h : start.HasWaited caller s)
    (htells : s.Tells caller errors)
    (haccepted : s.journal.accepted[task]? = some (id, statement)) :
  ∃ r, s.processor.store.get? id = some r ∧
    (s.isPassedOver task = true →
      Processor.root ∈ s.processor.runner.fired ∧ r = .accepted id) ∧
    (s.isBroken task = true →
      r.upload.stage = .processing ∧ ∃ m, statement.ending = .panicking m) ∧
    (s.isPassedOver task = false → s.isBroken task = false → r.upload.stage.isTerminal = true)
  := by
  obtain ⟨c, hc, hagrees, hover⟩ := h.exists_course hnew htells haccepted
  have hfired := h.fired_of_isPassedOver hnew (List.getElem?_eq_some_iff.1 haccepted).1
  refine ⟨c.record, hc.record, ?_⟩
  rcases hagrees.cases_of_isOver hover with
    ⟨hphase, hrecord⟩ | ⟨payload, begin, hphase, hpanics, hrecord⟩ | ⟨begin, close, hphase, hrecord⟩
  · have hpassed : s.isPassedOver task = true := by
      rw [isPassedOver, hc.phase]
      rcases hphase with hphase | hphase
      all_goals rw [hphase]
    have hbroken : s.isBroken task = false := by
      rw [isBroken, hc.phase]
      rcases hphase with hphase | hphase
      all_goals rw [hphase]; rfl
    rw [hpassed, hbroken]
    exact ⟨fun _ => ⟨hfired hpassed, hrecord⟩, by simp, by simp⟩
  · have hpassed : s.isPassedOver task = false := by
      rw [isPassedOver, hc.phase, hphase]
    have hbroken : s.isBroken task = true := by
      rw [isBroken, hc.phase, hphase]
      rfl
    rw [hpassed, hbroken, hrecord]
    exact ⟨by simp, fun _ => ⟨rfl, Statement.ending_of_panics hpanics⟩, by simp⟩
  · have hpassed : s.isPassedOver task = false := by
      rw [isPassedOver, hc.phase, hphase]
    have hbroken : s.isBroken task = false := by
      rw [isBroken, hc.phase, hphase]
      cases statement.fatal? with
      | none => rfl
      | some f => rfl
    rw [hpassed, hbroken, hrecord]
    refine ⟨by simp, by simp, fun _ _ => ?_⟩
    rw [Statement.result]
    cases statement.fatal? with
    | none => rfl
    | some f => rfl

/-! ### The errors -/

/-- The error of the task of an upload is that of the upload, if it has failed. -/
theorem HasWaited.faultsOf_eq (hnew : start.IsNew) (h : start.HasWaited caller s)
    (htells : s.Tells caller errors)
    (haccepted : s.journal.accepted[task]? = some (id, statement)) :
  (s.processor.runner.faultsOf task).map (fun f => some f.message)
    = ((((s.processor.store.get? id).map UploadRecord.upload).toList).filter
        (fun u => u.stage == .failed)).map Upload.error
  := by
  obtain ⟨c, hc, hagrees, hover⟩ := h.exists_course hnew htells haccepted
  rw [Runner.faultsOf, hc.phase, hc.record]
  rcases hagrees.cases_of_isOver hover with
    ⟨hphase | hphase, hrecord⟩ | ⟨payload, begin, hphase, -, hrecord⟩ |
    ⟨begin, close, hphase, hrecord⟩
  · rw [hphase, hrecord]
    rfl
  · rw [hphase, hrecord]
    rfl
  · rw [hphase, hrecord]
    rfl
  · rw [hphase, hrecord, Statement.result]
    cases statement.fatal? with
    | none => rfl
    | some f => rfl

/-- The errors are those of the failed uploads, one of each. -/
theorem HasWaited.errors_perm (hnew : start.IsNew) (h : start.HasWaited caller s)
    (htells : s.Tells caller errors) :
  (errors.map (fun f => some f.message)).Perm
    ((s.uploads.filter (fun u => u.stage == .failed)).map Upload.error)
  := by
  obtain ⟨r, hreport⟩ := htells.exists_report
  obtain ⟨w, -, -, -, rfl, -⟩ := Runner.report?_eq_some hreport
  refine ((h.runs.accounts hnew).errors_perm.map _).trans (.of_eq ?_)
  rw [(h.runs.sound hnew.sound).submitted, uploads, List.filterMap_eq_flatMap_toList,
    List.filter_flatMap, List.map_flatMap, List.map_flatMap, ← List.map_coe_finRange_eq_range,
    List.flatMap_map]
  apply flatMap_finRange
  intro k
  exact h.faultsOf_eq hnew htells (List.getElem?_eq_getElem k.2)

/-- No error is one of the store: all tell why a statement cannot be read. -/
theorem HasWaited.unreadable (hnew : start.IsNew) (h : start.HasWaited caller s)
    (htells : s.Tells caller errors) {f : Fault} (hf : f ∈ errors) :
  ∃ line m, f = .unreadable line m
  := by
  obtain ⟨r, hreport⟩ := htells.exists_report
  obtain ⟨w, -, -, -, rfl, -⟩ := Runner.report?_eq_some hreport
  rw [(h.runs.accounts hnew).errors_perm.mem_iff, List.mem_flatMap] at hf
  obtain ⟨task, htask, hfaults⟩ := hf
  rw [(h.runs.sound hnew.sound).submitted, List.mem_range] at htask
  obtain ⟨⟨id, statement⟩, haccepted⟩ : ∃ upload, s.journal.accepted[task]? = some upload :=
    ⟨_, List.getElem?_eq_getElem htask⟩
  obtain ⟨c, hc, hagrees, hover⟩ := h.exists_course hnew htells haccepted
  rw [Runner.faultsOf, hc.phase] at hfaults
  rcases hagrees.cases_of_isOver hover with
    ⟨hphase | hphase, -⟩ | ⟨payload, begin, hphase, -⟩ | ⟨begin, close, hphase, -⟩
  · rw [hphase] at hfaults
    cases hfaults
  · rw [hphase] at hfaults
    cases hfaults
  · rw [hphase] at hfaults
    cases hfaults
  · rw [hphase] at hfaults
    cases hfatal : statement.fatal? with
    | none =>
      rw [hfatal] at hfaults
      cases hfaults
    | some g =>
      rw [hfatal] at hfaults
      obtain rfl := List.mem_singleton.1 hfaults
      obtain ⟨m, rfl⟩ := statement.line_of_fatal? hfatal
      exact ⟨_, m, rfl⟩

/-! ### The way there -/

/-- As long as a caller waits, somebody can go on, unless a task waits for the bus to take its
notice. -/
theorem HasWaited.goesOn (hnew : start.IsNew) (h : start.HasWaited caller s)
    (hwaits : ∃ w ∈ s.processor.runner.waits, w.caller = caller) :
  (∃ a, (s.processor.apply a).isSome) ∨
  ∃ task job, s.processor.jobs.get? task = some job ∧ (job.stage.offer? task).isSome
  := by
  have hwaiters := h.hasWaiters hnew
  by_cases hall : (s.processor.runner.tasks.map Prod.fst).all s.processor.runner.isOver
  · obtain ⟨w, hw, hcaller⟩ := hwaits
    have hfind : (s.processor.runner.waits.find? (fun w => w.caller == caller)).isSome := by
      rw [List.find?_isSome]
      exact ⟨w, hw, by rw [hcaller, beq_self_eq_true]⟩
    obtain ⟨v, hv⟩ := Option.isSome_iff_exists.1 hfind
    refine .inl ⟨.report caller, ?_⟩
    rw [Processor.apply, Option.isSome_map, Runner.report?, hv]
    simp only
    rw [hwaiters.waits v (List.mem_of_find?_eq_some hv), if_pos hall]
    rfl
  · rw [List.all_eq_true] at hall
    obtain ⟨task, hnot⟩ := Classical.not_forall.1 hall
    obtain ⟨htask, hover⟩ := Classical.not_imp.1 hnot
    obtain ⟨phase, hphase⟩ := Runner.exists_phase?_iff.2 htask
    rw [Runner.isOver, hphase] at hover
    rcases h.runs.goesOn hnew hphase (Bool.not_eq_true _ ▸ hover) with
      ⟨job, hjob, hoffer⟩ | ⟨party, -, a, -, ha⟩
    · exact .inr ⟨task, job, hjob, hoffer⟩
    · exact .inl ⟨a, ha⟩

theorem Runs.work_lt (hnew : start.IsNew) (h : start.Runs s) {a : Processor.Action}
    {p : Processor} {reply : Option Processor.Reply} (ha : s.processor.apply a = some (p, reply)) :
  p.work < s.processor.work
  := by
  have hs := h.sound hnew.sound
  exact (Processor.acts_of_apply ha).work_lt hs.numbered.keys hs.keys

/-- A caller who waits once, after all uploads, learns what became of them.  While it waits somebody
can go on, unless a publisher's answer is due, and there is less to do each time.  What it is told
are the errors of the failed uploads, one of each, and none of the store; and by then every upload
whose task was neither dropped nor skipped is done or has failed, and the others are as they were
accepted.  Only a panic of its statement leaves an upload in processing, and adds no error.  At no
time are more uploads in processing than there are slots, but for those. -/
theorem IsNew.waits_for_all (hnew : start.IsNew) :
  (∀ s, start.Runs s →
    (s.processing.filter (fun task => !s.isBroken task)).length
      ≤ start.processor.runner.capacity) ∧
  ∀ caller s, start.HasWaited caller s →
    ((∃ w ∈ s.processor.runner.waits, w.caller = caller) →
      ((∃ a, (s.processor.apply a).isSome) ∨
        ∃ task job, s.processor.jobs.get? task = some job ∧ (job.stage.offer? task).isSome) ∧
      ∀ a p reply, s.processor.apply a = some (p, reply) → p.work < s.processor.work) ∧
    ∀ errors, s.Tells caller errors →
      (∀ task id statement, s.journal.accepted[task]? = some (id, statement) →
        ∃ r, s.processor.store.get? id = some r ∧
          (s.isPassedOver task = true →
            Processor.root ∈ s.processor.runner.fired ∧ r = .accepted id) ∧
          (s.isBroken task = true →
            r.upload.stage = .processing ∧ ∃ m, statement.ending = .panicking m) ∧
          (s.isPassedOver task = false → s.isBroken task = false →
            r.upload.stage.isTerminal = true)) ∧
      (errors.map (fun f => some f.message)).Perm
        ((s.uploads.filter (fun u => u.stage == .failed)).map Upload.error) ∧
      ∀ f ∈ errors, ∃ line m, f = .unreadable line m
  := by
  refine ⟨fun s h => h.length_processing_le hnew, fun caller s h => ⟨fun hwaits => ?_, ?_⟩⟩
  · exact ⟨h.goesOn hnew hwaits, fun a p reply ha => h.runs.work_lt hnew ha⟩
  · intro errors htells
    refine ⟨?_, h.errors_perm hnew htells, fun f hf => h.unreadable hnew htells hf⟩
    intro task id statement haccepted
    exact h.exists_record hnew htells haccepted

/-! ### A wait for one upload of each kind -/

/-- What happens when a caller uploads a statement, and the body of its task takes some steps. -/
def visit (task : Nat) (statement : Statement) (steps : Nat) : List Processor.Move :=
  [.upload (.caller task) statement, .act (.enter (.caller task)), .act (.start task)] ++
    List.replicate steps (.act (.proceed task)) ++ [.act (.collect task)]

/-- One slot, for uploads one after the other. -/
def mixedStart : Session :=
  { processor := {
      ids := .listed ["a", "b", "c", "d", "e"]
      clock := .frozen 7
      runner := .ofCapacity 1
      bus := .ofCapacity 1 } }

/-- One statement is read to its end, one breaks off, and two bring their tasks down; another one is
uploaded, but the token fires before its task starts. -/
def mixedMoves : List Processor.Move :=
  visit 0 { bytes := [] } 4 ++ visit 1 { bytes := [], ending := .broken "gone" } 4 ++
    visit 2 { bytes := [], ending := .panicking "boom" } 2 ++
    visit 3 { bytes := [], ending := .panicking "boom" } 2 ++
    [.upload (.caller 4) { bytes := [] }, .act (.enter (.caller 4)), .cancel, .act (.skip 4)]

/-- The session before the wait. -/
def mixedEnd : Session :=
  (mixedMoves.foldlM move mixedStart).getD mixedStart

/-- The session with a caller waiting. -/
def mixedWait : Session :=
  { mixedEnd with processor := mixedEnd.processor.wait (.caller 5) }

theorem isNew_mixedStart :
  mixedStart.IsNew
  where
    processor := ⟨rfl, rfl, 1, rfl⟩
    journal := rfl

theorem runsBy_of_foldlM {allowed : Processor.Move → Bool} {ms : List Processor.Move}
    (hallowed : ms.all allowed) (h : ms.foldlM move s = some t) :
  s.RunsBy allowed t
  := by
  induction ms generalizing s with
  | nil =>
    cases h
    exact .refl
  | cons m ms ih =>
    rw [List.all_cons, Bool.and_eq_true] at hallowed
    obtain ⟨u, hu, ht⟩ := Option.bind_eq_some_iff.1 h
    exact (ih hallowed.2 ht).head ⟨m, hallowed.1, hu⟩

theorem hasWaited_mixed :
  mixedStart.HasWaited (.caller 5) mixedWait
  := by
  have hmoves : mixedMoves.foldlM move mixedStart = some mixedEnd := by decide +kernel
  have hallowed : mixedMoves.all (fun m => !m.isWait) := by decide +kernel
  exact ⟨mixedEnd, mixedWait, runsBy_of_foldlM hallowed hmoves, by decide +kernel, rfl, .refl⟩

theorem tells_mixed :
  mixedWait.Tells (.caller 5) [.unreadable (some 1) "gone"]
  := by
  have hreply : (mixedWait.processor.apply (.report (.caller 5))).map Prod.snd
      = some (some (.waited [.unreadable (some 1) "gone"])) := by
    decide +kernel
  obtain ⟨⟨p, reply⟩, hp, rfl⟩ := Option.map_eq_some_iff.1 hreply
  exact ⟨p, hp⟩

theorem waits_for_all_mixed :
  mixedWait.uploads.map Upload.stage = [.done, .failed, .processing, .processing, .queued] ∧
  ([Fault.unreadable (some 1) "gone"].map (fun f => some f.message)).Perm
    ((mixedWait.uploads.filter (fun u => u.stage == .failed)).map Upload.error) ∧
  ∀ task id statement, mixedWait.journal.accepted[task]? = some (id, statement) →
    ∃ r, mixedWait.processor.store.get? id = some r ∧
      (mixedWait.isPassedOver task = false → mixedWait.isBroken task = false →
        r.upload.stage.isTerminal = true)
  := by
  have hwaits := (IsNew.waits_for_all isNew_mixedStart).2 (.caller 5) mixedWait hasWaited_mixed
  obtain ⟨hrecords, herrors, -⟩ := hwaits.2 _ tells_mixed
  refine ⟨by decide +kernel, herrors, fun task id statement haccepted => ?_⟩
  obtain ⟨r, hr, -, -, hterminal⟩ := hrecords task id statement haccepted
  exact ⟨r, hr, hterminal⟩

/-- A panic of its statement leaves an upload in processing for good, also when its task is over and
the wait has returned; and then there may be more such uploads than slots. -/
theorem left_in_processing :
  (¬ ∀ (start s : Session) (caller : Party) (errors : List Fault), start.IsNew →
    start.HasWaited caller s → s.Tells caller errors → ∀ task id statement,
      s.journal.accepted[task]? = some (id, statement) → s.isPassedOver task = false →
      ∃ r, s.processor.store.get? id = some r ∧ r.upload.stage.isTerminal = true) ∧
  ¬ ∀ start s : Session, start.IsNew → start.Runs s →
    s.processing.length ≤ start.processor.runner.capacity
  := by
  constructor
  · intro hall
    have haccepted : mixedWait.journal.accepted[2]?
        = some ("c", { bytes := [], ending := .panicking "boom" }) := by
      decide +kernel
    obtain ⟨r, hr, hterminal⟩ := hall _ _ _ _ isNew_mixedStart hasWaited_mixed tells_mixed _ _ _
      haccepted (by decide +kernel)
    have hstage : (mixedWait.processor.store.get? "c").map (fun r => r.upload.stage)
        = some .processing := by
      decide +kernel
    rw [hr, Option.map_some, Option.some.injEq] at hstage
    rw [hstage] at hterminal
    cases hterminal
  · intro hall
    have hle := hall _ _ isNew_mixedStart hasWaited_mixed.runs
    revert hle
    decide +kernel

end Session

end Reconciliation
