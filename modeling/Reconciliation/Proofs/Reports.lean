import Mathlib
import Reconciliation.Proofs.Equipment
import Reconciliation.Proofs.Lossless
import Reconciliation.Proofs.Progress
import Reconciliation.Proofs.Results
import Reconciliation.Proofs.Wear

/-!
# What a run reports

`ReportKind.text` is the report on some inputs, each of them read alone and from the beginning:
`Input.summaryRow` and `Input.issueRows` are what the statement of an input comes to, and the text
is read back as the columns of the report and the rows of the inputs in their order
(`ReportKind.Shows`).  `Engine.process_eq` says that every run writes this report, whatever the
settings are and in whatever order its parties act: the usher hears that all inputs are processed
only when every record is written, and the uploads are listed in the order of the inputs.
-/

namespace Reconciliation

/-- An action for each element of one list that gives what belongs to the element next to it. -/
theorem mapM_of_forall₂ {α β γ ε : Type} {f : α → Except ε γ} {g : β → γ} {l : List β}
    {l' : List α} (h : List.Forall₂ (fun b a => f a = .ok (g b)) l l') :
  l'.mapM f = .ok (l.map g)
  := by
  induction h with
  | nil => rfl
  | cons hab _ ih =>
    rw [List.mapM_cons, hab, ih]
    rfl

/-! ### The report on some inputs -/

/-- The transactions of a statement that are reported.  There are none if its reading brings the
reading task down. -/
def Statement.reported (s : Statement) : List Transaction :=
  if s.panics then [] else s.issues

namespace Input

/-- The row of an input in the summary.  If its reading brings the reading task down, its upload
stays as it was when the reading began. -/
def summaryRow (i : Input) : SummaryRow :=
  if i.statement.panics then
    { file := i.label, stage := .processing, balance := 0, counts := {}, issues := 0 }
  else
    { file := i.label
      stage := if i.statement.fatal?.isSome then .failed else .done
      balance := i.statement.balance
      counts := i.statement.counts
      issues := i.statement.issues.length }

/-- The rows of an input in the issues report. -/
def issueRows (filter : IssueFilter) (i : Input) : List IssueRow :=
  (i.statement.reported.filter filter.selects).map fun transaction =>
    { file := i.label, transaction }

end Input

/-- The report on some inputs, with the rows of each of them in their order. -/
def ReportKind.text : ReportKind → List Input → String
  | .summary, inputs => Report.summary (inputs.map Input.summaryRow)
  | .issues filter, inputs => Report.issues (inputs.flatMap (Input.issueRows filter))

/-- The columns of a report. -/
def ReportKind.columns : ReportKind → List String
  | .summary =>
    ["file", "status", "balance", "total_lines", "parsed_ok", "parse_errors", "issues"]
  | .issues _ => ["file", "timestamp", "counterparty", "type", "amount", "status", "description"]

/-- The records tell the rows of the inputs, one after the other. -/
def ReportKind.Shows : ReportKind → List Input → List (List String) → Prop
  | .summary, inputs, records =>
    records.map SummaryRow.ofFields? = inputs.map (fun i => some i.summaryRow)
  | .issues filter, inputs, records =>
    List.Forall₂ (fun (r : IssueRow) fields =>
      fields.head? = some r.file ∧ Line.transaction fields.tail = .ok r.transaction)
      (inputs.flatMap (Input.issueRows filter)) records

theorem Statement.isTidy_of_mem_reported {s : Statement} {t : Transaction}
    (ht : t ∈ s.reported) :
  t.IsTidy
  := by
  rw [reported] at ht
  split at ht
  · cases ht
  · exact isTidy_of_mem_issues ht

theorem Input.isTidy_of_mem_issueRows {filter : IssueFilter} {i : Input} {r : IssueRow}
    (hr : r ∈ i.issueRows filter) :
  r.transaction.IsTidy
  := by
  obtain ⟨t, ht, rfl⟩ := List.mem_map.1 hr
  exact Statement.isTidy_of_mem_reported (List.mem_filter.1 ht).1

/-- The report on some inputs is read back as its columns and the rows of the inputs. -/
theorem ReportKind.exists_parse_text (kind : ReportKind) (inputs : List Input) :
  ∃ records, Csv.parse (kind.text inputs) = .ok (kind.columns :: records) ∧
    kind.Shows inputs records
  := by
  cases kind with
  | summary =>
    refine ⟨_, Report.parse_summary _, ?_⟩
    rw [Shows, Report.map_ofFields?, List.map_map]
    rfl
  | issues filter =>
    refine ⟨_, Report.parse_issues _, Report.forall₂_issueFields fun r hr => ?_⟩
    obtain ⟨i, -, hr⟩ := List.mem_flatMap.1 hr
    exact Input.isTidy_of_mem_issueRows hr

/-! ### Records -/

/-- The issues filter selects what calls for attention. -/
theorem IssueFilter.selects_issues (t : Transaction) :
  issues.selects t = t.outcome.isIssue
  := by
  rw [selects, issues]
  cases t.outcome with
  | success | failed | pending => rfl

theorem Statement.filter_reported (s : Statement) :
  s.reported.filter IssueFilter.issues.selects = s.reported
  := by
  rw [List.filter_eq_self]
  intro t ht
  rw [IssueFilter.selects_issues]
  rw [reported] at ht
  split at ht
  · cases ht
  · exact (List.mem_filter.1 ht).2

theorem Statement.length_reported_le (s : Statement) :
  s.reported.length ≤ s.bytes.length
  := by
  rw [reported]
  split
  · exact Nat.zero_le _
  · exact s.length_issues_le

namespace Course.Closed

variable {id : String} {s : Statement} {c : Course}

/-- A task that has ended leaves the reported transactions behind. -/
theorem issues_eq (h : c.Closed id s) :
  c.record.issues = s.reported
  := by
  cases h with
  | finished hpanics begin close hrecord =>
    rw [hrecord, closed_eq_result, Statement.reported, hpanics]
    rfl
  | panicked hpanics begin hrecord =>
    rw [hrecord, Statement.reported, hpanics]
    rfl

/-- A task that has ended leaves the row of its input behind. -/
theorem summaryRow_eq (h : c.Closed id s) (file : String) :
  Input.summaryRow { label := file, statement := s }
    = { file
        stage := c.record.upload.stage
        balance := c.record.balance
        counts := c.record.upload.counts
        issues := s.reported.length }
  := by
  cases h with
  | finished hpanics begin close hrecord =>
    rw [hrecord, closed_eq_result, Statement.reported, Input.summaryRow, hpanics]
    rfl
  | panicked hpanics begin hrecord =>
    rw [hrecord, Statement.reported, Input.summaryRow, hpanics]
    rfl

end Course.Closed

/-! ### Settings -/

namespace Settings

/-- The most permits that a semaphore has. -/
def permitsLimit : Nat := 0x1FFFFFFFFFFFFFFF

/-- There is an engine with the settings: its slots, and the room on its bus, are permits of
semaphores. -/
structure IsFeasible (s : Settings) : Prop where
  slots : s.runnerCapacity ≤ permitsLimit
  room : s.busCapacity ≤ permitsLimit

theorem replaceZero_le {value default limit : Nat} (hvalue : value ≤ limit)
    (hdefault : default ≤ limit) :
  replaceZero value default ≤ limit
  := by
  rw [replaceZero]
  split
  · exact hdefault
  · exact hvalue

/-- No semaphore of an engine is asked for more permits than it has. -/
theorem IsFeasible.capacities_le {s : Settings} (h : s.IsFeasible) {ids : IdSource} {clock : Clock}
    {inputs : List Input} {e : Engine}
    (he : Engine.system.Reachable (Engine.start s ids clock inputs) e) :
  e.processor.runner.capacity ≤ permitsLimit ∧ e.processor.bus.capacity ≤ permitsLimit
  := by
  have hequipped := Engine.isEquippedLike_of_reachable he
  rw [hequipped.slots, hequipped.room]
  constructor
  · show (Runner.ofCapacity s.normalized.runnerCapacity).capacity ≤ permitsLimit
    rw [Runner.ofCapacity]
    dsimp only
    split
    · decide
    · exact replaceZero_le h.slots (by decide)
  · exact Nat.max_le.2 ⟨replaceZero_le h.room (by decide), by decide⟩

end Settings

namespace Engine

variable {base : Service} {inputs : List Input} {e : Engine} {j : Journal}

/-- When all inputs are taken in, their uploads are listed in their order, each of them with the
identity and the statement that was accepted for it. -/
theorem Matches.forall₂ {accepted : List (String × Statement)} (h : e.Matches inputs accepted)
    (hover : e.intake.isOver) :
  List.Forall₂ (fun (input : Input) (upload : String × String) =>
      input ∈ inputs ∧ upload.1 = input.label ∧
        ∃ task : Nat, accepted[task]? = some (upload.2, input.statement)) inputs e.uploads
  := by
  obtain ⟨hremaining, hlabel⟩ : remaining e.intake = [] ∧ e.intake.label? = none := by
    cases hintake : e.intake with
    | processed | closed => exact ⟨rfl, rfl⟩
    | ready | entering | waiting | refused =>
      rw [hintake] at hover
      cases hover
  have hstatements := h.statements
  rw [hremaining, List.map_nil, List.append_nil] at hstatements
  have hlabels := h.labels
  rw [hremaining, hlabel, List.map_nil, List.append_nil, Option.toList_none,
    List.append_nil] at hlabels
  have hlength : inputs.length = e.uploads.length := by
    simpa using congrArg List.length hlabels
  have hids : e.uploads.map Prod.snd = accepted.map Prod.fst := by
    apply h.ids.eq_of_length
    rw [List.length_map, List.length_map, h.length, hlabel]
    rfl
  rw [List.forall₂_iff_get]
  refine ⟨hlength, fun k hk hk' => ?_⟩
  have hk'' : k < accepted.length := by
    rw [h.length, hlabel]
    exact hk'
  have hgetLabel := List.getElem_of_eq hlabels (i := k) (by simpa using hk)
  have hgetStatement := List.getElem_of_eq hstatements (i := k) (by simpa using hk)
  have hgetId := List.getElem_of_eq hids (i := k) (by simpa using hk')
  rw [List.getElem_map, List.getElem_map] at hgetLabel hgetStatement hgetId
  refine ⟨List.get_mem inputs _, hgetLabel.symm, k, ?_⟩
  rw [List.getElem?_eq_getElem hk'', List.get_eq_getElem, List.get_eq_getElem, hgetId,
    hgetStatement]

namespace Orderly

/-- Every identity that was accepted is one that the processor answers about. -/
theorem validId (h : e.Orderly base inputs j) (hnew : base.IsNew)
    (hserves : base.session.processor.ids.Serves (demand inputs)) {id : String}
    (hid : id ∈ j.accepted.map Prod.fst) :
  Processor.validId id = .ok ()
  := by
  apply Processor.validId_of_isUniqueId
  exact (h.drawn hnew hserves).1 id (h.mem_drawn hnew hid)

/-- When the inputs are processed, every upload has the record of a task that has ended. -/
theorem forall₂ (h : e.Orderly base inputs j) (hnew : base.IsNew)
    (hserves : base.session.processor.ids.Serves (demand inputs)) (hover : e.intake.isOver) :
  List.Forall₂ (fun (input : Input) (upload : String × String) =>
      input ∈ inputs ∧ upload.1 = input.label ∧ Processor.validId upload.2 = .ok () ∧
        ∃ c : Course, e.processor.store.get? upload.2 = some c.record ∧
          c.Closed upload.2 input.statement) inputs e.uploads
  := by
  refine (h.fits.forall₂ hover).imp ?_
  rintro input ⟨label, id⟩ ⟨hinput, hlabel, task, haccepted⟩
  obtain ⟨c, o, hc, hagrees, houtcome⟩ := h.exists_outcome hnew hover haccepted
  obtain ⟨-, -, hclosed⟩ := hagrees.ended_of_outcome? houtcome
  have hid : id ∈ j.accepted.map Prod.fst :=
    List.mem_map_of_mem (List.mem_of_getElem? haccepted)
  exact ⟨hinput, hlabel, h.validId hnew hserves hid, c, hc.record, hclosed⟩

/-- When the inputs are processed, the report is that on the inputs. -/
theorem report_eq (h : e.Orderly base inputs j) (hnew : base.IsNew)
    (hmissing : base.session.processor.missing = [])
    (hserves : base.session.processor.ids.Serves (demand inputs))
    (hwords : ∀ input ∈ inputs, input.statement.bytes.length ≤ Page.wordMax)
    (hover : e.intake.isOver) (kind : ReportKind) :
  e.report kind = .ok (kind.text inputs)
  := by
  have hstore : .store ∉ e.processor.missing := by
    rw [show e.processor.missing = [] from
      (h.runs.session.missing hnew.session.sound).trans hmissing]
    exact List.not_mem_nil
  have hrecords := h.forall₂ hnew hserves hover
  cases kind with
  | summary =>
    have hrows : e.uploads.mapM (summaryRow e.processor) = .ok (inputs.map Input.summaryRow) := by
      apply mapM_of_forall₂
      refine hrecords.imp ?_
      rintro ⟨_, statement⟩ ⟨label, id⟩ ⟨-, rfl, hid, c, hrecord, hclosed⟩
      rw [Engine.summaryRow_eq hid hstore hrecord, hclosed.summaryRow_eq, hclosed.issues_eq,
        Statement.filter_reported]
    rw [Engine.report, hrows]
    rfl
  | issues filter =>
    have hrows : e.uploads.mapM (issueRows e.processor filter)
        = .ok (inputs.map (Input.issueRows filter)) := by
      apply mapM_of_forall₂
      refine hrecords.imp ?_
      rintro ⟨_, statement⟩ ⟨label, id⟩ ⟨hinput, rfl, hid, c, hrecord, hclosed⟩
      have hword : c.record.issues.length ≤ Page.wordMax := by
        rw [hclosed.issues_eq]
        exact Nat.le_trans statement.length_reported_le (hwords _ hinput)
      rw [Engine.issueRows_eq hid hstore hrecord hword, hclosed.issues_eq]
      rfl
    rw [Engine.report, hrows]
    rfl

/-- An engine in which nothing can happen any more has closed the bus. -/
theorem closed_of_stuck (h : e.Orderly base inputs j) (hnew : base.IsNew)
    (hserves : base.session.processor.ids.Serves (demand inputs))
    (hstuck : ∀ party ∈ e.parties, system.canAct e party = false) :
  e.intake = .closed
  := by
  by_contra hintake
  obtain ⟨party, hparty, hact⟩ := h.exists_canAct hnew hserves hintake
  rw [hstuck party hparty] at hact
  cases hact

end Orderly

/-! ### Whole runs -/

/-- The run that the engine makes comes to its end. -/
theorem intake_run (settings : Settings) {ids : IdSource} (clock : Clock)
    (hserves : ids.Serves (demand inputs)) :
  (run settings ids clock inputs).intake = .closed
  := by
  obtain ⟨j, hj⟩ := exists_orderly hserves
    (system.reachable_settle (start settings ids clock inputs))
  apply hj.closed_of_stuck (isNew_origin settings ids clock) hserves
  exact System.canAct_settle (wears_start settings clock hserves)

/-- Once all inputs are processed, the answer is the report. -/
theorem process_of_closed (settings : Settings) (ids : IdSource) (clock : Clock) {files : Files}
    {paths : List String} (kind : ReportKind) (hopen : openInputs files paths = .ok inputs)
    (hclosed : (run settings ids clock inputs).intake = .closed) :
  process settings ids clock files paths kind = (run settings ids clock inputs).report kind
  := by
  rw [process, hopen]
  dsimp only [bind, Except.bind]
  rw [hclosed]

/-- The report of a run over files that open is that on the inputs, each of them read alone; it is
read back as its columns and the rows of the inputs in their order.  So it is in every run from the
same beginning, in whatever order its parties act: when the inputs are processed there is the same
report, no run stops before, and none goes on forever.  For this the identities must not repeat, the
length of a file must be a word, and the settings must be such that there is an engine with them. -/
theorem process_eq (settings : Settings) (ids : IdSource) (clock : Clock) (files : Files)
    (paths : List String) (kind : ReportKind) (hopen : openInputs files paths = .ok inputs)
    (hwords : ∀ input ∈ inputs, input.statement.bytes.length ≤ Page.wordMax)
    (hserves : ids.Serves (demand inputs)) (hfeasible : settings.IsFeasible) :
  process settings ids clock files paths kind = .ok (kind.text inputs) ∧
  (∃ records, Csv.parse (kind.text inputs) = .ok (kind.columns :: records) ∧
    kind.Shows inputs records) ∧
  ∀ e, system.Reachable (start settings ids clock inputs) e →
    (e.intake.isOver → e.report kind = .ok (kind.text inputs)) ∧
    ((∀ a, e.apply a = none) → e.intake = .closed) ∧
    (∀ a e', e.apply a = some e' → system.work e' < system.work e) ∧
    e.processor.runner.capacity ≤ Settings.permitsLimit ∧
    e.processor.bus.capacity ≤ Settings.permitsLimit
  := by
  have hnew := isNew_origin settings ids clock
  refine ⟨?_, kind.exists_parse_text inputs, ?_⟩
  · obtain ⟨j, hj⟩ := exists_orderly hserves
      (system.reachable_settle (start settings ids clock inputs))
    have hclosed := intake_run settings clock hserves
    have hover : (run settings ids clock inputs).intake.isOver := by
      rw [hclosed]
      rfl
    have hreport := hj.report_eq hnew rfl hserves hwords hover kind
    exact (process_of_closed settings ids clock kind hopen hclosed).trans hreport
  · intro e he
    obtain ⟨j, hj⟩ := exists_orderly hserves he
    refine ⟨fun hover => hj.report_eq hnew rfl hserves hwords hover kind, fun hnone => ?_,
      fun a e' ha => hj.work_lt hnew rfl hserves ha, hfeasible.capacities_le he⟩
    apply hj.closed_of_stuck hnew hserves
    intro party _
    rw [← Bool.not_eq_true]
    intro hact
    obtain ⟨e', he'⟩ := Option.isSome_iff_exists.1 hact
    obtain ⟨a, ha⟩ := System.exists_apply_of_act he'
    cases (hnone a).symm.trans ha

/-- A statement with an issue that failed, a success, and an issue that is pending. -/
def march : Statement :=
  { bytes := ("1,ann,DEBIT,5,FAILED,rent\n" ++ "2,bob,CREDIT,7,SUCCESS,pay\n" ++
      "3,cy,CREDIT,2,PENDING,\n").toUTF8.toList }

/-- A statement with a line that is no transaction, and an issue of either kind. -/
def april : Statement :=
  { bytes := ("x\n" ++ "4,dee,CREDIT,9,PENDING,\"gift, two\"\n" ++
      "5,eli,DEBIT,1,FAILED,fee\n").toUTF8.toList }

/-- The two statements, in their files. -/
def monthlyFiles : Files
  | "old/march.csv" => .ok march
  | _ => .ok april

def monthlyInputs : List Input :=
  [{ label := "march.csv", statement := march }, { label := "april.csv", statement := april },
    { label := "march.csv", statement := march }]

/-- One of the files is given twice. -/
def monthlyPaths : List String := ["old/march.csv", "april.csv", "old/march.csv"]

/-- Settings with one slot, and room for one notice. -/
def narrow : Settings := { runnerCapacity := 1, busCapacity := 1 }

/-- The summary and the issues of the statements, with different settings and identities. -/
theorem process_monthly :
  process {} (.unique 0 0) (.frozen 7) monthlyFiles monthlyPaths .summary
    = .ok ("file,status,balance,total_lines,parsed_ok,parse_errors,issues\n" ++
        "march.csv,DONE,7,3,3,0,2\n" ++ "april.csv,DONE,0,3,2,1,2\n" ++
        "march.csv,DONE,7,3,3,0,2\n") ∧
  process narrow (.unique 5 5) (.frozen 9) monthlyFiles monthlyPaths (.issues .issues)
    = .ok ("file,timestamp,counterparty,type,amount,status,description\n" ++
        "march.csv,1,ann,DEBIT,5,FAILED,rent\n" ++ "march.csv,3,cy,CREDIT,2,PENDING,\n" ++
        "april.csv,4,dee,CREDIT,9,PENDING,\"gift, two\"\n" ++
        "april.csv,5,eli,DEBIT,1,FAILED,fee\n" ++
        "march.csv,1,ann,DEBIT,5,FAILED,rent\n" ++ "march.csv,3,cy,CREDIT,2,PENDING,\n")
  := by
  have hopen : openInputs monthlyFiles monthlyPaths = .ok monthlyInputs := by
    decide +kernel
  have hwords : ∀ input ∈ monthlyInputs, input.statement.bytes.length ≤ Page.wordMax := by
    decide +kernel
  have hdemand : demand monthlyInputs = 6 := by decide +kernel
  have hserves : (IdSource.unique 0 0).Serves (demand monthlyInputs) := by
    rw [hdemand]
    exact ⟨by decide +kernel, by decide +kernel⟩
  have hserves' : (IdSource.unique 5 5).Serves (demand monthlyInputs) := by
    rw [hdemand]
    exact ⟨by decide +kernel, by decide +kernel⟩
  have hsummary := process_eq {} (.unique 0 0) (.frozen 7) monthlyFiles monthlyPaths .summary hopen
    hwords hserves ⟨by decide, by decide⟩
  have hissues := process_eq narrow (.unique 5 5) (.frozen 9) monthlyFiles monthlyPaths
    (.issues .issues) hopen hwords hserves' ⟨by decide, by decide⟩
  rw [hsummary.1, hissues.1]
  constructor
  · decide +kernel
  · decide +kernel

end Engine

end Reconciliation
