import Reconciliation.Command
import Reconciliation.Proofs.Reports

/-!
# What the command needs

`Arguments.checks` lists what has to succeed before a statement is processed, in the order in which
it is tried: loading the settings, reading the issue filter, and opening each of the inputs.  If all
of it succeeds the command answers with the report on the inputs (`Command.answer_of_opened`), and
otherwise with the fault of the first that fails (`Command.answer_of_isFirstFault`).
-/

namespace Reconciliation

/-! ### First faults -/

/-- Whether something succeeded. -/
def outcomeOf {α : Type} (x : Except Fault α) : Except Fault Unit :=
  x.map fun _ => ()

/-- The fault of the first check that fails. -/
def IsFirstFault (checks : List (Except Fault Unit)) (f : Fault) : Prop :=
  ∃ passed rest, checks = passed ++ .error f :: rest ∧ ∀ check ∈ passed, check = .ok ()

section

variable {α : Type} {x : Except Fault α} {check : Except Fault Unit}
  {checks : List (Except Fault Unit)} {f : Fault}

theorem outcomeOf_eq_ok :
  outcomeOf x = .ok () ↔ ∃ a, x = .ok a
  := by
  cases x with
  | ok a => exact ⟨fun _ => ⟨a, rfl⟩, fun _ => rfl⟩
  | error f => exact ⟨nofun, nofun⟩

theorem outcomeOf_eq_error :
  outcomeOf x = .error f ↔ x = .error f
  := by
  cases x with
  | ok a => exact ⟨nofun, nofun⟩
  | error g => rw [outcomeOf, Except.map, Except.error.injEq, Except.error.injEq]

theorem isFirstFault_cons :
  IsFirstFault (check :: checks) f ↔ check = .error f ∨ check = .ok () ∧ IsFirstFault checks f
  := by
  constructor
  · rintro ⟨passed, rest, hchecks, hpassed⟩
    cases passed with
    | nil =>
      rw [List.nil_append, List.cons.injEq] at hchecks
      exact .inl hchecks.1
    | cons check' passed =>
      rw [List.cons_append, List.cons.injEq] at hchecks
      rw [List.forall_mem_cons] at hpassed
      exact .inr ⟨hchecks.1.trans hpassed.1, passed, rest, hchecks.2, hpassed.2⟩
  · rintro (rfl | ⟨rfl, passed, rest, rfl, hpassed⟩)
    · exact ⟨[], checks, rfl, nofun⟩
    · exact ⟨.ok () :: passed, rest, rfl, List.forall_mem_cons.2 ⟨rfl, hpassed⟩⟩

theorem IsFirstFault.not_forall (h : IsFirstFault checks f) :
  ¬ ∀ check ∈ checks, check = .ok ()
  := by
  obtain ⟨passed, rest, rfl, -⟩ := h
  intro hall
  cases hall (.error f) (List.mem_append_right passed List.mem_cons_self)

/-- All checks succeed, or one of them is the first that fails. -/
theorem forall_or_isFirstFault (checks : List (Except Fault Unit)) :
  (∀ check ∈ checks, check = .ok ()) ∨ ∃ f, IsFirstFault checks f
  := by
  induction checks with
  | nil => exact .inl nofun
  | cons check checks ih =>
    simp only [isFirstFault_cons, List.forall_mem_cons]
    cases check with
    | error f => exact .inr ⟨f, .inl rfl⟩
    | ok =>
      rcases ih with hall | ⟨f, hf⟩
      · exact .inl ⟨rfl, hall⟩
      · exact .inr ⟨f, .inr ⟨rfl, hf⟩⟩

variable {β : Type} {act : α → Except Fault β} {l : List α}

/-- A sequence of actions stops at the first one that fails. -/
theorem mapM_of_isFirstFault (h : IsFirstFault (l.map fun a => outcomeOf (act a)) f) :
  l.mapM act = .error f
  := by
  induction l with
  | nil =>
    obtain ⟨_ | _, _, hchecks, -⟩ := h
    · cases hchecks
    · cases hchecks
  | cons a l ih =>
    rw [List.map_cons, isFirstFault_cons, outcomeOf_eq_error, outcomeOf_eq_ok] at h
    rw [List.mapM_cons]
    rcases h with ha | ⟨⟨b, hb⟩, hl⟩
    · rw [ha]
      rfl
    · rw [hb, ih hl]
      rfl

theorem exists_mapM (h : ∀ a ∈ l, ∃ b, act a = .ok b) :
  ∃ bs, l.mapM act = .ok bs
  := by
  induction l with
  | nil => exact ⟨[], rfl⟩
  | cons a l ih =>
    rw [List.forall_mem_cons] at h
    obtain ⟨⟨b, hb⟩, hl⟩ := h
    obtain ⟨bs, hbs⟩ := ih hl
    refine ⟨b :: bs, ?_⟩
    rw [List.mapM_cons, hb, hbs]
    rfl

/-- A sequence of actions succeeds with what each of them comes to. -/
theorem forall_of_mapM {bs : List β} (h : l.mapM act = .ok bs) :
  (∀ a ∈ l, ∃ b, act a = .ok b) ∧ ∀ b ∈ bs, ∃ a ∈ l, act a = .ok b
  := by
  induction l generalizing bs with
  | nil =>
    cases h
    exact ⟨nofun, nofun⟩
  | cons a l ih =>
    rw [List.mapM_cons] at h
    cases ha : act a with
    | error f =>
      rw [ha] at h
      cases h
    | ok b =>
      cases hl : l.mapM act with
      | error f =>
        rw [ha, hl] at h
        cases h
      | ok bs' =>
        rw [ha, hl] at h
        cases h
        obtain ⟨hall, hfrom⟩ := ih hl
        rw [List.forall_mem_cons, List.forall_mem_cons]
        refine ⟨⟨⟨b, ha⟩, hall⟩, ⟨a, List.mem_cons_self, ha⟩, fun b' hb' => ?_⟩
        obtain ⟨a', ha', hact⟩ := hfrom b' hb'
        exact ⟨a', List.mem_cons_of_mem a ha', hact⟩

end

/-! ### What has to succeed -/

/-- The input of a path, or the fault of a path that does not open. -/
def Engine.openInput (files : Files) (path : String) : Except Fault Input :=
  match files path with
  | .ok statement => .ok { label := Path.label path, statement }
  | .error m => .error (.io ("failed to open '" ++ path ++ "': " ++ m))

theorem Engine.openInput_eq_ok {files : Files} {path : String} :
  (∃ input, openInput files path = .ok input) ↔ ∃ statement, files path = .ok statement
  := by
  unfold openInput
  cases files path with
  | ok statement => exact ⟨fun _ => ⟨statement, rfl⟩, fun _ => ⟨_, rfl⟩⟩
  | error m => exact ⟨nofun, nofun⟩

namespace Arguments

/-- What has to succeed, in the order in which it is tried. -/
def checks (a : Arguments) (files : Files) : List (Except Fault Unit) :=
  outcomeOf (a.settings files) :: outcomeOf a.reportKind ::
    a.inputs.map fun path => outcomeOf (Engine.openInput files path)

/-- The settings load if they are in a file, the issue filter is read if it is asked for, and every
input opens. -/
structure Ready (a : Arguments) (files : Files) : Prop where
  config : ∀ path ∈ a.config, ∃ s, Settings.load files path = .ok s
  filter : a.reportAsked = .issues → ∃ filter, IssueFilter.parse a.outcomes a.directions = .ok filter
  inputs : ∀ path ∈ a.inputs, ∃ statement, files path = .ok statement

/-- The identities suffice for the inputs, and the length of each input is a word. -/
structure Fits (a : Arguments) (files : Files) (ids : IdSource) : Prop where
  words : ∀ path ∈ a.inputs, ∀ s, files path = .ok s → s.bytes.length ≤ Page.wordMax
  serves : ∀ inputs, Engine.openInputs files a.inputs = .ok inputs → ids.Serves (Engine.demand inputs)

variable {a : Arguments} {files : Files}

theorem settings_eq_ok :
  (∃ s, a.settings files = .ok s) ↔ ∀ path ∈ a.config, ∃ s, Settings.load files path = .ok s
  := by
  unfold settings
  cases a.config with
  | none => exact ⟨fun _ => nofun, fun _ => ⟨_, rfl⟩⟩
  | some path =>
    simp only [Option.mem_def, Option.some.injEq, forall_eq']
    cases Settings.load files path with
    | ok s => exact ⟨fun _ => ⟨s, rfl⟩, fun _ => ⟨_, rfl⟩⟩
    | error f => exact ⟨nofun, nofun⟩

theorem reportKind_eq_ok :
  (∃ kind, a.reportKind = .ok kind) ↔
    (a.reportAsked = .issues → ∃ filter, IssueFilter.parse a.outcomes a.directions = .ok filter)
  := by
  unfold reportKind
  cases a.reportAsked with
  | summary => exact ⟨fun _ => nofun, fun _ => ⟨_, rfl⟩⟩
  | issues =>
    cases IssueFilter.parse a.outcomes a.directions with
    | ok filter => exact ⟨fun _ _ => ⟨filter, rfl⟩, fun _ => ⟨_, rfl⟩⟩
    | error f => exact ⟨nofun, fun h => nomatch h rfl⟩

theorem ready_iff :
  a.Ready files ↔ ∀ check ∈ a.checks files, check = .ok ()
  := by
  rw [checks, List.forall_mem_cons, List.forall_mem_cons, List.forall_mem_map]
  simp only [outcomeOf_eq_ok, settings_eq_ok, reportKind_eq_ok, Engine.openInput_eq_ok]
  constructor
  · intro h
    exact ⟨h.config, h.filter, h.inputs⟩
  · rintro ⟨hconfig, hfilter, hinputs⟩
    exact ⟨hconfig, hfilter, hinputs⟩

/-- Without a fault there are settings, a report and inputs. -/
theorem Ready.exists_opened (h : a.Ready files) :
  ∃ s kind inputs, a.settings files = .ok s ∧ a.reportKind = .ok kind ∧
    Engine.openInputs files a.inputs = .ok inputs
  := by
  obtain ⟨s, hs⟩ := settings_eq_ok.2 h.config
  obtain ⟨kind, hkind⟩ := reportKind_eq_ok.2 h.filter
  obtain ⟨inputs, hinputs⟩ := exists_mapM fun path hpath =>
    Engine.openInput_eq_ok.2 (h.inputs path hpath)
  exact ⟨s, kind, inputs, hs, hkind, hinputs⟩

theorem not_ready_iff :
  ¬ a.Ready files ↔ ∃ f, IsFirstFault (a.checks files) f
  := by
  rw [ready_iff]
  constructor
  · intro h
    exact (forall_or_isFirstFault _).resolve_left h
  · rintro ⟨f, hf⟩
    exact hf.not_forall

/-- Nothing is missing where the settings, a report and the inputs are there. -/
theorem ready_of_opened {s : Settings} {kind : ReportKind} {inputs : List Input}
    (hs : a.settings files = .ok s) (hkind : a.reportKind = .ok kind)
    (hopen : Engine.openInputs files a.inputs = .ok inputs) :
  a.Ready files
  where
    config := settings_eq_ok.1 ⟨s, hs⟩
    filter := reportKind_eq_ok.1 ⟨kind, hkind⟩
    inputs path hpath := Engine.openInput_eq_ok.1 ((forall_of_mapM hopen).1 path hpath)

/-- The length of each input that is opened is a word. -/
theorem Fits.length_le {ids : IdSource} (h : a.Fits files ids) {inputs : List Input}
    (hopen : Engine.openInputs files a.inputs = .ok inputs) :
  ∀ input ∈ inputs, input.statement.bytes.length ≤ Page.wordMax
  := by
  intro input hinput
  obtain ⟨path, hpath, hinput⟩ := (forall_of_mapM hopen).2 input hinput
  split at hinput
  · next statement hstatement =>
    cases hinput
    apply h.words path hpath statement hstatement
  · cases hinput

end Arguments

/-! ### Answers -/

namespace Engine

variable {settings : Settings} {ids : IdSource} {clock : Clock} {inputs : List Input} {e : Engine}

/-- When the inputs are processed, the report is that on the inputs, whatever was done in which
order. -/
theorem report_of_reachable (hserves : ids.Serves (demand inputs))
    (hwords : ∀ input ∈ inputs, input.statement.bytes.length ≤ Page.wordMax)
    (he : system.Reachable (start settings ids clock inputs) e) (hover : e.intake.isOver)
    (kind : ReportKind) :
  e.report kind = .ok (kind.text inputs)
  := by
  obtain ⟨j, hj⟩ := exists_orderly hserves he
  apply hj.report_eq (isNew_origin settings ids clock) rfl hserves hwords hover

end Engine

namespace Command

variable {a : Arguments} {files : Files} {ids : IdSource} {clock : Clock}

/-- With settings and a report to ask for, the answer is up to the engine. -/
theorem answer_of_reportKind {s : Settings} {kind : ReportKind} (hs : a.settings files = .ok s)
    (hkind : a.reportKind = .ok kind) :
  answer a files ids clock = Engine.process s ids clock files a.inputs kind
  := by
  rw [answer, hs]
  show (a.reportKind >>= fun kind => Engine.process s ids clock files a.inputs kind) = _
  rw [hkind]
  rfl

/-- The answer is the fault of the first check that fails. -/
theorem answer_of_isFirstFault {f : Fault} (h : IsFirstFault (a.checks files) f) :
  answer a files ids clock = .error f
  := by
  rw [Arguments.checks, isFirstFault_cons, isFirstFault_cons, outcomeOf_eq_error, outcomeOf_eq_ok,
    outcomeOf_eq_error, outcomeOf_eq_ok] at h
  rcases h with hs | ⟨⟨s, hs⟩, hkind | ⟨⟨kind, hkind⟩, hinputs⟩⟩
  · rw [answer, hs]
    rfl
  · rw [answer, hs]
    show (a.reportKind >>= fun kind => _) = _
    rw [hkind]
    rfl
  · have hopen : Engine.openInputs files a.inputs = .error f := mapM_of_isFirstFault hinputs
    rw [answer_of_reportKind hs hkind, Engine.process, hopen]
    rfl

/-- The answer is the report on the inputs if no check fails. -/
theorem answer_of_opened (hfits : a.Fits files ids) {s : Settings} {kind : ReportKind}
    {inputs : List Input} (hs : a.settings files = .ok s) (hkind : a.reportKind = .ok kind)
    (hopen : Engine.openInputs files a.inputs = .ok inputs) :
  answer a files ids clock = .ok (kind.text inputs)
  := by
  have hserves := hfits.serves inputs hopen
  have hclosed := Engine.intake_run s clock hserves
  have hover : (Engine.run s ids clock inputs).intake.isOver := by
    rw [hclosed]
    rfl
  have hreport := Engine.report_of_reachable hserves (hfits.length_le hopen)
    (Engine.system.reachable_settle (Engine.start s ids clock inputs)) hover kind
  rw [answer_of_reportKind hs hkind, Engine.process_of_closed s ids clock kind hopen hclosed]
  exact hreport

end Command

end Reconciliation
