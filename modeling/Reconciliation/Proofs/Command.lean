import Mathlib.Logic.Relation
import Reconciliation.Proofs.Checks

/-!
# How a run of the command ends

A run loads the settings, reads the issue filter and opens the inputs one after the other; only then
does an engine process them, whose parties act in any order (`Command.Step`).  Wherever a run has
come to, all it tried before has succeeded (`Command.Due`).  So a run ends with the report on the
inputs, or, before there is any upload, with the fault of the first check that fails
(`Command.Due.outcome_eq`, `Command.Due.store_eq`), and none goes on forever
(`Command.acc_loading`).
-/

namespace Reconciliation

/-- What a run writes to the standard output if its command line is understood. -/
def CommandOutcome.output : CommandOutcome → String
  | .shown report => report
  | .failed _ => ""
  | .usage _ => ""

/-- What a run comes to if its command line is understood. -/
def CommandOutcome.ofAnswer : Except Fault String → CommandOutcome
  | .ok report => .shown report
  | .error f => .failed f

namespace Command

/-! ### Steps -/

/-- How far a run has come. -/
inductive Phase where
  | loading
  | selecting (settings : Settings)
  | opening (settings : Settings) (kind : ReportKind) (opened : List Input) (rest : List String)
  | processing (kind : ReportKind) (e : Engine)
  | ended (outcome : CommandOutcome) (store : Store)

/-- The records of the uploads that a run has created. -/
def Phase.store : Phase → Store
  | .loading => {}
  | .selecting _ => {}
  | .opening _ _ _ _ => {}
  | .processing _ e => e.processor.store
  | .ended _ store => store

variable (a : Arguments) (files : Files) (ids : IdSource) (clock : Clock)

/-- What a run does next. -/
inductive Step : Phase → Phase → Prop where
  | load {s : Settings} (h : a.settings files = .ok s) : Step .loading (.selecting s)
  | loadFails {f : Fault} (h : a.settings files = .error f) :
      Step .loading (.ended (.failed f) {})
  | select {s : Settings} {kind : ReportKind} (h : a.reportKind = .ok kind) :
      Step (.selecting s) (.opening s kind [] a.inputs)
  | selectFails {s : Settings} {f : Fault} (h : a.reportKind = .error f) :
      Step (.selecting s) (.ended (.failed f) {})
  | open {s : Settings} {kind : ReportKind} {opened : List Input} {path : String}
      {rest : List String} {input : Input} (h : Engine.openInput files path = .ok input) :
      Step (.opening s kind opened (path :: rest)) (.opening s kind (opened ++ [input]) rest)
  | openFails {s : Settings} {kind : ReportKind} {opened : List Input} {path : String}
      {rest : List String} {f : Fault} (h : Engine.openInput files path = .error f) :
      Step (.opening s kind opened (path :: rest)) (.ended (.failed f) {})
  | start {s : Settings} {kind : ReportKind} {opened : List Input} :
      Step (.opening s kind opened []) (.processing kind (Engine.start s ids clock opened))
  | act {kind : ReportKind} {e e' : Engine} {action : Engine.Action}
      (h : e.apply action = some e') : Step (.processing kind e) (.processing kind e')
  | refuse {kind : ReportKind} {e : Engine} {f : Fault} (h : e.intake = .refused f) :
      Step (.processing kind e) (.ended (.failed f) e.processor.store)
  | report {kind : ReportKind} {e : Engine} (h : e.intake.isOver) :
      Step (.processing kind e) (.ended (.ofAnswer (e.report kind)) e.processor.store)

/-- The phases that a run comes to. -/
def Runs (phase : Phase) : Prop :=
  Relation.ReflTransGen (Step a files ids clock) .loading phase

/-! ### What has succeeded -/

/-- All that was tried before has succeeded, and what came of it is at hand. -/
inductive Due : Phase → Prop where
  | loading : Due .loading
  | selecting {s : Settings} (hs : a.settings files = .ok s) : Due (.selecting s)
  | opening {s : Settings} {kind : ReportKind} {opened : List Input} {paths rest : List String}
      (hs : a.settings files = .ok s) (hkind : a.reportKind = .ok kind)
      (hpaths : a.inputs = paths ++ rest)
      (hopened : paths.mapM (Engine.openInput files) = .ok opened) :
      Due (.opening s kind opened rest)
  | processing {s : Settings} {kind : ReportKind} {inputs : List Input} {e : Engine}
      (hs : a.settings files = .ok s) (hkind : a.reportKind = .ok kind)
      (hopen : Engine.openInputs files a.inputs = .ok inputs)
      (he : Engine.system.Reachable (Engine.start s ids clock inputs) e) :
      Due (.processing kind e)
  | reported {s : Settings} {kind : ReportKind} {inputs : List Input} {store : Store}
      (hs : a.settings files = .ok s) (hkind : a.reportKind = .ok kind)
      (hopen : Engine.openInputs files a.inputs = .ok inputs) :
      Due (.ended (.shown (kind.text inputs)) store)
  | failed {f : Fault} (h : IsFirstFault (a.checks files) f) : Due (.ended (.failed f) {})

variable {a files ids clock}

/-- The fault of the settings is the first one. -/
theorem isFirstFault_of_settings {f : Fault} (hs : a.settings files = .error f) :
  IsFirstFault (a.checks files) f
  := isFirstFault_cons.2 (.inl (outcomeOf_eq_error.2 hs))

/-- The fault of the issue filter is the first one once the settings are loaded. -/
theorem isFirstFault_of_reportKind {s : Settings} {f : Fault} (hs : a.settings files = .ok s)
    (hkind : a.reportKind = .error f) :
  IsFirstFault (a.checks files) f
  := by
  apply isFirstFault_cons.2
  refine .inr ⟨outcomeOf_eq_ok.2 ⟨s, hs⟩, ?_⟩
  apply isFirstFault_cons.2
  exact .inl (outcomeOf_eq_error.2 hkind)

/-- The fault of an input is the first one once the inputs before it are open. -/
theorem isFirstFault_of_openInput {s : Settings} {kind : ReportKind} {opened : List Input}
    {paths rest : List String} {path : String} {f : Fault} (hs : a.settings files = .ok s)
    (hkind : a.reportKind = .ok kind) (hpaths : a.inputs = paths ++ path :: rest)
    (hopened : paths.mapM (Engine.openInput files) = .ok opened)
    (hpath : Engine.openInput files path = .error f) :
  IsFirstFault (a.checks files) f
  := by
  have hpassed : ∀ check ∈ paths.map (fun path => outcomeOf (Engine.openInput files path)),
      check = .ok () := by
    rw [List.forall_mem_map]
    intro path' hpath'
    apply outcomeOf_eq_ok.2
    apply (forall_of_mapM hopened).1 path' hpath'
  apply isFirstFault_cons.2
  refine .inr ⟨outcomeOf_eq_ok.2 ⟨s, hs⟩, ?_⟩
  apply isFirstFault_cons.2
  refine .inr ⟨outcomeOf_eq_ok.2 ⟨kind, hkind⟩, ?_⟩
  refine ⟨_, rest.map fun path => outcomeOf (Engine.openInput files path), ?_, hpassed⟩
  rw [hpaths, List.map_append, List.map_cons, outcomeOf_eq_error.2 hpath]

/-- Every step keeps what has succeeded. -/
theorem Due.step {phase next : Phase} (h : Due a files ids clock phase)
    (hstep : Step a files ids clock phase next)
    (hfits : a.Fits files ids) :
  Due a files ids clock next
  := by
  cases hstep with
  | load hs => exact .selecting hs
  | loadFails hs => exact .failed (isFirstFault_of_settings hs)
  | select hkind =>
    cases h with
    | selecting hs => exact .opening hs hkind (List.nil_append _).symm rfl
  | selectFails hkind =>
    cases h with
    | selecting hs => exact .failed (isFirstFault_of_reportKind hs hkind)
  | «open» hpath =>
    cases h with
    | @opening _ _ _ paths _ hs hkind hpaths hopened =>
      refine .opening hs hkind (hpaths.trans (List.append_cons _ _ _)) ?_
      rw [List.mapM_append, hopened, List.mapM_cons, hpath]
      rfl
  | openFails hpath =>
    cases h with
    | opening hs hkind hpaths hopened =>
      exact .failed (isFirstFault_of_openInput hs hkind hpaths hopened hpath)
  | start =>
    cases h with
    | opening hs hkind hpaths hopened =>
      rw [List.append_nil] at hpaths
      rw [← hpaths] at hopened
      exact .processing hs hkind hopened .refl
  | act haction =>
    cases h with
    | processing hs hkind hopen he => exact .processing hs hkind hopen (.step _ he haction)
  | refuse hrefused =>
    cases h with
    | processing hs hkind hopen he =>
      obtain ⟨j, hj⟩ := Engine.exists_orderly (hfits.serves _ hopen) he
      exact absurd hrefused (hj.awaits.unrefused _)
  | report hover =>
    cases h with
    | processing hs hkind hopen he =>
      rw [Engine.report_of_reachable (hfits.serves _ hopen) (hfits.length_le hopen) he hover]
      exact .reported hs hkind hopen

theorem Runs.due {phase : Phase} (h : Runs a files ids clock phase) (hfits : a.Fits files ids) :
  Due a files ids clock phase
  := by
  induction h with
  | refl => exact .loading
  | tail _ hstep ih => exact ih.step hstep hfits

/-! ### Ends -/

/-- A run ends with what the command answers. -/
theorem Due.outcome_eq {outcome : CommandOutcome} {store : Store}
    (h : Due a files ids clock (.ended outcome store)) (hfits : a.Fits files ids) :
  outcome = .ofAnswer (answer a files ids clock)
  := by
  cases h with
  | reported hs hkind hopen =>
    rw [answer_of_opened hfits hs hkind hopen]
    rfl
  | failed hf =>
    rw [answer_of_isFirstFault hf]
    rfl

/-- Where a check fails, there is never an upload. -/
theorem Due.store_eq {phase : Phase} (h : Due a files ids clock phase)
    (hready : ¬ a.Ready files) :
  phase.store = {}
  := by
  cases h with
  | loading | selecting | opening | failed => rfl
  | processing hs hkind hopen | reported hs hkind hopen =>
    exact absurd (Arguments.ready_of_opened hs hkind hopen) hready

/-- Whatever has not come to its end goes on. -/
theorem Due.exists_next {phase : Phase} (h : Due a files ids clock phase)
    (hfits : a.Fits files ids) :
  (∃ next, Step a files ids clock phase next) ∨ ∃ outcome store, phase = .ended outcome store
  := by
  cases h with
  | loading =>
    cases hs : a.settings files with
    | ok s => exact .inl ⟨_, .load hs⟩
    | error f => exact .inl ⟨_, .loadFails hs⟩
  | selecting =>
    cases hkind : a.reportKind with
    | ok kind => exact .inl ⟨_, .select hkind⟩
    | error f => exact .inl ⟨_, .selectFails hkind⟩
  | @opening _ _ _ _ rest =>
    cases rest with
    | nil => exact .inl ⟨_, .start⟩
    | cons path rest =>
      cases hpath : Engine.openInput files path with
      | ok input => exact .inl ⟨_, .open hpath⟩
      | error f => exact .inl ⟨_, .openFails hpath⟩
  | @processing s kind inputs e hs hkind hopen he =>
    left
    by_cases hover : e.intake.isOver
    · exact ⟨_, .report hover⟩
    · by_contra hnone
      obtain ⟨j, hj⟩ := Engine.exists_orderly (hfits.serves _ hopen) he
      have hclosed : e.intake = .closed := by
        apply hj.closed_of_stuck (Engine.isNew_origin s ids clock) (hfits.serves _ hopen)
        intro party _
        rw [← Bool.not_eq_true]
        intro hact
        obtain ⟨e', he'⟩ := Option.isSome_iff_exists.1 hact
        obtain ⟨action, haction⟩ := System.exists_apply_of_act he'
        exact hnone ⟨_, .act haction⟩
      rw [hclosed] at hover
      exact hover rfl
  | reported | failed => exact .inr ⟨_, _, rfl⟩

theorem acc_ended (outcome : CommandOutcome) (store : Store) :
  Acc (fun next phase => Step a files ids clock phase next) (.ended outcome store)
  := ⟨_, fun _ hstep => nomatch hstep⟩

/-- Each action of the engine leaves less to do. -/
theorem acc_processing {s : Settings} {kind : ReportKind} {inputs : List Input} {e : Engine}
    (hserves : ids.Serves (Engine.demand inputs))
    (he : Engine.system.Reachable (Engine.start s ids clock inputs) e) :
  Acc (fun next phase => Step a files ids clock phase next) (.processing kind e)
  := by
  induction hwork : Engine.system.work e using Nat.strong_induction_on generalizing e with
  | h n ih =>
    constructor
    intro next hstep
    cases hstep with
    | act haction =>
      obtain ⟨j, hj⟩ := Engine.exists_orderly hserves he
      have hlt := hj.work_lt (Engine.isNew_origin s ids clock) rfl hserves haction
      exact ih _ (hwork ▸ hlt) (.step _ he haction) rfl
    | refuse | report => apply acc_ended

theorem acc_opening {s : Settings} {kind : ReportKind} {opened : List Input} {rest : List String}
    (h : Due a files ids clock (.opening s kind opened rest)) (hfits : a.Fits files ids) :
  Acc (fun next phase => Step a files ids clock phase next) (.opening s kind opened rest)
  := by
  induction rest generalizing opened with
  | nil =>
    constructor
    intro next hstep
    have hnext := h.step hstep hfits
    cases hstep with
    | start =>
      cases hnext with
      | processing _ _ hopen he => apply acc_processing (hfits.serves _ hopen) he
  | cons path rest ih =>
    constructor
    intro next hstep
    have hnext := h.step hstep hfits
    cases hstep with
    | «open» => apply ih hnext
    | openFails => apply acc_ended

theorem acc_selecting {s : Settings} (h : Due a files ids clock (.selecting s))
    (hfits : a.Fits files ids) :
  Acc (fun next phase => Step a files ids clock phase next) (.selecting s)
  := by
  constructor
  intro next hstep
  have hnext := h.step hstep hfits
  cases hstep with
  | select => apply acc_opening hnext hfits
  | selectFails => apply acc_ended

/-- No run goes on forever. -/
theorem acc_loading (hfits : a.Fits files ids) :
  Acc (fun next phase => Step a files ids clock phase next) .loading
  := by
  constructor
  intro next hstep
  have hnext := Due.loading.step hstep hfits
  cases hstep with
  | load => apply acc_selecting hnext hfits
  | loadFails => apply acc_ended

/-! ### What a run comes to -/

/-- Every run comes to its end, in whatever order the parties of the engine act: none goes on
forever, none stops before, and whichever end it comes to has this outcome. -/
structure EndsWith (a : Arguments) (files : Files) (ids : IdSource) (clock : Clock)
    (outcome : CommandOutcome) : Prop where
  finite : Acc (fun next phase => Step a files ids clock phase next) .loading
  ended : ∀ phase, Runs a files ids clock phase → (∀ next, ¬ Step a files ids clock phase next) →
    ∃ store, phase = .ended outcome store

/-- The text is the report that is asked for, on the inputs that are opened. -/
def IsAnswer (a : Arguments) (files : Files) (text : String) : Prop :=
  ∃ kind inputs, a.reportKind = .ok kind ∧ Engine.openInputs files a.inputs = .ok inputs ∧
    text = kind.text inputs

/-- Other files with the same settings, of which the same inputs open. -/
structure OpenAlike (a : Arguments) (files files' : Files) : Prop where
  config : ∀ path ∈ a.config, files' path = files path
  inputs : ∀ path ∈ a.inputs,
    (∃ statement, files' path = .ok statement) ↔ ∃ statement, files path = .ok statement

variable {words : List String}

theorem run_of_parse (hparse : Arguments.parse words = .ok a) :
  run words files ids clock = .ofAnswer (answer a files ids clock)
  := by
  rw [run, hparse]
  dsimp only
  cases answer a files ids clock with
  | ok report => rfl
  | error f => rfl

theorem endsWith_run (hparse : Arguments.parse words = .ok a) (hfits : a.Fits files ids) :
  EndsWith a files ids clock (run words files ids clock)
  where
    finite := acc_loading hfits
    ended phase hruns hstuck := by
      have hdue := hruns.due hfits
      rcases hdue.exists_next hfits with ⟨next, hstep⟩ | ⟨outcome, store, rfl⟩
      · exact absurd hstep (hstuck next)
      · rw [run_of_parse hparse, ← hdue.outcome_eq hfits]
        exact ⟨store, rfl⟩

/-- Where nothing is missing, the report is shown. -/
theorem run_of_ready (hparse : Arguments.parse words = .ok a) (hfits : a.Fits files ids)
    (hready : a.Ready files) :
  (run words files ids clock).exitCode = 0 ∧ IsAnswer a files (run words files ids clock).output
  := by
  obtain ⟨s, kind, inputs, hs, hkind, hopen⟩ := hready.exists_opened
  rw [run_of_parse hparse, answer_of_opened hfits hs hkind hopen]
  exact ⟨rfl, kind, inputs, hkind, hopen, rfl⟩

/-- Otherwise the first fault is. -/
theorem run_of_isFirstFault (hparse : Arguments.parse words = .ok a) {f : Fault}
    (hf : IsFirstFault (a.checks files) f) :
  run words files ids clock = .failed f
  := by
  rw [run_of_parse hparse, answer_of_isFirstFault hf]
  rfl

/-- Nothing else makes a difference to the exit code. -/
theorem exitCode_run (hparse : Arguments.parse words = .ok a) (hfits : a.Fits files ids) :
  (run words files ids clock).exitCode = 0 ↔ a.Ready files
  := by
  constructor
  · intro hcode
    by_contra hready
    obtain ⟨f, hf⟩ := Arguments.not_ready_iff.1 hready
    rw [run_of_isFirstFault hparse hf] at hcode
    cases hcode
  · intro hready
    exact (run_of_ready hparse hfits hready).1

theorem OpenAlike.ready_iff {files' : Files} (h : OpenAlike a files files') :
  a.Ready files' ↔ a.Ready files
  := by
  have hload : ∀ path ∈ a.config, Settings.load files' path = Settings.load files path := by
    intro path hpath
    rw [Settings.load, Settings.load, Files.readText, Files.readText, h.config path hpath]
  constructor
  · intro hready
    exact
      { config := fun path hpath => hload path hpath ▸ hready.config path hpath
        filter := hready.filter
        inputs := fun path hpath => (h.inputs path hpath).1 (hready.inputs path hpath) }
  · intro hready
    exact
      { config := fun path hpath => (hload path hpath).symm ▸ hready.config path hpath
        filter := hready.filter
        inputs := fun path hpath => (h.inputs path hpath).2 (hready.inputs path hpath) }

/-- A run shows the report and nothing else if the settings load, the issue filter is read and every
input opens.  Otherwise it shows nothing but the fault of the first of these that fails, and never
has an upload.  That is how it ends in whatever order the parties of the engine act.  What the inputs
hold makes no difference to the exit code. -/
theorem run_exits (files : Files) (ids : IdSource) (clock : Clock)
    (hparse : Arguments.parse words = .ok a) (hfits : a.Fits files ids) :
  ((run words files ids clock).exitCode = 0 ∧
    IsAnswer a files (run words files ids clock).output ↔ a.Ready files) ∧
  (¬ a.Ready files → ∃ f, IsFirstFault (a.checks files) f ∧
    (run words files ids clock).exitCode = 1 ∧
    (run words files ids clock).output = "" ∧
    (run words files ids clock).errorLine? = some ("Error: " ++ f.message) ∧
    ∀ phase, Runs a files ids clock phase → phase.store = {}) ∧
  EndsWith a files ids clock (run words files ids clock) ∧
  ∀ files', a.Fits files' ids → OpenAlike a files files' →
    (run words files' ids clock).exitCode = (run words files ids clock).exitCode
  := by
  refine ⟨⟨fun h => (exitCode_run hparse hfits).1 h.1, run_of_ready hparse hfits⟩, ?_,
    endsWith_run hparse hfits, ?_⟩
  · intro hready
    obtain ⟨f, hf⟩ := Arguments.not_ready_iff.1 hready
    refine ⟨f, hf, ?_⟩
    rw [run_of_isFirstFault hparse hf]
    exact ⟨rfl, rfl, rfl, fun phase hruns => (hruns.due hfits).store_eq hready⟩
  · intro files' hfits' halike
    by_cases hready : a.Ready files
    · rw [(run_of_ready hparse hfits hready).1,
        (run_of_ready hparse hfits' (halike.ready_iff.2 hready)).1]
    · obtain ⟨f, hf⟩ := Arguments.not_ready_iff.1 hready
      obtain ⟨f', hf'⟩ := Arguments.not_ready_iff.1 fun h => hready (halike.ready_iff.1 h)
      rw [run_of_isFirstFault hparse hf, run_of_isFirstFault hparse hf']
      rfl

/-- A statement, and one that is no text. -/
def smallFiles : Files
  | "march.csv" => .ok Session.small
  | "torn.csv" => .ok { bytes := [0xFF] }
  | _ => .error PathFlaw.notFound.message

/-- The arguments for the issues that failed in some inputs. -/
def smallArguments (inputs : List String) : Arguments :=
  { inputs, report := some .issues, outcomes := some "failed" }

theorem length_smallFiles (path : String) (s : Statement) (h : smallFiles path = .ok s) :
  s.bytes.length ≤ Page.wordMax
  := by
  unfold smallFiles at h
  split at h
  · cases h
    decide +kernel
  · cases h
    decide +kernel
  · cases h

theorem fits_torn :
  (smallArguments ["march.csv", "torn.csv"]).Fits smallFiles (.unique 0 0)
  := by
  refine ⟨fun path _ => length_smallFiles path, fun inputs hinputs => ?_⟩
  have hopen : Engine.openInputs smallFiles ["march.csv", "torn.csv"] = .ok
      [{ label := "march.csv", statement := Session.small },
        { label := "torn.csv", statement := { bytes := [0xFF] } }] := by
    decide +kernel
  cases hopen.symm.trans hinputs
  exact ⟨by decide +kernel, by decide +kernel⟩

theorem fits_lost :
  (smallArguments ["march.csv", "lost.csv"]).Fits smallFiles (.unique 0 0)
  := by
  refine ⟨fun path _ => length_smallFiles path, fun inputs hinputs => ?_⟩
  have hclosed : Engine.openInputs smallFiles ["march.csv", "lost.csv"] = .error
      (.io "failed to open 'lost.csv': No such file or directory (os error 2)") := by
    decide +kernel
  cases hclosed.symm.trans hinputs

theorem run_exits_small :
  ((run ["--report=issues", "--status", "failed", "march.csv", "torn.csv"] smallFiles
      (.unique 0 0) (.frozen 7)).exitCode = 0 ∧
    IsAnswer (smallArguments ["march.csv", "torn.csv"]) smallFiles
      (run ["--report=issues", "--status", "failed", "march.csv", "torn.csv"] smallFiles
        (.unique 0 0) (.frozen 7)).output) ∧
  (run ["--report=issues", "--status", "failed", "march.csv", "lost.csv"] smallFiles
    (.unique 0 0) (.frozen 7)).exitCode = 1
  := by
  have htorn : Arguments.parse ["--report=issues", "--status", "failed", "march.csv", "torn.csv"]
      = .ok (smallArguments ["march.csv", "torn.csv"]) := by
    decide +kernel
  have hlost : Arguments.parse ["--report=issues", "--status", "failed", "march.csv", "lost.csv"]
      = .ok (smallArguments ["march.csv", "lost.csv"]) := by
    decide +kernel
  have hready : (smallArguments ["march.csv", "torn.csv"]).Ready smallFiles :=
    Arguments.ready_iff.2 (by decide +kernel)
  have hmissing : ¬ (smallArguments ["march.csv", "lost.csv"]).Ready smallFiles := by
    rw [Arguments.ready_iff]
    decide +kernel
  refine ⟨(run_exits smallFiles (.unique 0 0) (.frozen 7) htorn fits_torn).1.2 hready, ?_⟩
  obtain ⟨f, -, hcode, -⟩ :=
    (run_exits smallFiles (.unique 0 0) (.frozen 7) hlost fits_lost).2.1 hmissing
  exact hcode

end Command

end Reconciliation
