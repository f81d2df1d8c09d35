import Reconciliation.Files
import Reconciliation.Pool
import Reconciliation.Processor
import Reconciliation.Report
import Reconciliation.Settings
import Reconciliation.System

/-!
# The engine

The engine takes statements in, one after the other, and has them processed at the same time:
a processor reads them and publishes notices, a worker pool takes the notices from the bus and
reconciles them.  Once all statements are processed it writes a report, and closes the bus so
that the workers end.

`Engine.process` is the whole run.  Its report follows the order of the inputs.
-/

namespace Reconciliation

/-- The reports that the engine writes. -/
inductive ReportKind where
  | summary
  | issues (filter : IssueFilter)
  deriving DecidableEq, Repr

/-- A statement and the name by which the report calls it. -/
structure Input where
  label : String
  statement : Statement
  deriving DecidableEq, Repr

/-- How far taking in the inputs has come. -/
inductive Intake where
  /-- The next input can be uploaded. -/
  | ready (rest : List Input)
  /-- The upload of an input waits for its task to be admitted. -/
  | entering (label : String) (rest : List Input)
  /-- All inputs are uploaded and are being processed. -/
  | waiting
  /-- All inputs are processed. -/
  | processed
  /-- The bus is closed after all inputs were processed. -/
  | closed
  /-- An input was refused. -/
  | refused (fault : Fault)
  deriving DecidableEq, Repr

/-- A run over a list of inputs. -/
structure Engine where
  processor : Processor
  pool : Pool
  intake : Intake
  /-- The labels and identities of the uploads, in the order of the inputs. -/
  uploads : List (String × String) := []

namespace Engine

/-- The one who takes the inputs in. -/
def usher : Party := .caller 0

/-- The engine at the beginning of a run. -/
def start (settings : Settings) (ids : IdSource) (clock : Clock) (inputs : List Input) :
    Engine :=
  let s := settings.normalized
  { processor := {
      ids, clock
      runner := .ofCapacity s.runnerCapacity
      bus := .ofCapacity s.busCapacity }
    pool := (Pool.ofPlan s.plan (.announcing 0)).start
    intake := .ready inputs }

/-- The steps of a run. -/
inductive Action where
  /-- The next input is uploaded. -/
  | upload
  /-- After the last input, waiting for all of them begins. -/
  | wait
  | close
  | processor (action : Processor.Action)
  | pool (action : Pool.Action)
  deriving DecidableEq, Repr

/-- The engine with what the processor replied to the usher. -/
def hear (e : Engine) : Option Processor.Reply → Engine
  | none => e
  | some (.accepted id) =>
    match e.intake with
    | .entering label rest =>
      { e with intake := .ready rest, uploads := e.uploads ++ [(label, id)] }
    | _ => e
  | some (.waited _) => { e with intake := .processed }

/-- The engine after an action. -/
def apply (e : Engine) : Action → Option Engine
  | .upload =>
    match e.intake with
    | .ready (input :: rest) =>
      match e.processor.upload usher input.statement with
      | (processor, .ok _) => some { e with processor, intake := .entering input.label rest }
      | (processor, .error f) => some { e with processor, intake := .refused f }
    | _ => none
  | .wait =>
    match e.intake with
    | .ready [] => some { e with processor := e.processor.wait usher, intake := .waiting }
    | _ => none
  | .close =>
    match e.intake with
    | .processed =>
      some { e with
        processor := { e.processor with bus := e.processor.bus.close }
        intake := .closed }
    | _ => none
  | .processor action =>
    (e.processor.apply action).map fun (processor, reply) => { e with processor }.hear reply
  | .pool action =>
    (e.pool.apply e.processor.bus action).map fun (bus, pool, _) =>
      { e with processor := { e.processor with bus }, pool }

/-- The parties under way: the usher, those at the processor, and the workers. -/
def parties (e : Engine) : List Party :=
  usher :: (e.processor.parties.filter (· != usher)) ++ e.pool.parties

/-- What a party may do. -/
def options (p : Party) : List Action :=
  let own := if p = usher then [.upload, .wait, .close] else []
  own ++ (Processor.options p).map .processor ++ (Pool.options p).map .pool

/-- The number of actions that an input can still cost the usher, its keeper and its body. -/
def inputWork (input : Input) : Nat :=
  4 * input.statement.bytes.length + 8

/-- The inputs that are not uploaded yet. -/
def remaining : Intake → List Input
  | .ready rest => rest
  | .entering _ rest => rest
  | .waiting => []
  | .processed => []
  | .closed => []
  | .refused _ => []

/-- The number of actions that the usher can still take apart from uploads. -/
def intakeWork : Intake → Nat
  | .ready _ => 3
  | .entering _ _ => 3
  | .waiting => 1
  | .processed => 1
  | .closed => 0
  | .refused _ => 0

/-- A bound on the number of notices that there can still be. -/
def notices (e : Engine) : Nat :=
  sumOf (fun i => i.statement.bytes.length) (remaining e.intake) + e.processor.notices +
    e.processor.bus.offers.length + e.processor.bus.queue.length

/-- The engine and everybody in it. -/
def system : System Engine Action where
  apply := apply
  parties := parties
  options _ p := options p
  work e := sumOf inputWork (remaining e.intake) + intakeWork e.intake +
    e.processor.work + e.pool.work e.notices

/-! ### Reports -/

/-- The row of an upload in the summary. -/
def summaryRow (p : Processor) (upload : String × String) : Except Fault SummaryRow := do
  let (file, id) := upload
  let balance ← p.balance id
  let (_, known) ← p.status id
  let issues ← p.issues id .issues { number := 1, size := 1 }
  return {
    file
    stage := balance.stage
    balance := balance.balance
    counts := known.counts
    issues := issues.slice.total }

/-- The rows of an upload in the issues report, from a page on, over so many pages at most. -/
def issueRowsFrom (p : Processor) (filter : IssueFilter) (file id : String) :
    Nat → Nat → Except Fault (List IssueRow)
  | 0, _ => .ok []
  | fuel + 1, number => do
    let view ← p.issues id filter { number, size := Page.sizeLimit }
    let rows := view.slice.transactions.map fun transaction => { file, transaction }
    if view.slice.total ≤ min (number * Page.sizeLimit) Page.wordMax then return rows
    return rows ++ (← issueRowsFrom p filter file id fuel (number + 1))

/-- The rows of an upload in the issues report. -/
def issueRows (p : Processor) (filter : IssueFilter) (upload : String × String) :
    Except Fault (List IssueRow) :=
  let (file, id) := upload
  let pages := (p.store.get? id).elim 0 (fun r => r.issues.length)
  issueRowsFrom p filter file id (pages + 1) 1

/-- The report on the uploads of a run. -/
def report (e : Engine) : ReportKind → Except Fault String
  | .summary => (e.uploads.mapM (summaryRow e.processor)).map Report.summary
  | .issues filter =>
    (e.uploads.mapM (issueRows e.processor filter)).map fun rows => Report.issues rows.flatten

/-! ### The whole run -/

/-- The engine at the end of a run. -/
def run (settings : Settings) (ids : IdSource) (clock : Clock) (inputs : List Input) : Engine :=
  system.settle (start settings ids clock inputs)

/-- The inputs of paths, or the fault of the first one that does not open. -/
def openInputs (files : Files) (paths : List String) : Except Fault (List Input) :=
  paths.mapM fun path =>
    match files path with
    | .ok statement => .ok { label := Path.label path, statement }
    | .error m => .error (.io ("failed to open '" ++ path ++ "': " ++ m))

/-- The report on the statements of paths. -/
def process (settings : Settings) (ids : IdSource) (clock : Clock) (files : Files)
    (paths : List String) (kind : ReportKind) : Except Fault String := do
  let inputs ← openInputs files paths
  let e := run settings ids clock inputs
  match e.intake with
  | .refused f => throw f
  | _ => e.report kind

end Engine

end Reconciliation
