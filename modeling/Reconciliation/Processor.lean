import Reconciliation.Bus
import Reconciliation.Clock
import Reconciliation.Identity
import Reconciliation.Runner
import Reconciliation.Statement.Reader
import Reconciliation.Store
import Reconciliation.Tally

/-!
# The statement processor

The processor accepts statements and answers questions about them.  An accepted statement
becomes a record in the store and a task of the runner.  The task reads the statement line by
line into a tally, publishes a notice for each failed transaction, and saves the results
before it moves the upload to its final stage.

A line that is no transaction is counted and passed over.  A failure of the statement as a
whole ends the reading, and the upload fails; what was read until then is saved all the same.
A notice that cannot be published is only logged.

The parts that a processor works with may be missing; then it refuses what it needs them for.
-/

namespace Reconciliation

/-- The parts that a processor works with. -/
inductive Part where
  | store
  | events
  | runner
  | ids
  deriving DecidableEq, Repr

/-- The name of a part. -/
def Part.name : Part → String
  | .store => "store"
  | .events => "events"
  | .runner => "runner"
  | .ids => "ids"

/-- How far the task of an upload is. -/
inductive JobStage where
  | fresh (statement : Statement)
  | reading (reader : Reader) (tally : Tally)
  /-- With a failed transaction that is not yet tallied, and has no notice yet. -/
  | announcing (reader : Reader) (tally : Tally) (transaction : Transaction)
  /-- With the notice of a failed transaction, which the bus has not seen yet. -/
  | offering (reader : Reader) (tally : Tally) (notice : Notice)
  /-- Waiting for the bus to take a notice. -/
  | publishing (reader : Reader) (tally : Tally) (notice : Notice)
  /-- The statement is read, with the failure that ended the reading. -/
  | saving (tally : Tally) (fatal : Option Fault)
  /-- The results are saved. -/
  | closing (tally : Tally) (fatal : Option Fault)
  | ended
  deriving DecidableEq, Repr

/-- The task of an upload. -/
structure Job where
  upload : String
  stage : JobStage
  deriving DecidableEq, Repr

/-- The balance of an upload, as it is shown. -/
structure BalanceView where
  upload : String
  stage : Stage
  balance : Amount
  deriving DecidableEq, Repr

/-- One page of the issues of an upload, as it is shown. -/
structure IssuesView where
  upload : String
  page : Page
  slice : IssueSlice
  deriving DecidableEq, Repr

/-- A processor and the parts that it works with. -/
structure Processor where
  missing : List Part := []
  store : Store := {}
  ids : IdSource
  clock : Clock
  runner : Runner
  bus : Bus
  /-- The tasks of uploads by task number. -/
  jobs : Keyed Nat Job := []
  log : List LogEntry := []
  deriving DecidableEq, Repr

namespace Processor

/-- The token under which all tasks run. -/
def root : Token := ""

/-! ### Questions -/

/-- Success if a part is there. -/
def need (p : Processor) (part : Part) : Except Fault Unit :=
  if part ∈ p.missing then .error (.missingDependency part.name) else .ok ()

/-- Success if a text can be an identity: it is not blank. -/
def validId (id : String) : Except Fault Unit :=
  if (Text.trim id).isEmpty then .error (.invalidInput "upload_id is required") else .ok ()

/-- An answer of the store, as it is reported to callers. -/
def ofStore {α : Type} (answer : Except StoreFault α) : Except Fault α :=
  answer.mapError StoreFault.toFault

/-- What is known of an upload, and its balance. -/
def status (p : Processor) (id : String) : Except Fault (Amount × Upload) := do
  validId id
  p.need .store
  ofStore (p.store.balance id)

/-- The balance of an upload. -/
def balance (p : Processor) (id : String) : Except Fault BalanceView := do
  let (balance, upload) ← p.status id
  return { upload := upload.id, stage := upload.stage, balance }

/-- One page of the issues of an upload that a filter selects. -/
def issues (p : Processor) (id : String) (filter : IssueFilter) (page : Page) :
    Except Fault IssuesView := do
  validId id
  if page.number < 1 then throw (.invalidInput "invalid page")
  if page.size < 1 then throw (.invalidInput "invalid page_size")
  p.need .store
  let slice ← ofStore (p.store.listIssues id filter page)
  return { upload := id, page, slice }

/-! ### Uploads -/

/-- The processor with a statement accepted, its task waiting for a slot on behalf of the
caller; or the reason for which it is refused. -/
def upload (p : Processor) (caller : Party) (statement : Statement) :
    Processor × Except Fault String :=
  match p.need .store, p.need .runner, p.need .ids with
  | .error f, _, _ => (p, .error f)
  | _, .error f, _ => (p, .error f)
  | _, _, .error f => (p, .error f)
  | .ok (), .ok (), .ok () =>
    let (id, ids) := p.ids.draw
    match p.store.create (.accepted id) with
    | .error f => ({ p with ids }, .error f.toFault)
    | .ok store =>
      ({ p with
        ids, store
        jobs := p.jobs.add p.runner.submitted { upload := id, stage := .fresh statement }
        runner := p.runner.submit caller root }, .ok id)

/-- The processor with a caller waiting for the tasks submitted so far. -/
def wait (p : Processor) (caller : Party) : Processor :=
  { p with runner := p.runner.wait caller }

/-- The processor once the root token has fired. -/
def cancel (p : Processor) : Processor :=
  { p with runner := p.runner.fire root, bus := p.bus.fire root }

/-- The first notice on the bus, and the processor without it. -/
def takeNotice? (p : Processor) (taker : Party) : Option (Notice × Processor) :=
  ((p.bus.next taker).take? taker).map fun (n, bus) => (n, { p with bus })

/-! ### Tasks -/

/-- The processor with a task at another stage. -/
def setStage (p : Processor) (task : Nat) (stage : JobStage) : Processor :=
  { p with jobs := p.jobs.modify task (fun j => { j with stage }) }

/-- The processor with one more log entry. -/
def note (p : Processor) (e : LogEntry) : Processor :=
  { p with log := p.log ++ [e] }

/-- The processor once the body of a task has ended. -/
def finish (p : Processor) (task : Nat) (outcome : TaskOutcome) : Option Processor :=
  (p.runner.finish? task outcome).map fun runner => { p.setStage task .ended with runner }

/-- The processor once a task has changed the store, or has ended because it could not. -/
def write (p : Processor) (task : Nat) (answer : Except StoreFault Store)
    (go : Processor → Option Processor) : Option Processor :=
  match answer with
  | .ok store => go { p with store }
  | .error f => p.finish task (.failed f.toFault)

/-- The store with an upload revised in one piece. -/
def revised (p : Processor) (id : String) (change : Upload → Upload) :
    Except StoreFault Store :=
  (p.store.revise id (fun u => .completed (change u))).map Prod.fst

/-- The task of an upload begins. -/
def begin (p : Processor) (task : Nat) (id : String) (statement : Statement) :
    Option Processor :=
  let now := p.clock.now
  p.write task (p.revised id fun u => { u with stage := .processing, startedAt := now })
    fun p => some (p.setStage task (.reading (.ofStatement statement) {}))

/-- A notice was published or not, and its transaction is tallied. -/
def published (p : Processor) (task : Nat) (reader : Reader) (tally : Tally) (notice : Notice) :
    Option Fault → Processor
  | none => p.setStage task (.reading reader (tally.record notice.transaction))
  | some fault =>
    (p.setStage task (.reading reader (tally.record notice.transaction))).note
      (.publishFailed notice fault)

/-- The notice of a failed transaction is made out. -/
def announce (p : Processor) (task : Nat) (id : String) (reader : Reader) (tally : Tally)
    (transaction : Transaction) : Processor :=
  let (event, ids) := p.ids.draw
  { p with ids }.setStage task (.offering reader tally { event, upload := id, transaction })

/-- A notice is offered to the bus. -/
def offer (p : Processor) (task : Nat) (reader : Reader) (tally : Tally) (notice : Notice) :
    Processor :=
  match p.bus.publish (.body task) root notice with
  | (bus, none) => { p with bus }.setStage task (.publishing reader tally notice)
  | (bus, some _) => { p with bus }.published task reader tally notice (some .busClosed)

/-- A task reads one line. -/
def read (p : Processor) (task : Nat) (id : String) (reader : Reader) (tally : Tally) :
    Option Processor :=
  let (reading, reader) := reader.next
  match reading with
  | .parsed t =>
    if t.outcome = .failed ∧ .events ∉ p.missing then
      some (p.setStage task (.announcing reader tally t))
    else some (p.setStage task (.reading reader (tally.record t)))
  | .rejected f =>
    some ((p.setStage task (.reading reader tally.reject)).note (.lineRejected id f))
  | .finished => some (p.setStage task (.saving tally none))
  | .failed f => some ((p.setStage task (.saving tally.reject (some f))).note (.readFailed id f))
  | .panicked m =>
    (p.note (.panicCaptured (.text m))).finish task (.panicked (.text m))

/-- A task saves its results. -/
def save (p : Processor) (task : Nat) (id : String) (tally : Tally) (fatal : Option Fault) :
    Option Processor :=
  p.write task (p.store.saveResults id tally.balance tally.issues tally.counts)
    fun p => some (p.setStage task (.closing tally fatal))

/-- The upload at its final stage. -/
def concluded (now : Int64) (tally : Tally) (fatal : Option Fault) (u : Upload) : Upload :=
  { u with
    stage := if fatal.isSome then .failed else .done
    error := fatal.map Fault.message
    endedAt := now
    counts := tally.counts }

/-- How a task that has saved its results ends. -/
def conclusion : Option Fault → TaskOutcome
  | none => .succeeded
  | some f => .failed f

/-- A task moves its upload to the final stage, and ends. -/
def conclude (p : Processor) (task : Nat) (id : String) (tally : Tally)
    (fatal : Option Fault) : Option Processor :=
  p.write task (p.revised id (concluded p.clock.now tally fatal))
    fun p => p.finish task (conclusion fatal)

/-! ### Actions -/

/-- The steps of callers, keepers and bodies. -/
inductive Action where
  | enter (caller : Party)
  | drop (caller : Party)
  | report (caller : Party)
  | skip (task : Nat)
  | start (task : Nat)
  | collect (task : Nat)
  /-- The body of a task does what comes next. -/
  | proceed (task : Nat)
  /-- The bus has taken the notice of a task. -/
  | accept (task : Nat)
  /-- A task gives up publishing a notice. -/
  | withdraw (task : Nat)
  deriving DecidableEq, Repr

/-- The caller who acts. -/
def Action.caller? : Action → Option Party
  | .enter caller | .drop caller | .report caller => some caller
  | .skip _ | .start _ | .collect _ | .proceed _ | .accept _ | .withdraw _ => none

/-- What callers learn. -/
inductive Reply where
  /-- The upload was accepted, and its task admitted or dropped. -/
  | accepted (upload : String)
  | waited (errors : List Fault)
  deriving DecidableEq, Repr

/-- The reply to the caller whose task left the line. -/
def accepted (p : Processor) (task : Nat) : Option Reply :=
  (p.jobs.get? task).map (fun j => .accepted j.upload)

/-- The body of a running task does what comes next. -/
def proceed (p : Processor) (task : Nat) : Option Processor :=
  match p.runner.phase? task, p.jobs.get? task with
  | some .running, some job =>
    match job.stage with
    | .fresh statement => p.begin task job.upload statement
    | .reading reader tally => p.read task job.upload reader tally
    | .announcing reader tally t => some (p.announce task job.upload reader tally t)
    | .offering reader tally notice => some (p.offer task reader tally notice)
    | .publishing _ _ _ => none
    | .saving tally fatal => p.save task job.upload tally fatal
    | .closing tally fatal => p.conclude task job.upload tally fatal
    | .ended => none
  | _, _ => none

/-- A task that waits at the bus goes on, with the bus as it is after that. -/
def leaveBus (p : Processor) (task : Nat) (bus : Option Bus) (fault : Option Fault) :
    Option Processor :=
  match bus, p.jobs.get? task with
  | some bus, some { stage := .publishing reader tally notice, .. } =>
    some ({ p with bus }.published task reader tally notice fault)
  | _, _ => none

/-- The processor after an action, and what the acting caller learns. -/
def apply (p : Processor) : Action → Option (Processor × Option Reply)
  | .enter caller =>
    (p.runner.enter? caller).map fun (task, runner) => ({ p with runner }, p.accepted task)
  | .drop caller =>
    (p.runner.drop? caller).map fun (task, runner) => ({ p with runner }, p.accepted task)
  | .report caller =>
    (p.runner.report? caller).map fun (errors, runner) =>
      ({ p with runner }, some (.waited errors))
  | .skip task => (p.runner.skip? task).map fun runner => ({ p with runner }, none)
  | .start task => (p.runner.start? task).map fun runner => ({ p with runner }, none)
  | .collect task =>
    (p.runner.collect? task).map fun (outcome, runner) =>
      let p := { p with runner }
      match outcome with
      | .panicked payload => (p.note (.taskPanicked payload), none)
      | .succeeded => (p, none)
      | .failed _ => (p, none)
  | .proceed task => (p.proceed task).map (·, none)
  | .accept task => (p.leaveBus task (p.bus.accept? (.body task)) none).map (·, none)
  | .withdraw task =>
    (p.leaveBus task (p.bus.withdraw? (.body task)) (some .canceled)).map (·, none)

/-- The parties under way: the bodies that wait at the bus, those who wait at the runner, and
the other bodies. -/
def parties (p : Processor) : List Party :=
  let publishers := p.bus.offers.map Offer.publisher
  publishers ++ p.runner.waiting ++
    (p.runner.underWay.map Party.body).filter (fun b => !publishers.contains b)

/-- What a party may do. -/
def options : Party → List Action
  | .caller n => [.enter (.caller n), .drop (.caller n), .report (.caller n)]
  | .keeper task => [.skip task, .start task, .collect task]
  | .body task => [.proceed task, .accept task, .withdraw task]
  | .worker _ => []

/-! ### Bounds -/

/-- The number of actions that the body of a task can still take. -/
def stageWork : JobStage → Nat
  | .fresh s => 4 * s.bytes.length + 4
  | .reading r _ => 4 * r.rest.length + 3
  | .announcing r _ _ => 4 * r.rest.length + 6
  | .offering r _ _ => 4 * r.rest.length + 5
  | .publishing r _ _ => 4 * r.rest.length + 4
  | .saving _ _ => 2
  | .closing _ _ => 1
  | .ended => 0

/-- A bound on the number of notices that a task can still offer. -/
def stageNotices : JobStage → Nat
  | .fresh s => s.bytes.length
  | .reading r _ => r.rest.length
  | .announcing r _ _ => r.rest.length + 1
  | .offering r _ _ => r.rest.length + 1
  | .publishing r _ _ => r.rest.length
  | .saving _ _ => 0
  | .closing _ _ => 0
  | .ended => 0

/-- A bound on the number of actions that callers, keepers and bodies can still take. -/
def work (p : Processor) : Nat :=
  p.runner.work + p.jobs.total (fun j => stageWork j.stage)

/-- A bound on the number of notices that tasks can still offer. -/
def notices (p : Processor) : Nat :=
  p.jobs.total (fun j => stageNotices j.stage)

end Processor

end Reconciliation
