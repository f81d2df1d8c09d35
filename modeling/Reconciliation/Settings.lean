import Reconciliation.DeliveryPlan
import Reconciliation.Files
import Reconciliation.Toml.Document

/-!
# Settings

`Settings` are what can be tuned.  They are read from a TOML document, in which every one of
them may be left out; `Settings.normalized` replaces the unusable ones by their defaults, and
`Settings.warnings` lists what is logged about that.
-/

namespace Reconciliation

/-- The settings of the reconciliation of failed transactions. -/
structure ConsumerSettings where
  workers : Nat := 4
  /-- The number of repeated calls; a negative one stands for none. -/
  maxRetries : Int := 3
  baseBackoffMillis : Nat := 200
  deriving DecidableEq, Repr

/-- Everything that can be tuned. -/
structure Settings where
  /-- How many statements are read at the same time. -/
  runnerCapacity : Nat := 10
  /-- How many notices the bus holds. -/
  busCapacity : Nat := 512
  /-- How many threads do the work; if nothing is said, as many as the machine has
  processors. -/
  workerThreads : Option Nat := none
  /-- How long the end of the run waits for the last notices. -/
  stopTimeoutMillis : Nat := 5000
  consumer : ConsumerSettings := {}
  deriving DecidableEq, Repr

namespace Settings

/-! ### Reading -/

open Toml

/-- A natural number of a document. -/
def natural? : Value → Option Nat
  | .integer n => if 0 ≤ n then some n.toNat else none
  | _ => none

/-- An integer of a document. -/
def integer? : Value → Option Int
  | .integer n => some n
  | _ => none

/-- The settings with one entry of the consumer's table. -/
def setConsumer? (s : ConsumerSettings) : String × Value → Option ConsumerSettings
  | ("workers", v) => (natural? v).map fun n => { s with workers := n }
  | ("max_retries", v) => (integer? v).map fun n => { s with maxRetries := n }
  | ("base_backoff_ms", v) => (natural? v).map fun n => { s with baseBackoffMillis := n }
  | _ => none

/-- The names of the consumer's settings, in their order. -/
def consumerNames : List String := ["workers", "max_retries", "base_backoff_ms"]

/-- The consumer's settings, as a table or as the list of their values in order.  A list may
be shorter, and what it has beyond is ignored. -/
def consumer? : Value → Option ConsumerSettings
  | .table _ entries => entries.foldlM setConsumer? {}
  | .inline entries => entries.foldlM setConsumer? {}
  | .array items => (consumerNames.zip items).foldlM setConsumer? {}
  | _ => none

/-- The settings with one entry of the document. -/
def set? (s : Settings) : String × Value → Option Settings
  | ("runner_capacity", v) => (natural? v).map fun n => { s with runnerCapacity := n }
  | ("bus_capacity", v) => (natural? v).map fun n => { s with busCapacity := n }
  | ("worker_threads", v) => (natural? v).map fun n => { s with workerThreads := some n }
  | ("stop_timeout_ms", v) => (natural? v).map fun n => { s with stopTimeoutMillis := n }
  | ("consumer", v) => (consumer? v).map fun c => { s with consumer := c }
  | _ => none

/-- The settings that a document holds; nothing else may be in it. -/
def ofText? (text : String) : Option Settings :=
  (Document.read? text).bind fun table => table.foldlM set? {}

/-- The settings that a document holds, or the reason for which it holds none. -/
def ofText (text : String) : Except Fault Settings :=
  match ofText? text with
  | some s => .ok s
  | none => .error (.badConfiguration "TOML parse error")

/-- A fault of the configuration in the file of a path. -/
def inFile (path : String) : Fault → Fault
  | f => .badConfiguration ("'" ++ path ++ "': " ++ f.message)

/-- The settings that the file of a path holds. -/
def load (files : Files) (path : String) : Except Fault Settings :=
  match files.readText path with
  | .error m => .error (.badConfiguration ("failed to read '" ++ path ++ "': " ++ m))
  | .ok text => (ofText text).mapError (inFile path)

/-! ### Normal form -/

/-- The value, or the default where there is none. -/
def replaceZero (value default : Nat) : Nat :=
  if value = 0 then default else value

/-- What is logged where the default replaces a value. -/
def replacement (field : String) (value : Nat) (default : String) : List LogEntry :=
  if value = 0 then [.settingReplaced field value.repr default] else []

/-- The settings where nothing is said. -/
def defaults : Settings := {}

/-- The settings with usable values. -/
def normalized (s : Settings) : Settings :=
  { runnerCapacity := replaceZero s.runnerCapacity defaults.runnerCapacity
    busCapacity := replaceZero s.busCapacity defaults.busCapacity
    workerThreads := s.workerThreads.filter (· != 0)
    stopTimeoutMillis := replaceZero s.stopTimeoutMillis defaults.stopTimeoutMillis
    consumer := {
      workers := replaceZero s.consumer.workers defaults.consumer.workers
      maxRetries := max s.consumer.maxRetries 0
      baseBackoffMillis :=
        replaceZero s.consumer.baseBackoffMillis defaults.consumer.baseBackoffMillis } }

/-- What is logged about the settings that are not usable. -/
def warnings (s : Settings) : List LogEntry :=
  replacement "runner_capacity" s.runnerCapacity defaults.runnerCapacity.repr ++
  replacement "bus_capacity" s.busCapacity defaults.busCapacity.repr ++
  (s.workerThreads.toList.flatMap fun n => replacement "worker_threads" n "cpus") ++
  replacement "stop_timeout_ms" s.stopTimeoutMillis defaults.stopTimeoutMillis.repr ++
  replacement "consumer.workers" s.consumer.workers defaults.consumer.workers.repr ++
  (if s.consumer.maxRetries < 0 then [.retriesDisabled s.consumer.maxRetries] else []) ++
  replacement "consumer.base_backoff_ms" s.consumer.baseBackoffMillis
    defaults.consumer.baseBackoffMillis.repr

/-- The largest number of repeated calls that can be asked for. -/
def retriesLimit : Nat := 0xFFFFFFFF

/-- How notices are delivered. -/
def plan (s : Settings) : DeliveryPlan :=
  { workers := s.consumer.workers
    retries := min s.consumer.maxRetries.toNat retriesLimit
    delay := .ofMillis s.consumer.baseBackoffMillis }

/-- How long the end of the run waits for the last notices. -/
def stopTimeout (s : Settings) : Duration :=
  .ofMillis s.stopTimeoutMillis

end Settings

end Reconciliation
