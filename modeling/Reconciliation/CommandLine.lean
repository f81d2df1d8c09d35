import Reconciliation.Files
import Reconciliation.IssueFilter
import Reconciliation.Settings
import Reconciliation.Text.Numeral

/-!
# The command line

`Arguments.parse` reads the words of a command line: the paths of statements, and options with
their values, joined to the option by an equals sign or in the word after it.  A word that
begins with a hyphen is an option, unless two hyphens that stand alone came before.

A value is looked at only when the word after it turns out to belong to something else, or at
the end; so of two faults the one that is found first in this sense is reported.
-/

namespace Reconciliation

/-- The reports that can be asked for. -/
inductive ReportName where
  | summary
  | issues
  deriving DecidableEq, Repr

/-- The word for a report. -/
def ReportName.word : ReportName → String
  | .summary => "summary"
  | .issues => "issues"

/-- What a command line asks for. -/
structure Arguments where
  inputs : List String := []
  config : Option String := none
  runnerCapacity : Option Nat := none
  busCapacity : Option Nat := none
  workers : Option Nat := none
  maxRetries : Option Nat := none
  baseBackoffMillis : Option Nat := none
  report : Option ReportName := none
  outcomes : Option String := none
  directions : Option String := none
  deriving DecidableEq, Repr

/-- The reasons for which a command line is not understood. -/
inductive UsageFault where
  | missingRequiredArgument
  | invalidValue
  | valueValidation
  | unknownArgument
  | argumentConflict
  | tooManyValues
  /-- No fault: the command line asks for help. -/
  | displayHelp
  deriving DecidableEq, Repr

/-- The options that have a value. -/
inductive Flag where
  | config
  | runnerCapacity
  | busCapacity
  | workers
  | maxRetries
  | baseBackoffMillis
  | report
  | outcomes
  | directions
  deriving DecidableEq, Repr

/-- The name of an option. -/
def Flag.name : Flag → String
  | .config => "config"
  | .runnerCapacity => "runner-capacity"
  | .busCapacity => "bus-capacity"
  | .workers => "workers"
  | .maxRetries => "max-retries"
  | .baseBackoffMillis => "base-backoff-ms"
  | .report => "report"
  | .outcomes => "status"
  | .directions => "type"

/-- All options that have a value. -/
def Flag.all : List Flag :=
  [.config, .runnerCapacity, .busCapacity, .workers, .maxRetries, .baseBackoffMillis, .report,
    .outcomes, .directions]

/-- The option of a name. -/
def Flag.ofName? (name : String) : Option Flag :=
  Flag.all.find? (fun f => f.name == name)

namespace Arguments

/-- An option that has its value. -/
def has (a : Arguments) : Flag → Bool
  | .config => a.config.isSome
  | .runnerCapacity => a.runnerCapacity.isSome
  | .busCapacity => a.busCapacity.isSome
  | .workers => a.workers.isSome
  | .maxRetries => a.maxRetries.isSome
  | .baseBackoffMillis => a.baseBackoffMillis.isSome
  | .report => a.report.isSome
  | .outcomes => a.outcomes.isSome
  | .directions => a.directions.isSome

/-- A path: any text but the empty one. -/
def path (value : String) : Except UsageFault String :=
  if value.isEmpty then .error .invalidValue else .ok value

/-- A count of 64 bits. -/
def count (value : String) : Except UsageFault Nat :=
  (Numeral.readNat 64 value).mapError (fun _ => .valueValidation)

/-- A number of repeated calls: an integer that is a natural number of 32 bits. -/
def retries (value : String) : Except UsageFault Nat :=
  match Numeral.readInt64 value with
  | .ok n =>
    if 0 ≤ n.toInt ∧ n.toInt ≤ Numeral.unsignedMax 32 then .ok n.toInt.toNat
    else .error .valueValidation
  | .error _ => .error .valueValidation

/-- A report. -/
def reportName (value : String) : Except UsageFault ReportName :=
  match [ReportName.summary, .issues].find? (fun r => r.word == value) with
  | some r => .ok r
  | none => .error .invalidValue

/-- The arguments with the value of an option. -/
def set (a : Arguments) (f : Flag) (value : String) : Except UsageFault Arguments :=
  if a.has f then .error .argumentConflict
  else
    match f with
    | .config => (path value).map fun v => { a with config := some v }
    | .runnerCapacity => (count value).map fun v => { a with runnerCapacity := some v }
    | .busCapacity => (count value).map fun v => { a with busCapacity := some v }
    | .workers => (count value).map fun v => { a with workers := some v }
    | .maxRetries => (retries value).map fun v => { a with maxRetries := some v }
    | .baseBackoffMillis => (count value).map fun v => { a with baseBackoffMillis := some v }
    | .report => (reportName value).map fun v => { a with report := some v }
    | .outcomes => .ok { a with outcomes := some value }
    | .directions => .ok { a with directions := some value }

/-- What was found on the command line and not looked at yet. -/
inductive Pending where
  | nothing
  | inputs (paths : List String)
  | option (flag : Flag) (value : Option String)
  deriving DecidableEq, Repr

/-- A command line that is being read. -/
structure Progress where
  found : Arguments := {}
  pending : Pending := .nothing
  /-- Two hyphens that stand alone came before. -/
  literal : Bool := false
  deriving DecidableEq, Repr

/-- Everything found so far looked at. -/
def Progress.settle (p : Progress) : Except UsageFault Progress :=
  match p.pending with
  | .nothing => .ok p
  | .inputs paths =>
    (paths.mapM path).map fun paths =>
      { p with found := { p.found with inputs := p.found.inputs ++ paths }, pending := .nothing }
  | .option _ none => .error .invalidValue
  | .option f (some value) =>
    (p.found.set f value).map fun found => { p with found, pending := .nothing }

/-- The name of an option, and the value joined to it. -/
def splitAtEquals (word : List Char) : String × Option String :=
  match word.dropWhile (· != '=') with
  | [] => (String.ofList word, none)
  | _ :: value => (String.ofList (word.takeWhile (· != '=')), some (String.ofList value))

/-- Reading an option with two hyphens. -/
def Progress.long (p : Progress) (word : List Char) : Except UsageFault Progress :=
  match splitAtEquals word with
  | ("help", none) => p.settle.bind fun _ => .error .displayHelp
  | ("help", some _) => .error .tooManyValues
  | (name, value) =>
    match Flag.ofName? name with
    | none => .error .unknownArgument
    | some f =>
      p.settle.bind fun p =>
        match value with
        | none => .ok { p with pending := .option f none }
        | some value => (p.found.set f value).map fun found => { p with found }

/-- Reading options with one hyphen: the only one asks for help. -/
def Progress.short (p : Progress) (word : List Char) : Except UsageFault Progress :=
  if word.head? = some 'h' then p.settle.bind fun _ => .error .displayHelp
  else .error .unknownArgument

/-- Reading the path of a statement. -/
def Progress.input (p : Progress) (word : String) : Except UsageFault Progress :=
  match p.pending with
  | .inputs paths => .ok { p with pending := .inputs (paths ++ [word]) }
  | .nothing => .ok { p with pending := .inputs [word] }
  | .option _ _ => p.settle.map fun p => { p with pending := .inputs [word] }

/-- Reading a word that is no option: the value of an option that waits for one, or a path. -/
def Progress.plain (p : Progress) (word : String) : Except UsageFault Progress :=
  match p.pending with
  | .option f none => .ok { p with pending := .option f (some word) }
  | _ => p.input word

/-- Reading one word. -/
def Progress.word (p : Progress) (word : String) : Except UsageFault Progress :=
  if p.literal then p.input word
  else
    match word.toList with
    | ['-', '-'] => .ok { p with literal := true }
    | '-' :: '-' :: rest => p.long rest
    | '-' :: c :: rest => p.short (c :: rest)
    | _ => p.plain word

/-- What a command line asks for. -/
def parse (words : List String) : Except UsageFault Arguments := do
  let p ← words.foldlM Progress.word {}
  let p ← p.settle
  if p.found.inputs.isEmpty then throw .missingRequiredArgument
  return p.found

/-- The report that is asked for. -/
def reportAsked (a : Arguments) : ReportName :=
  a.report.getD .summary

/-- The settings with those of the command line on top. -/
def overlay (a : Arguments) (s : Settings) : Settings :=
  { s with
    runnerCapacity := a.runnerCapacity.getD s.runnerCapacity
    busCapacity := a.busCapacity.getD s.busCapacity
    consumer := {
      workers := a.workers.getD s.consumer.workers
      maxRetries := (a.maxRetries.map Int.ofNat).getD s.consumer.maxRetries
      baseBackoffMillis := a.baseBackoffMillis.getD s.consumer.baseBackoffMillis } }

/-- The settings that the command line asks for. -/
def settings (a : Arguments) (files : Files) : Except Fault Settings :=
  match a.config with
  | none => .ok (a.overlay {})
  | some path => (Settings.load files path).map a.overlay

end Arguments

end Reconciliation
