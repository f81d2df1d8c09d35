import Reconciliation.CommandLine
import Reconciliation.Engine

/-!
# The command

`Command.run` is the program behind the command line: it loads the settings, reads the issue
filter, has the statements processed and shows the report.  The first of these that fails ends
the run, with nothing shown.
-/

namespace Reconciliation

/-- What a run of the command comes to. -/
inductive CommandOutcome where
  /-- The command line is not understood, or asks for help. -/
  | usage (fault : UsageFault)
  | failed (fault : Fault)
  | shown (report : String)
  deriving DecidableEq, Repr

/-- The exit code of a run. -/
def CommandOutcome.exitCode : CommandOutcome → Nat
  | .usage .displayHelp => 0
  | .usage _ => 2
  | .failed _ => 1
  | .shown _ => 0

/-- The line that reports a failed run. -/
def CommandOutcome.errorLine? : CommandOutcome → Option String
  | .failed f => some ("Error: " ++ f.message)
  | .usage _ => none
  | .shown _ => none

namespace Arguments

/-- The report that is asked for, with the issue filter read. -/
def reportKind (a : Arguments) : Except Fault ReportKind :=
  match a.reportAsked with
  | .summary => .ok .summary
  | .issues => (IssueFilter.parse a.outcomes a.directions).map .issues

end Arguments

namespace Command

/-- The report that the arguments ask for. -/
def answer (a : Arguments) (files : Files) (ids : IdSource) (clock : Clock) :
    Except Fault String := do
  let settings ← a.settings files
  let kind ← a.reportKind
  Engine.process settings ids clock files a.inputs kind

/-- A run of the command on the words of a command line. -/
def run (words : List String) (files : Files) (ids : IdSource) (clock : Clock) :
    CommandOutcome :=
  match Arguments.parse words with
  | .error f => .usage f
  | .ok a =>
    match answer a files ids clock with
    | .ok report => .shown report
    | .error f => .failed f

end Command

end Reconciliation
