import Reconciliation.Fault
import Reconciliation.Text.Blank
import Reconciliation.Transaction

/-!
# Issue filters

An `IssueFilter` selects transactions by outcome and by direction; an empty list of either
does not constrain.  `IssueFilter.parse` builds a filter from two comma-separated lists.
-/

namespace Reconciliation

/-- A selection of transactions. -/
structure IssueFilter where
  outcomes : List Outcome
  directions : List Direction
  deriving DecidableEq, Repr

namespace IssueFilter

/-- The filter that selects every transaction that failed or is pending. -/
def issues : IssueFilter :=
  { outcomes := [.failed, .pending], directions := [] }

/-- A transaction that the filter selects. -/
def selects (f : IssueFilter) (t : Transaction) : Bool :=
  (f.outcomes.isEmpty || f.outcomes.contains t.outcome) &&
    (f.directions.isEmpty || f.directions.contains t.direction)

/-- The parts of a text between commas. -/
def splitAtCommas : List Char → List (List Char)
  | [] => [[]]
  | c :: rest =>
    if c = ',' then [] :: splitAtCommas rest
    else
      match splitAtCommas rest with
      | part :: parts => (c :: part) :: parts
      | [] => [[c]]

/-- The entries of a comma-separated list: its trimmed parts that are not empty. -/
def entries : Option String → List String
  | none => []
  | some list =>
    ((splitAtCommas list.toList).map (fun part => Text.trim (String.ofList part))).filter
      (fun entry => !entry.isEmpty)

/-- The outcome that an entry names, if it is one that calls for attention. -/
def issueOfName? (entry : String) : Option Outcome :=
  (Outcome.ofName? entry).filter Outcome.isIssue

/-- The filter for a list of outcomes and a list of directions.  Without an outcome the
filter selects every issue. -/
def parse (outcomes directions : Option String) : Except Fault IssueFilter :=
  match (entries outcomes).mapM issueOfName? with
  | none => .error (.invalidInput "invalid status filter")
  | some os =>
    match (entries directions).mapM Direction.ofName? with
    | none => .error (.invalidInput "invalid type filter")
    | some ds =>
      .ok { outcomes := if os.isEmpty then issues.outcomes else os, directions := ds }

end IssueFilter

end Reconciliation
