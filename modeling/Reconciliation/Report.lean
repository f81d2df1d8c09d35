import Reconciliation.Csv.Writer
import Reconciliation.Fault
import Reconciliation.Transaction
import Reconciliation.Upload

/-!
# Reports

There are two reports, each a header and one record to a row: the summary has a row for each
statement, the issues report one for each issue.  `Report.deliver` hands a report to an output
that may have limited room.
-/

namespace Reconciliation

/-- One row of the summary. -/
structure SummaryRow where
  file : String
  stage : Stage
  balance : Amount
  counts : LineCounts
  issues : Nat
  deriving DecidableEq, Repr

/-- One row of the issues report. -/
structure IssueRow where
  file : String
  transaction : Transaction
  deriving DecidableEq, Repr

namespace Report

/-- The numeral of a whole number. -/
def numeral (n : Int) : String := n.repr

/-- The header of the summary. -/
def summaryHeader : List String :=
  ["file", "status", "balance", "total_lines", "parsed_ok", "parse_errors", "issues"]

/-- The fields of a row of the summary. -/
def summaryFields (r : SummaryRow) : List String :=
  [r.file, r.stage.name, numeral r.balance.toInt, numeral r.counts.total,
    numeral r.counts.parsed, numeral r.counts.rejected, numeral r.issues]

/-- The text of a summary. -/
def summary (rows : List SummaryRow) : String :=
  Csv.text (summaryHeader :: rows.map summaryFields)

/-- The header of the issues report. -/
def issuesHeader : List String :=
  ["file", "timestamp", "counterparty", "type", "amount", "status", "description"]

/-- The fields of a row of the issues report. -/
def issueFields (r : IssueRow) : List String :=
  let t := r.transaction
  [r.file, numeral t.timestamp.toInt, t.counterparty, t.direction.name, numeral t.amount.toInt,
    t.outcome.name, t.description]

/-- The text of an issues report. -/
def issues (rows : List IssueRow) : String :=
  Csv.text (issuesHeader :: rows.map issueFields)

/-- The text that an output with room for so many bytes accepts, or the failure of an output
that is full. -/
def deliver (room : Option Nat) (text : String) : Except Fault String :=
  match room with
  | none => .ok text
  | some bytes => if text.utf8ByteSize ≤ bytes then .ok text else .error (.io "disk full")

end Report

end Reconciliation
