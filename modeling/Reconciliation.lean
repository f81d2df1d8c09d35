import Reconciliation.Amount
import Reconciliation.Bus
import Reconciliation.Clock
import Reconciliation.Command
import Reconciliation.CommandLine
import Reconciliation.Csv.Reader
import Reconciliation.Csv.Writer
import Reconciliation.DeliveryPlan
import Reconciliation.Duration
import Reconciliation.Engine
import Reconciliation.Fault
import Reconciliation.Files
import Reconciliation.Handler
import Reconciliation.Identity
import Reconciliation.IssueFilter
import Reconciliation.Keyed
import Reconciliation.LogEntry
import Reconciliation.Main
import Reconciliation.Page
import Reconciliation.Party
import Reconciliation.Pool
import Reconciliation.Processor
import Reconciliation.Rehearsal.Bus
import Reconciliation.Rehearsal.Outcome
import Reconciliation.Rehearsal.Pool
import Reconciliation.Rehearsal.Processor
import Reconciliation.Rehearsal.Runner
import Reconciliation.Rehearsal.Store
import Reconciliation.Report
import Reconciliation.Runner
import Reconciliation.Settings
import Reconciliation.Statement.Line
import Reconciliation.Statement.Reader
import Reconciliation.Store
import Reconciliation.System
import Reconciliation.Tally
import Reconciliation.Text.Blank
import Reconciliation.Text.Numeral
import Reconciliation.Text.Utf8
import Reconciliation.Toml.Document
import Reconciliation.Toml.Scalar
import Reconciliation.Toml.Scan
import Reconciliation.Toml.Text
import Reconciliation.Toml.Value
import Reconciliation.Transaction
import Reconciliation.Upload
import Reconciliation.Proofs.Keyed
import Reconciliation.Proofs.Store
import Reconciliation.Proofs.Course
import Reconciliation.Proofs.Digest
import Reconciliation.Proofs.Moves
import Reconciliation.Proofs.Agreement
import Reconciliation.Proofs.Results
import Reconciliation.Proofs.Lifecycle
import Reconciliation.Proofs.Ledger
import Reconciliation.Proofs.Pool
import Reconciliation.Proofs.Traffic
import Reconciliation.Proofs.Service
import Reconciliation.Proofs.Pairing
import Reconciliation.Proofs.Delivery
import Reconciliation.Proofs.Answers
import Reconciliation.Proofs.Effort
import Reconciliation.Proofs.System
import Reconciliation.Proofs.Workers
import Reconciliation.Proofs.Slots
import Reconciliation.Proofs.Demand
import Reconciliation.Proofs.Intake
import Reconciliation.Proofs.Progress
import Reconciliation.Proofs.Wear
import Reconciliation.Proofs.Reports
import Reconciliation.Proofs.Exchange
import Reconciliation.Proofs.Fifo
import Reconciliation.Proofs.Settlement
import Reconciliation.Proofs.Deadlock
import Reconciliation.Proofs.Tasks
import Reconciliation.Proofs.Completion
import Reconciliation.Proofs.Docket
import Reconciliation.Proofs.Admission
import Reconciliation.Proofs.Starts
import Reconciliation.Proofs.Workshop
import Reconciliation.Proofs.Staffing
import Reconciliation.Proofs.Desks
import Reconciliation.Proofs.Casework
import Reconciliation.Proofs.Handling
import Reconciliation.Proofs.Quiet
import Reconciliation.Proofs.Retries
import Reconciliation.Proofs.Drain
import Reconciliation.Proofs.Cases
import Reconciliation.Proofs.Serial
import Reconciliation.Proofs.Busy
import Reconciliation.Proofs.Delays
import Reconciliation.Proofs.Settings
import Reconciliation.Proofs.Documents
import Reconciliation.Proofs.Timely
import Reconciliation.Proofs.Windup
import Reconciliation.Proofs.Diaries
import Reconciliation.Proofs.Schedule
import Reconciliation.Proofs.Stops
import Reconciliation.Proofs.Waits
import Reconciliation.Proofs.Blank
import Reconciliation.Proofs.Utf8
import Reconciliation.Proofs.Csv
import Reconciliation.Proofs.Decoding
import Reconciliation.Proofs.Calls
import Reconciliation.Proofs.Numerals
import Reconciliation.Proofs.Lines
import Reconciliation.Proofs.Grammar
import Reconciliation.Proofs.Filters
import Reconciliation.Proofs.Balance
import Reconciliation.Proofs.Paging
import Reconciliation.Proofs.Lossless
import Reconciliation.Proofs.Checks
import Reconciliation.Proofs.Requests
import Reconciliation.Proofs.Collection
import Reconciliation.Proofs.Ownership
import Reconciliation.Proofs.Errors
import Reconciliation.Proofs.Command
import Reconciliation.Proofs.Equipment
import Reconciliation.Proofs.Configuration
