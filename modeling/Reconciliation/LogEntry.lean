import Reconciliation.Fault
import Reconciliation.Transaction

/-!
# Log entries

A `LogEntry` is an event worth a line in the log.  It has a level, a message and fields, which
`LogEntry.level`, `LogEntry.message` and `LogEntry.fields` write out.
-/

namespace Reconciliation

/-- What a panic carries. -/
inductive PanicPayload where
  | text (message : String)
  /-- Something that is no text. -/
  | other
  deriving DecidableEq, Repr

/-- The wording of a panic. -/
def PanicPayload.message : PanicPayload → String
  | .text m => m
  | .other => "non-string panic payload"

/-- The weight of a log entry. -/
inductive LogLevel where
  | info
  | warn
  | error
  deriving DecidableEq, Repr

/-- The name of a level. -/
def LogLevel.name : LogLevel → String
  | .info => "INFO"
  | .warn => "WARN"
  | .error => "ERROR"

/-- The value of a field. -/
inductive LogValue where
  | text (s : String)
  | number (n : Int)
  deriving DecidableEq, Repr

/-- The events that are logged. -/
inductive LogEntry where
  /-- A setting that is unusable gives way to its default. -/
  | settingReplaced (field value default : String)
  | retriesDisabled (value : Int)
  | retriesCapped (asked cap : Nat)
  | duplicateSkipped (notice : Notice)
  | reconciled (notice : Notice)
  | attemptFailed (notice : Notice) (attempt delayMillis : Nat) (fault : Fault)
  | gaveUp (notice : Notice) (attempts : Nat) (fault : Fault)
  | retryAbandoned (notice : Notice)
  | workerCrashed
  | publishFailed (notice : Notice) (fault : Fault)
  | lineRejected (upload : String) (fault : Fault)
  | readFailed (upload : String) (fault : Fault)
  | panicCaptured (payload : PanicPayload)
  | taskPanicked (payload : PanicPayload)
  deriving DecidableEq, Repr

namespace LogEntry

/-- The level of an entry. -/
def level : LogEntry → LogLevel
  | .duplicateSkipped _ | .reconciled _ => .info
  | .settingReplaced _ _ _ | .retriesDisabled _ | .retriesCapped _ _ | .attemptFailed _ _ _ _
  | .retryAbandoned _ | .publishFailed _ _ | .lineRejected _ _ | .readFailed _ _ => .warn
  | .gaveUp _ _ _ | .workerCrashed | .panicCaptured _ | .taskPanicked _ => .error

/-- The wording of an entry. -/
def message : LogEntry → String
  | .settingReplaced _ _ _ => "invalid configuration value, using default"
  | .retriesDisabled _ => "negative consumer.max_retries, retries disabled"
  | .retriesCapped _ _ => "max_retries above cap, using cap"
  | .duplicateSkipped _ => "skip duplicate failed transaction event"
  | .reconciled _ => "reconciled failed transaction"
  | .attemptFailed _ _ _ _ => "reconciliation attempt failed, retrying"
  | .gaveUp _ _ _ => "failed to reconcile transaction after retries"
  | .retryAbandoned _ => "retry abandoned on shutdown"
  | .workerCrashed => "reconciliation worker ended abnormally"
  | .publishFailed _ _ => "failed to publish event"
  | .lineRejected _ _ => "failed to parse statement record"
  | .readFailed _ _ => "failed to read statement line"
  | .panicCaptured _ => "panic captured"
  | .taskPanicked _ => "panic occurred in background task"

/-- The fields of an entry. -/
def fields : LogEntry → List (String × LogValue)
  | .settingReplaced field value default =>
    [("field", .text field), ("value", .text value), ("default", .text default)]
  | .retriesDisabled value => [("value", .number value)]
  | .retriesCapped asked cap => [("max_retries", .number asked), ("cap", .number cap)]
  | .duplicateSkipped n => [("event_id", .text n.event), ("upload_id", .text n.upload)]
  | .reconciled n =>
    [("event_id", .text n.event), ("upload_id", .text n.upload),
      ("amount", .number n.transaction.amount.toInt)]
  | .attemptFailed n attempt delayMillis fault =>
    [("event_id", .text n.event), ("attempt", .number attempt),
      ("delay_ms", .number delayMillis), ("error", .text fault.message)]
  | .gaveUp n attempts fault =>
    [("event_id", .text n.event), ("upload_id", .text n.upload),
      ("attempts", .number attempts), ("error", .text fault.message)]
  | .retryAbandoned n => [("event_id", .text n.event)]
  | .workerCrashed => []
  | .publishFailed n fault =>
    [("upload_id", .text n.upload), ("event_id", .text n.event),
      ("error", .text fault.message)]
  | .lineRejected upload fault | .readFailed upload fault =>
    [("upload_id", .text upload), ("error", .text fault.message)]
  | .panicCaptured payload | .taskPanicked payload => [("panic", .text payload.message)]

end LogEntry

end Reconciliation
