import Reconciliation.Fault
import Reconciliation.Transaction

/-!
# Handlers

A `Handler` reconciles failed transactions, one notice to a call.  Its verdict on a call
depends on the notice and on how many calls there have been for the notice's event.
`Handler.announcing` accepts every notice that has an identity, and says so in the log.
-/

namespace Reconciliation

/-- How a call of a handler ends. -/
inductive Verdict where
  | reconciled
  | failed (fault : Fault)
  | panicked
  deriving DecidableEq, Repr

/-- One who reconciles failed transactions. -/
structure Handler where
  /-- The verdict on the call for a notice that is the `n`-th one for its event. -/
  verdict : Notice → Nat → Verdict
  /-- How long a call takes. -/
  millis : Nat := 0
  /-- Reconciled notices are logged. -/
  announces : Bool := false

namespace Handler

/-- The handler that announces what it reconciles and refuses notices without an identity. -/
def announcing (millis : Nat) : Handler where
  verdict n _ :=
    if n.event.isEmpty then .failed (.unreconciled "" "missing event id") else .reconciled
  millis := millis
  announces := true

end Handler

end Reconciliation
