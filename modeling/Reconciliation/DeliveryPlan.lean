import Reconciliation.Duration
import Reconciliation.LogEntry

/-!
# Delivery plans

A `DeliveryPlan` lays down how notices are delivered: by how many workers, how often a failed
delivery is repeated, and after which delay.  `DeliveryPlan.normalized` replaces what is
unusable.
-/

namespace Reconciliation

/-- How notices are delivered. -/
structure DeliveryPlan where
  workers : Nat
  /-- The number of calls for a notice after the first. -/
  retries : Nat
  /-- The delay before the first repeated call. -/
  delay : Duration
  deriving DecidableEq, Repr

namespace DeliveryPlan

/-- The plan where nothing else is laid down. -/
def usual : DeliveryPlan :=
  { workers := 4, retries := 0, delay := .ofMillis 100 }

/-- The largest number of repeated calls. -/
def retriesCap : Nat := 64

/-- The plan with usable values: the usual number of workers for none, the usual delay for
none, and no more repeated calls than the cap. -/
def normalized (p : DeliveryPlan) : DeliveryPlan :=
  { workers := if p.workers = 0 then usual.workers else p.workers
    retries := min p.retries retriesCap
    delay := if p.delay = .zero then usual.delay else p.delay }

/-- What is logged about the values that give way. -/
def warnings (p : DeliveryPlan) : List LogEntry :=
  if retriesCap < p.retries then [.retriesCapped p.retries retriesCap] else []

end DeliveryPlan

end Reconciliation
