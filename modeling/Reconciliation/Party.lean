/-!
# Parties

A `Party` is one of those who act at the same time: a caller from outside, the body of a
background task and the keeper that watches over it, or a worker of the pool.  A `Token`
names a cancellation that parties can wait for.
-/

namespace Reconciliation

/-- Those who act at the same time. -/
inductive Party where
  | caller (n : Nat)
  | keeper (task : Nat)
  | body (task : Nat)
  | worker (n : Nat)
  deriving DecidableEq, Repr

/-- The name of a cancellation. -/
abbrev Token := String

end Reconciliation
