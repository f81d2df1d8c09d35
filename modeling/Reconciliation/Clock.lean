/-!
# Clocks

A clock tells epoch seconds.  A frozen clock shows the same instant for ever; an instant
outside the range of the calendar freezes it at the epoch.
-/

namespace Reconciliation

/-- A source of the current time. -/
inductive Clock where
  | frozen (seconds : Int64)
  /-- The time of day, which is later than the epoch. -/
  | running (seconds : Int64)
  deriving DecidableEq, Repr

namespace Clock

/-- The first second of the calendar. -/
def firstSecond : Int := -8334601228800

/-- The last second of the calendar. -/
def lastSecond : Int := 8210266876799

/-- The clock frozen at an epoch second. -/
def frozenAt (seconds : Int64) : Clock :=
  if firstSecond ≤ seconds.toInt ∧ seconds.toInt ≤ lastSecond then .frozen seconds
  else .frozen 0

/-- The time that a clock shows. -/
def now : Clock → Int64
  | .frozen s => s
  | .running s => s

end Clock

end Reconciliation
