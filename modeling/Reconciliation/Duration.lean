/-!
# Durations

A `Duration` is a time span in seconds and nanoseconds.  `Duration.scale` multiplies it by a
natural number and stays at the longest duration where the product would be longer.
`Duration.backoff` is the delay before a repeated attempt.
-/

namespace Reconciliation

/-- The number of nanoseconds in a second. -/
def nanosPerSecond : Nat := 1000000000

/-- The number of values of a 64-bit word. -/
def secondsLimit : Nat := 0x10000000000000000

/-- A time span. -/
structure Duration where
  seconds : Nat
  nanos : Nat
  seconds_lt : seconds < secondsLimit
  nanos_lt : nanos < nanosPerSecond
  deriving DecidableEq, Repr

namespace Duration

/-- The empty time span. -/
def zero : Duration :=
  { seconds := 0, nanos := 0, seconds_lt := by decide, nanos_lt := by decide }

/-- The longest time span. -/
def longest : Duration :=
  { seconds := secondsLimit - 1, nanos := nanosPerSecond - 1
    seconds_lt := by decide, nanos_lt := by decide }

/-- The time span of so many whole seconds and further nanoseconds, or the longest one. -/
def make (seconds nanos : Nat) : Duration :=
  let whole := seconds + nanos / nanosPerSecond
  if h : whole < secondsLimit then
    { seconds := whole, nanos := nanos % nanosPerSecond
      seconds_lt := h, nanos_lt := Nat.mod_lt _ (by decide) }
  else longest

/-- The time span of so many milliseconds. -/
def ofMillis (ms : Nat) : Duration :=
  make (ms / 1000) (ms % 1000 * 1000000)

/-- The length in nanoseconds. -/
def toNanos (d : Duration) : Nat :=
  d.seconds * nanosPerSecond + d.nanos

/-- The length in whole milliseconds. -/
def toMillis (d : Duration) : Nat :=
  d.seconds * 1000 + d.nanos / 1000000

/-- The length in milliseconds, a part of a millisecond counted as a whole one. -/
def toMillisCeil (d : Duration) : Nat :=
  d.seconds * 1000 + (d.nanos + 999999) / 1000000

/-- The time span `n` times over, or the longest one.  The nanoseconds are multiplied on their
own and carry over into the seconds. -/
def scale (d : Duration) (n : Nat) : Duration :=
  make (d.seconds * n) (d.nanos * n)

/-- The largest factor of a delay. -/
def factorLimit : Nat := 0xFFFFFFFF

/-- The factor of the delay after the given number of repeated attempts. -/
def backoffFactor (attempt : Nat) : Nat :=
  if attempt < 32 then 1 <<< attempt else factorLimit

/-- The delay after the given number of repeated attempts: twice as long each time. -/
def backoff (base : Duration) (attempt : Nat) : Duration :=
  base.scale (backoffFactor attempt)

end Duration

end Reconciliation
