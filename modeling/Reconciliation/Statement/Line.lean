import Reconciliation.Text.Blank
import Reconciliation.Text.Numeral
import Reconciliation.Transaction

/-!
# Statement lines

A line of a statement has six fields: timestamp, counterparty, direction, amount, outcome
and description.  `Line.transaction` turns the fields into a transaction; the first field
that does not fit, in the order count, timestamp, direction, amount, outcome, gives the
`LineFlaw`.
-/

namespace Reconciliation

/-- The reasons for which a line is no transaction. -/
inductive LineFlaw where
  | fieldCount (count : Nat)
  | timestamp (field : String) (flaw : Numeral.Flaw)
  | direction (field : String)
  | negativeAmount (field : String)
  | amount (field : String) (flaw : Numeral.Flaw)
  | outcome (field : String)
  deriving DecidableEq, Repr

/-- The wording of a line's flaw. -/
def LineFlaw.message : LineFlaw → String
  | .fieldCount n => "expected 6 fields, got " ++ n.repr
  | .timestamp f flaw => "invalid timestamp '" ++ f ++ "': " ++ flaw.message
  | .direction f => "invalid tx type: " ++ f
  | .negativeAmount f => "negative amount: " ++ f
  | .amount f flaw => "invalid amount '" ++ f ++ "': " ++ flaw.message
  | .outcome f => "invalid tx status: " ++ f

namespace Line

/-- The timestamp that a field holds. -/
def timestamp (field : String) : Except LineFlaw Int64 :=
  (Numeral.readInt64 field).mapError (.timestamp field)

/-- The direction that a field names. -/
def direction (field : String) : Except LineFlaw Direction :=
  match Direction.ofName? field with
  | some d => .ok d
  | none => .error (.direction field)

/-- The amount that a field holds: a numeral that is not negative. -/
def amount (field : String) : Except LineFlaw Amount :=
  match Numeral.readInt64 field with
  | .ok a => if 0 ≤ a then .ok a else .error (.negativeAmount field)
  | .error flaw => .error (.amount field flaw)

/-- The outcome that a field names. -/
def outcome (field : String) : Except LineFlaw Outcome :=
  match Outcome.ofName? field with
  | some o => .ok o
  | none => .error (.outcome field)

/-- The transaction that six trimmed fields describe. -/
def ofFields : List String → Except LineFlaw Transaction
  | [f₀, f₁, f₂, f₃, f₄, f₅] => do
    let timestamp ← timestamp f₀
    let direction ← direction f₂
    let amount ← amount f₃
    let outcome ← outcome f₄
    return { timestamp, counterparty := f₁, direction, amount, outcome, description := f₅ }
  | fields => .error (.fieldCount fields.length)

/-- The transaction that the fields of a line describe.  Blank characters around a field
do not matter. -/
def transaction (fields : List String) : Except LineFlaw Transaction :=
  ofFields (fields.map Text.trim)

end Line

end Reconciliation
