import Reconciliation.Amount

/-!
# Transactions

A `Transaction` is one line of a bank statement.  Its `Direction` says whether money came in
or went out, its `Outcome` whether the payment went through.  Both have canonical names,
which are recognised up to ASCII case.  `Transaction.balanceDelta` is what a transaction
adds to the balance of its statement.
-/

namespace Reconciliation

/-- The direction in which a transaction moves money. -/
inductive Direction where
  | credit
  | debit
  deriving DecidableEq, Repr

/-- The canonical name of a direction. -/
def Direction.name : Direction → String
  | .credit => "CREDIT"
  | .debit => "DEBIT"

/-- The direction with the given name, in any ASCII case. -/
def Direction.ofName? (text : String) : Option Direction :=
  [Direction.credit, .debit].find? (fun d => d.name == text.toUpper)

/-- What became of a transaction. -/
inductive Outcome where
  | success
  | failed
  | pending
  deriving DecidableEq, Repr

/-- The canonical name of an outcome. -/
def Outcome.name : Outcome → String
  | .success => "SUCCESS"
  | .failed => "FAILED"
  | .pending => "PENDING"

/-- The outcome with the given name, in any ASCII case. -/
def Outcome.ofName? (text : String) : Option Outcome :=
  [Outcome.success, .failed, .pending].find? (fun o => o.name == text.toUpper)

/-- An outcome that calls for attention: anything but success. -/
def Outcome.isIssue : Outcome → Bool
  | .success => false
  | .failed => true
  | .pending => true

/-- One line of a bank statement. -/
structure Transaction where
  /-- Epoch seconds. -/
  timestamp : Int64
  counterparty : String
  direction : Direction
  amount : Amount
  outcome : Outcome
  description : String
  deriving DecidableEq, Repr

/-- The signed contribution of a transaction to the balance: only a transaction that went
through contributes. -/
def Transaction.balanceDelta (t : Transaction) : Amount :=
  match t.outcome, t.direction with
  | .success, .credit => t.amount
  | .success, .debit => -t.amount
  | _, _ => 0

/-- The notice that a transaction failed, addressed to whoever reconciles failed
transactions. -/
structure Notice where
  event : String
  upload : String
  transaction : Transaction
  deriving DecidableEq, Repr

end Reconciliation
