import Reconciliation.Amount
import Reconciliation.Transaction
import Reconciliation.Upload

/-!
# Tallies

A `Tally` adds up what the lines of a statement bring: the balance, the transactions that call
for attention, and the counts of lines.
-/

namespace Reconciliation

/-- The results of the lines read so far. -/
structure Tally where
  balance : Amount := 0
  /-- The transactions that call for attention, in the order of the statement. -/
  issues : List Transaction := []
  counts : LineCounts := {}
  deriving DecidableEq, Repr

namespace Tally

/-- The tally with one more transaction. -/
def record (t : Tally) (transaction : Transaction) : Tally :=
  { balance := t.balance.addSaturating transaction.balanceDelta
    issues := if transaction.outcome.isIssue then t.issues ++ [transaction] else t.issues
    counts := t.counts.countParsed }

/-- The tally with one more line that is no transaction. -/
def reject (t : Tally) : Tally :=
  { t with counts := t.counts.countRejected }

end Tally

end Reconciliation
