import Reconciliation.Rehearsal.Outcome
import Reconciliation.Store

/-!
# Rehearsals of the store

Scripted sequences of operations on a record store.  A step that revises an upload lays down
what it changes, and whether it breaks off after that.
-/

namespace Reconciliation.Rehearsal

/-- The changes that a step makes to an upload; what is `none` stays as it is. -/
structure Amendment where
  stage : Option Stage := none
  error : Option (Option String) := none
  startedAt : Option Int64 := none
  endedAt : Option Int64 := none
  counts : Option LineCounts := none
  /-- The lines to count after that: transactions, and others. -/
  marks : List Bool := []
  deriving DecidableEq, Repr

/-- The counts with one more line, which is a transaction or not. -/
def countLine (c : LineCounts) (isTransaction : Bool) : LineCounts :=
  if isTransaction then c.countParsed else c.countRejected

/-- The upload with the changes made. -/
def Amendment.apply (a : Amendment) (u : Upload) : Upload :=
  { u with
    stage := a.stage.getD u.stage
    error := a.error.getD u.error
    startedAt := a.startedAt.getD u.startedAt
    endedAt := a.endedAt.getD u.endedAt
    counts := a.marks.foldl countLine (a.counts.getD u.counts) }

/-- The steps of a script for the store. -/
inductive StoreStep where
  | create (id : String)
  | size
  | balance (id : String)
  /-- With the message of the panic that follows the changes. -/
  | revise (id : String) (amendment : Amendment) (panic : Option String)
  | save (id : String) (balance : Amount) (issues : List Transaction) (counts : LineCounts)
  | list (id : String) (filter : IssueFilter) (page : Page)
  deriving DecidableEq, Repr

/-- What a step of a script for the store shows. -/
inductive StoreOutcome where
  | done
  | refused (fault : StoreFault)
  | brokenOff (message : String)
  | size (n : Nat)
  | balance (balance : Amount) (upload : Upload)
  | issues (slice : IssueSlice)
  deriving DecidableEq, Repr

/-- The store after a step that writes, and what the step shows. -/
def written (s : Store) : Except StoreFault Store → Store × StoreOutcome
  | .ok s => (s, .done)
  | .error f => (s, .refused f)

/-- The change that a step lays down. -/
def Amendment.edit (a : Amendment) (panic : Option String) (u : Upload) : Edit :=
  match panic with
  | none => .completed (a.apply u)
  | some message => .panicked (a.apply u) message

/-- The store after a step, and what the step shows. -/
def storeStep (s : Store) : StoreStep → Store × StoreOutcome
  | .create id => written s (s.create (.accepted id))
  | .size => (s, .size s.size)
  | .balance id =>
    match s.balance id with
    | .ok (balance, upload) => (s, .balance balance upload)
    | .error f => (s, .refused f)
  | .revise id amendment panic =>
    match s.revise id (amendment.edit panic) with
    | .ok (s, none) => (s, .done)
    | .ok (s, some message) => (s, .brokenOff message)
    | .error f => (s, .refused f)
  | .save id balance issues counts => written s (s.saveResults id balance issues counts)
  | .list id filter page =>
    match s.listIssues id filter page with
    | .ok slice => (s, .issues slice)
    | .error f => (s, .refused f)

/-- What the steps of a script show on a new store. -/
def playStore (steps : List StoreStep) : List StoreOutcome :=
  play (fun s _ t => storeStep s t) {} steps

end Reconciliation.Rehearsal
