import Reconciliation.IssueFilter
import Reconciliation.Keyed
import Reconciliation.Page
import Reconciliation.Upload

/-!
# The record store

The store keeps one record for each upload: what is known about its progress, its balance and
its issues.  Each operation reads or writes a single record; an operation that fails leaves
the store as it is.  A change of the progress is worked out on a copy, so one that breaks off
half way leaves no trace.
-/

namespace Reconciliation

/-- The record of an upload. -/
structure UploadRecord where
  upload : Upload
  balance : Amount := 0
  issues : List Transaction := []
  deriving DecidableEq, Repr

/-- The records of all uploads, by identity, in the order in which they were created. -/
structure Store where
  records : Keyed String UploadRecord := []
  deriving DecidableEq, Repr

/-- The reasons for which the store refuses an operation. -/
inductive StoreFault where
  | notFound (id : String)
  | conflict (id : String)
  deriving DecidableEq, Repr

/-- The wording of a refusal. -/
def StoreFault.message : StoreFault → String
  | .notFound id => "upload " ++ id ++ " not found"
  | .conflict id => "upload " ++ id ++ " already exists"

/-- A refusal as it is reported to callers. -/
def StoreFault.toFault : StoreFault → Fault
  | .notFound id => .uploadNotFound id
  | .conflict id => .uploadConflict id

/-- What working out a change of an upload comes to. -/
inductive Edit where
  | completed (upload : Upload)
  /-- The change broke off, with the upload half changed. -/
  | panicked (upload : Upload) (message : String)
  deriving DecidableEq, Repr

/-- One page of an upload's issues. -/
structure IssueSlice where
  transactions : List Transaction
  /-- The number of selected issues on all pages. -/
  total : Nat
  stage : Stage
  deriving DecidableEq, Repr

namespace Store

/-- The record of an upload. -/
def get? (s : Store) (id : String) : Option UploadRecord :=
  s.records.get? id

/-- The record of an upload, or the refusal to find it. -/
def find (s : Store) (id : String) : Except StoreFault UploadRecord :=
  match s.get? id with
  | some r => .ok r
  | none => .error (.notFound id)

/-- The number of uploads. -/
def size (s : Store) : Nat :=
  s.records.length

/-- The store with the record of `id` replaced. -/
def replace (s : Store) (id : String) (r : UploadRecord) : Store :=
  { records := s.records.modify id (fun _ => r) }

/-- The store with a new upload. -/
def create (s : Store) (upload : Upload) : Except StoreFault Store :=
  match s.get? upload.id with
  | some _ => .error (.conflict upload.id)
  | none => .ok { records := s.records.add upload.id { upload } }

/-- The store with an upload changed, and the message of a change that broke off. -/
def revise (s : Store) (id : String) (edit : Upload → Edit) :
    Except StoreFault (Store × Option String) := do
  let r ← s.find id
  match edit r.upload with
  | .completed upload => return (s.replace id { r with upload }, none)
  | .panicked _ message => return (s, some message)

/-- The store with the results of an upload. -/
def saveResults (s : Store) (id : String) (balance : Amount) (issues : List Transaction)
    (counts : LineCounts) : Except StoreFault Store := do
  let r ← s.find id
  return s.replace id { upload := { r.upload with counts }, balance, issues }

/-- The balance and the progress of an upload. -/
def balance (s : Store) (id : String) : Except StoreFault (Amount × Upload) := do
  let r ← s.find id
  return (r.balance, r.upload)

/-- One page of the issues of an upload that a filter selects. -/
def listIssues (s : Store) (id : String) (filter : IssueFilter) (page : Page) :
    Except StoreFault IssueSlice := do
  let r ← s.find id
  let selected := r.issues.filter filter.selects
  return { transactions := page.slice selected, total := selected.length, stage := r.upload.stage }

end Store

end Reconciliation
