/-!
# Uploads

An upload is one submitted statement.  It moves through the stages of `Stage`, its lines are
counted in `LineCounts`, and `Upload` is what is known about it apart from its results.
-/

namespace Reconciliation

/-- The stages of an upload's life. -/
inductive Stage where
  | queued
  | processing
  | done
  | failed
  deriving DecidableEq, Repr

/-- The canonical name of a stage. -/
def Stage.name : Stage → String
  | .queued => "QUEUED"
  | .processing => "PROCESSING"
  | .done => "DONE"
  | .failed => "FAILED"

/-- The stage with the given canonical name. -/
def Stage.ofName? (text : String) : Option Stage :=
  [Stage.queued, .processing, .done, .failed].find? (fun s => s.name == text)

/-- The stages in which an upload stays for good. -/
def Stage.isTerminal : Stage → Bool
  | .queued => false
  | .processing => false
  | .done => true
  | .failed => true

/-- How many lines of a statement were read, and with what success. -/
structure LineCounts where
  total : Nat := 0
  parsed : Nat := 0
  rejected : Nat := 0
  deriving DecidableEq, Repr

/-- The counts with one more line that is a transaction. -/
def LineCounts.countParsed (c : LineCounts) : LineCounts :=
  { c with total := c.total + 1, parsed := c.parsed + 1 }

/-- The counts with one more line that is none. -/
def LineCounts.countRejected (c : LineCounts) : LineCounts :=
  { c with total := c.total + 1, rejected := c.rejected + 1 }

/-- The identity and the life of an upload. -/
structure Upload where
  id : String
  stage : Stage := .queued
  /-- Why the upload failed. -/
  error : Option String := none
  /-- Epoch seconds, zero until processing starts. -/
  startedAt : Int64 := 0
  /-- Epoch seconds, zero until processing ends. -/
  endedAt : Int64 := 0
  counts : LineCounts := {}
  deriving DecidableEq, Repr

/-- What is known of an upload that was just accepted. -/
def Upload.accepted (id : String) : Upload :=
  { id := id }

end Reconciliation
