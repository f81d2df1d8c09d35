/-!
# Faults

`Fault` lists what can go wrong while statements are accepted, decoded, stored and
reconciled.  A fault has a message for people, a broad kind, and a stable code for programs.
-/

namespace Reconciliation

/-- Everything that can go wrong. -/
inductive Fault where
  /-- A caller's argument is unusable. -/
  | invalidInput (message : String)
  /-- No upload has this identity. -/
  | uploadNotFound (upload : String)
  /-- The identity is already taken. -/
  | uploadConflict (upload : String)
  /-- A collaborator was not wired in. -/
  | missingDependency (name : String)
  /-- A single line of a statement is no transaction. -/
  | malformedLine (line : Nat) (message : String)
  /-- The statement as a whole cannot be read on. -/
  | unreadable (line : Option Nat) (message : String)
  | io (message : String)
  | busClosed
  | canceled
  | timeout (operation : String) (millis : Nat)
  /-- A notice could not be reconciled. -/
  | unreconciled (event : String) (message : String)
  | badConfiguration (message : String)
  deriving DecidableEq, Repr

/-- The broad kinds of faults. -/
inductive Fault.Kind where
  | validation
  | business
  | server
  deriving DecidableEq, Repr

/-- The name of a kind of faults. -/
def Fault.Kind.name : Fault.Kind → String
  | .validation => "ERROR_TYPE_VALIDATION"
  | .business => "ERROR_TYPE_BUSINESS"
  | .server => "ERROR_TYPE_SERVER"

/-- The stable codes of faults. -/
inductive Fault.Code where
  | internal
  | invalidInput
  | notFound
  | conflict
  | timeout
  | canceled
  deriving DecidableEq, Repr

/-- The name of a code. -/
def Fault.Code.name : Fault.Code → String
  | .internal => "ERROR_CODE_INTERNAL"
  | .invalidInput => "ERROR_CODE_INVALID_INPUT"
  | .notFound => "ERROR_CODE_NOT_FOUND"
  | .conflict => "ERROR_CODE_CONFLICT"
  | .timeout => "ERROR_CODE_TIMEOUT"
  | .canceled => "ERROR_CODE_CANCELED"

namespace Fault

/-- The wording of a fault. -/
def message : Fault → String
  | .invalidInput m => "Invalid input: " ++ m
  | .uploadNotFound u => "Upload " ++ u ++ " not found"
  | .uploadConflict u => "Upload " ++ u ++ " already exists"
  | .missingDependency n => "Missing dependency: " ++ n
  | .malformedLine l m => "Statement parse error at line " ++ l.repr ++ ": " ++ m
  | .unreadable none m => "Statement decode error: " ++ m
  | .unreadable (some l) m => "Statement decode error at line " ++ l.repr ++ ": " ++ m
  | .io m => "I/O error: " ++ m
  | .busClosed => "Event bus is closed"
  | .canceled => "Operation canceled"
  | .timeout o ms => "Timed out after " ++ ms.repr ++ "ms waiting for " ++ o
  | .unreconciled e m => "Reconciliation of event '" ++ e ++ "' failed: " ++ m
  | .badConfiguration m => "Configuration error: " ++ m

/-- The kind of a fault: bad data, a broken rule of the business, or a failure inside. -/
def kind : Fault → Kind
  | .invalidInput _ | .malformedLine _ _ | .unreadable _ _ | .badConfiguration _ => .validation
  | .uploadNotFound _ | .uploadConflict _ => .business
  | .missingDependency _ | .io _ | .busClosed | .canceled | .timeout _ _
  | .unreconciled _ _ => .server

/-- The code of a fault. -/
def code : Fault → Code
  | .invalidInput _ | .malformedLine _ _ | .unreadable _ _ | .badConfiguration _ =>
    .invalidInput
  | .uploadNotFound _ => .notFound
  | .uploadConflict _ => .conflict
  | .timeout _ _ => .timeout
  | .canceled => .canceled
  | .missingDependency _ | .io _ | .busClosed | .unreconciled _ _ => .internal

/-- The wording of several faults, one to a line. -/
def messages (faults : List Fault) : String :=
  String.intercalate "\n" (faults.map message)

end Fault

end Reconciliation
