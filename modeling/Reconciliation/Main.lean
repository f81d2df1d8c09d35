import Reconciliation.Command

/-!
# The program

The program reads the files that its command line names, runs the command on them and shows
what comes of it: the report on the standard output, a fault on the standard error output.
-/

open Reconciliation

/-- The wording of a failure of the operating system. -/
def systemMessage : IO.Error → String
  | .alreadyExists _ code text | .noFileOrDirectory _ code text
  | .invalidArgument _ code text | .permissionDenied _ code text
  | .resourceExhausted _ code text | .inappropriateType _ code text
  | .noSuchThing _ code text | .interrupted _ code text | .otherError code text
  | .resourceBusy code text | .resourceVanished code text | .unsupportedOperation code text
  | .hardwareFault code text | .unsatisfiedConstraints code text | .illegalOperation code text
  | .protocolError code text | .timeExpired code text =>
    text ++ " (os error " ++ code.toNat.repr ++ ")"
  | .unexpectedEof => "unexpected end of file"
  | .userError text => text

/-- What an open file holds, up to the failure of reading it. -/
def readFile (handle : IO.FS.Handle) : IO Statement := do
  try
    return { bytes := (← handle.readBinToEnd).toList }
  catch e =>
    return { bytes := [], ending := .broken (systemMessage e) }

/-- What the path of a file opens as. -/
def openFile (path : String) : IO (Except String Statement) := do
  if path.toList.contains '\x00' then
    return .error PathFlaw.holdsNul.message
  try
    return .ok (← readFile (← IO.FS.Handle.mk path .read))
  catch e =>
    return .error (systemMessage e)

/-- What the paths of a command line open as. -/
def openFiles (words : List String) : IO Files := do
  match Arguments.parse words with
  | .error _ => return fun _ => .error PathFlaw.notFound.message
  | .ok a =>
    let opened ← (a.config.toList ++ a.inputs).mapM fun path => do
      return (path, ← openFile path)
    return fun path => (opened.lookup path).getD (.error PathFlaw.notFound.message)

/-- The summary of the command line. -/
def usage : String :=
  "Usage: statement-reconciler [--config PATH] [--runner-capacity COUNT] " ++
  "[--bus-capacity COUNT] [--workers COUNT] [--max-retries COUNT] " ++
  "[--base-backoff-ms MILLIS] [--report summary|issues] [--status LIST] [--type LIST] INPUT..."

/-- The program. -/
def main (words : List String) : IO UInt32 := do
  let files ← openFiles words
  let millis ← IO.monoMsNow
  let tail ← IO.rand 0 0x4000000000000000
  let outcome := Command.run words files (.unique millis tail)
    (.running (Int64.ofNat (millis / 1000 + 1)))
  match outcome with
  | .usage .displayHelp => IO.println usage
  | .usage _ => IO.eprintln usage
  | .failed _ => outcome.errorLine?.forM IO.eprintln
  | .shown report => IO.print report
  return UInt32.ofNat outcome.exitCode
