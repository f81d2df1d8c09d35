import Reconciliation.Statement.Reader

/-!
# Files

The library sees files through `Files`: what a path opens as, or the reason for which it does
not open.  `FileTree` holds the files of a directory and follows paths in it, so it is one way
to be `Files`; the surroundings of the directory are empty.
-/

namespace Reconciliation

/-- What paths open as. -/
abbrev Files := String → Except String Statement

/-- The text of a file, or the reason for which it cannot be read as text. -/
def Files.readText (files : Files) (path : String) : Except String String :=
  match files path with
  | .error m => .error m
  | .ok s =>
    match s.ending, Utf8.decodeString s.bytes with
    | .broken m, _ => .error m
    | .panicking m, _ => .error m
    | .clean, .ok text => .ok text
    | .clean, .error _ => .error "stream did not contain valid UTF-8"

namespace Path

/-- The parts of a path between slashes. -/
def splitAtSlashes : List Char → List (List Char)
  | [] => [[]]
  | c :: rest =>
    if c = '/' then [] :: splitAtSlashes rest
    else
      match splitAtSlashes rest with
      | part :: parts => (c :: part) :: parts
      | [] => [[c]]

/-- The parts of a path, empty ones included. -/
def parts (path : String) : List String :=
  (splitAtSlashes path.toList).map String.ofList

/-- The name by which a path is known: its last part that is neither empty nor a dot, unless
that leads to the directory above; else the path as it stands. -/
def label (path : String) : String :=
  match ((parts path).filter (fun part => part != "" && part != ".")).getLast? with
  | some name => if name = ".." then path else name
  | none => path

end Path

/-- A file or a directory. -/
inductive FileEntry where
  | file (bytes : List UInt8)
  | directory
  deriving DecidableEq, Repr

/-- The files and directories below a directory, each with the names that lead to it. -/
structure FileTree where
  entries : List (List String × FileEntry) := []
  deriving DecidableEq, Repr

/-- The reasons for which a path leads nowhere. -/
inductive PathFlaw where
  | notFound
  | notDirectory
  | nameTooLong
  | holdsNul
  deriving DecidableEq, Repr

/-- The wording of such a reason. -/
def PathFlaw.message : PathFlaw → String
  | .notFound => "No such file or directory (os error 2)"
  | .notDirectory => "Not a directory (os error 20)"
  | .nameTooLong => "File name too long (os error 36)"
  | .holdsNul => "file name contained an unexpected NUL byte"

namespace FileTree

/-- The wording of the failure to read a directory as a file. -/
def isDirectory : String := "Is a directory (os error 21)"

/-- Where following a path has led to. -/
inductive Spot where
  /-- The names that lead from the directory to here, the last one first. -/
  | inside (names : List String)
  /-- A directory outside. -/
  | outside
  deriving DecidableEq, Repr

/-- What is at the end of these names. -/
def entryAt (t : FileTree) (names : List String) : Option FileEntry :=
  if names.isEmpty then some .directory else t.entries.lookup names.reverse

/-- A spot that is a directory. -/
def isDirectoryAt (t : FileTree) : Spot → Bool
  | .inside names => t.entryAt names == some .directory
  | .outside => true

/-- The largest number of bytes of a name, and of a path. -/
def nameLimit : Nat := 255

def pathLimit : Nat := 4095

/-- The spot that one more part of a path leads to. -/
def step (t : FileTree) (spot : Spot) (part : String) : Except PathFlaw Spot :=
  if !t.isDirectoryAt spot then .error .notDirectory
  else if part = "" ∨ part = "." then .ok spot
  else if part = ".." then
    match spot with
    | .inside (_ :: names) => .ok (.inside names)
    | .inside [] => .ok .outside
    | .outside => .ok .outside
  else if nameLimit < part.utf8ByteSize then .error .nameTooLong
  else
    match spot with
    | .outside => .error .notFound
    | .inside names =>
      if (t.entryAt (part :: names)).isSome then .ok (.inside (part :: names))
      else .error .notFound

/-- The spot that a path leads to. -/
def resolve (t : FileTree) (path : String) : Except PathFlaw Spot :=
  if path.toList.contains '\x00' then .error .holdsNul
  else if path.isEmpty then .error .notFound
  else if pathLimit < path.utf8ByteSize then .error .nameTooLong
  else
    let start := if path.startsWith "/" then .outside else .inside []
    (Path.parts path).foldlM t.step start

/-- What a path opens as.  A directory opens too, but reading it fails. -/
def files (t : FileTree) : Files := fun path =>
  match t.resolve path with
  | .error flaw => .error flaw.message
  | .ok .outside => .ok { bytes := [], ending := .broken isDirectory }
  | .ok (.inside names) =>
    match t.entryAt names with
    | some (.file bytes) => .ok { bytes }
    | _ => .ok { bytes := [], ending := .broken isDirectory }

/-- The tree with one more entry, and the directories on the way to it. -/
def add (t : FileTree) (path : String) (entry : FileEntry) : FileTree :=
  let names := (Path.parts path).filter (fun part => part != "" && part != ".")
  let parents := (List.range names.length).map (fun n => (names.take n, FileEntry.directory))
  { entries := (names, entry) :: t.entries ++ parents }

end FileTree

end Reconciliation
