import Reconciliation.Toml.Scalar
import Reconciliation.Toml.Value

/-!
# Documents

`Document.read?` reads the text of a TOML document as a table, or finds that it is none.  A
document is a sequence of lines: entries, each with a key and a value, and headers that name
the table to which the entries after them belong.
-/

namespace Reconciliation.Toml

open Scan

/-- A value that begins with a digit or a sign. -/
def number : Scan Value :=
  (do return .moment (← moment)) <|> (do return .real (← real)) <|>
    (do return .integer (← integer))

/-- A value that is neither an array nor a table. -/
def scalar : Scan Value := do
  match ← peek? with
  | some '"' | some '\'' => return .text (← quotedText)
  | some 't' => literal "true" *> return .boolean true
  | some 'f' => literal "false" *> return .boolean false
  | some c =>
    if c.isDigit || c == '+' || c == '-' || c == 'i' || c == 'n' then number else failure
  | none => failure

mutual

/-- A value inside so many arrays and tables. -/
def value (depth : Nat) : Nat → Scan Value
  | 0 => failure
  | fuel + 1 => do
    match ← peek? with
    | some '[' =>
      if depth + 1 < nestingLimit then next *> return .array (← items (depth + 1) fuel)
      else failure
    | some '{' =>
      if depth + 1 < nestingLimit then
        discard next
        spaces
        if ← tryChar '}' then return .inline []
        return .inline (← entries (depth + 1) [] fuel)
      else failure
    | _ => scalar

/-- The items of an array, after its opening bracket or a comma. -/
def items (depth : Nat) : Nat → Scan (List Value)
  | 0 => failure
  | fuel + 1 => do
    gap
    if ← tryChar ']' then return []
    let item ← value depth fuel
    gap
    if ← tryChar ',' then return item :: (← items depth fuel)
    char ']'
    return [item]

/-- The entries of a table that is written in one piece, after those of `table`. -/
def entries (depth : Nat) (table : Table) : Nat → Scan Table
  | 0 => failure
  | fuel + 1 => do
    let path ← key
    char '='
    spaces
    let v ← value depth fuel
    spaces
    let some table := table.insert? path v | failure
    if ← tryChar ',' then entries depth table fuel
    else
      char '}'
      return table

end

/-- The lines of a document. -/
inductive Line where
  | blank
  | entry (path : List String) (value : Value)
  | header (path : List String)
  | seriesHeader (path : List String)

/-- A line, from its first character that is no space. -/
def line : Scan Line := do
  match ← peek? with
  | some '#' | some '\n' | some '\r' => lineEnd *> return .blank
  | some '[' =>
    if ← ahead "[[" then
      literal "[["
      let path ← key
      literal "]]"
      lineEnd
      return .seriesHeader path
    discard next
    let path ← key
    char ']'
    lineEnd
    return .header path
  | _ =>
    let path ← key
    char '='
    spaces
    let v ← value 0 (2 * (← get).length + 2)
    lineEnd
    return .entry path v

/-- The lines of a document, so many at most. -/
def lines : Nat → Scan (List Line)
  | 0 => return []
  | n + 1 => do
    spaces
    if ← atEnd then return []
    let l ← line
    return l :: (← lines n)

/-- A document that is being read: its table, and the parts of the last header. -/
structure Document where
  root : Table := []
  current : List String := []

namespace Document

/-- The document with one more line. -/
def add? (d : Document) : Line → Option Document
  | .blank => some d
  | .entry path v =>
    (d.root.descend? (fun t => t.insert? path v) d.current).map fun root => { d with root }
  | .header path => (d.root.openHeader? path).map fun root => { root, current := path }
  | .seriesHeader path => (d.root.openSeries? path).map fun root => { root, current := path }

/-- The text without a byte order mark at its beginning. -/
def withoutMark (text : String) : List Char :=
  match text.toList with
  | '\uFEFF' :: cs => cs
  | cs => cs

/-- The table that a text spells. -/
def read? (text : String) : Option Table := do
  let cs := withoutMark text
  let ls ← (lines (cs.length + 1)).complete cs
  let d ← ls.foldlM add? {}
  return d.root

end Document

end Reconciliation.Toml
