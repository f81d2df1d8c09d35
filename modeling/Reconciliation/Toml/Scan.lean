/-!
# Scanning

A `Scan` takes something off the front of a list of characters, or fails.  The scans of this
module are the ones from which all others are made: single characters, runs of characters,
and the blanks, comments and line ends of TOML.
-/

namespace Reconciliation.Toml

/-- Taking something off the front of a list of characters. -/
abbrev Scan := StateT (List Char) Option

namespace Scan

/-- The next character, which stays where it is. -/
def peek? : Scan (Option Char) :=
  fun cs => some (cs.head?, cs)

/-- The next character. -/
def next : Scan Char
  | [] => none
  | c :: cs => some (c, cs)

/-- The next character, if it has a property. -/
def satisfy (p : Char → Bool) : Scan Char
  | [] => none
  | c :: cs => if p c then some (c, cs) else none

/-- A given character. -/
def char (c : Char) : Scan Unit :=
  discard (satisfy (· == c))

/-- Whether a given character comes next; if it does, it is taken. -/
def tryChar (c : Char) : Scan Bool
  | [] => some (false, [])
  | d :: cs => if d = c then some (true, cs) else some (false, d :: cs)

/-- A given text. -/
def literal (s : String) : Scan Unit :=
  fun cs => if s.toList.isPrefixOf cs then some ((), cs.drop s.length) else none

/-- Whether a given text comes next. -/
def ahead (s : String) : Scan Bool :=
  fun cs => some (s.toList.isPrefixOf cs, cs)

/-- All characters up to the first without a property. -/
def many (p : Char → Bool) : Scan (List Char) :=
  fun cs => some (cs.takeWhile p, cs.dropWhile p)

/-- The same, one character at least. -/
def many1 (p : Char → Bool) : Scan (List Char) := do
  return (← satisfy p) :: (← many p)

/-- Exactly so many characters with a property. -/
def exactly (p : Char → Bool) : Nat → Scan (List Char)
  | 0 => return []
  | n + 1 => do return (← satisfy p) :: (← exactly p n)

/-- Whether all characters are taken. -/
def atEnd : Scan Bool :=
  fun cs => some (cs.isEmpty, cs)

/-- The result of a scan that takes everything. -/
def complete {α : Type} (s : Scan α) (cs : List Char) : Option α :=
  match s cs with
  | some (a, []) => some a
  | _ => none

end Scan

open Scan

/-- A space or a tab. -/
def isSpace (c : Char) : Bool :=
  c == ' ' || c == '\t'

/-- A character of a comment: no control character other than the tab. -/
def isCommentChar (c : Char) : Bool :=
  c == '\t' || 0x20 ≤ c.toNat

/-- Spaces and tabs. -/
def spaces : Scan Unit :=
  discard (many isSpace)

/-- The end of a line: a line feed, with or without a carriage return before it. -/
def newline : Scan Unit :=
  literal "\n" <|> literal "\r\n"

/-- A comment, if one comes next. -/
def comment : Scan Unit := do
  if ← tryChar '#' then discard (many isCommentChar)

/-- What may stand after an entry or a header on its line, and the end of the line. -/
def lineEnd : Scan Unit := do
  spaces
  comment
  unless ← atEnd do newline

/-- Spaces, comments and line ends, over at most so many lines. -/
def gapLines : Nat → Scan Unit
  | 0 => spaces
  | n + 1 => do
    spaces
    comment
    match ← peek? with
    | some '\n' | some '\r' => newline *> gapLines n
    | _ => return ()

/-- Spaces, comments and line ends. -/
def gap : Scan Unit := do
  gapLines (← get).length

end Reconciliation.Toml
