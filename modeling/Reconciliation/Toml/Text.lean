import Reconciliation.Toml.Scan

/-!
# Quoted texts and keys

TOML quotes a text in four ways.  Between double quotes a backslash begins an escape; between
single quotes every character stands for itself.  Tripled quotes of either kind enclose a text
of several lines, which does not include a line end right after the opening quotes.  Keys are
bare words or quoted texts of one line, and may be dotted.
-/

namespace Reconciliation.Toml

open Scan

/-- A character that stands for itself between quotes, apart from quotes and backslashes: no
control character other than the tab. -/
def isTextChar (c : Char) : Bool :=
  c == '\t' || (0x20 ≤ c.toNat && c.toNat != 0x7F)

/-- The value of a hexadecimal digit. -/
def hexDigit? (c : Char) : Option Nat :=
  if c.isDigit then some (c.toNat - 48)
  else if 'a' ≤ c ∧ c ≤ 'f' then some (c.toNat - 87)
  else if 'A' ≤ c ∧ c ≤ 'F' then some (c.toNat - 55)
  else none

/-- The character whose code point these hexadecimal digits spell. -/
def scalar? (digits : List Char) : Option Char := do
  let n := (← digits.mapM hexDigit?).foldl (fun n d => n * 16 + d) 0
  if n.isValidChar then some (Char.ofNat n) else none

/-- The character for which a backslash and this character stand. -/
def escape? : Char → Option Char
  | 'b' => some '\x08'
  | 't' => some '\t'
  | 'n' => some '\n'
  | 'f' => some '\x0c'
  | 'r' => some '\r'
  | '"' => some '"'
  | '\\' => some '\\'
  | _ => none

/-- The rest of a text between double quotes, with the characters so far in reverse. -/
def basicTail (sofar : List Char) : Scan String
  | [] => none
  | '"' :: rest => some (String.ofList sofar.reverse, rest)
  | '\\' :: 'u' :: a :: b :: c :: d :: rest =>
    (scalar? [a, b, c, d]).bind fun e => basicTail (e :: sofar) rest
  | '\\' :: 'U' :: a :: b :: c :: d :: e :: f :: g :: h :: rest =>
    (scalar? [a, b, c, d, e, f, g, h]).bind fun e => basicTail (e :: sofar) rest
  | '\\' :: c :: rest => (escape? c).bind fun e => basicTail (e :: sofar) rest
  | c :: rest => if isTextChar c && c != '\\' then basicTail (c :: sofar) rest else none

/-- The rest of a text between single quotes. -/
def literalTail (sofar : List Char) : Scan String
  | [] => none
  | '\'' :: rest => some (String.ofList sofar.reverse, rest)
  | c :: rest => if isTextChar c then literalTail (c :: sofar) rest else none

/-- The end of a text between tripled quotes, after its three closing quotes: up to two more
quotes belong to the text. -/
def closeTripled (quote : Char) (sofar : List Char) (rest : List Char) :
    Option (String × List Char) :=
  let extra := (rest.take 2).takeWhile (· == quote)
  some (String.ofList (sofar.reverse ++ extra), rest.drop extra.length)

/-- Where scanning stands after a backslash at the end of a line. -/
inductive Fold where
  /-- Not after such a backslash. -/
  | off
  /-- On the line of the backslash. -/
  | pending
  /-- On the lines after it, before the first character that is not blank. -/
  | on
  deriving DecidableEq, Repr

/-- The rest of a text between tripled double quotes. -/
def basicLinesTail (fold : Fold) (sofar : List Char) : Scan String
  | [] => none
  | '\r' :: '\n' :: rest =>
    if fold = .off then basicLinesTail .off ('\n' :: sofar) rest
    else basicLinesTail .on sofar rest
  | '\n' :: rest =>
    if fold = .off then basicLinesTail .off ('\n' :: sofar) rest
    else basicLinesTail .on sofar rest
  | ' ' :: rest =>
    if fold = .off then basicLinesTail .off (' ' :: sofar) rest
    else basicLinesTail fold sofar rest
  | '\t' :: rest =>
    if fold = .off then basicLinesTail .off ('\t' :: sofar) rest
    else basicLinesTail fold sofar rest
  | '"' :: '"' :: '"' :: rest => if fold = .pending then none else closeTripled '"' sofar rest
  | '\\' :: 'u' :: a :: b :: c :: d :: rest =>
    if fold = .pending then none
    else (scalar? [a, b, c, d]).bind fun e => basicLinesTail .off (e :: sofar) rest
  | '\\' :: 'U' :: a :: b :: c :: d :: e :: f :: g :: h :: rest =>
    if fold = .pending then none
    else (scalar? [a, b, c, d, e, f, g, h]).bind fun e => basicLinesTail .off (e :: sofar) rest
  | '\\' :: c :: rest =>
    if fold = .pending then none
    else if isSpace c then basicLinesTail .pending sofar rest
    else if c = '\n' then basicLinesTail .on sofar rest
    else if c = '\r' then
      if rest.head? = some '\n' then basicLinesTail .pending sofar rest else none
    else (escape? c).bind fun e => basicLinesTail .off (e :: sofar) rest
  | c :: rest =>
    if fold ≠ .pending ∧ isTextChar c ∧ c ≠ '\\' then basicLinesTail .off (c :: sofar) rest
    else none

/-- The rest of a text between tripled single quotes. -/
def literalLinesTail (sofar : List Char) : Scan String
  | [] => none
  | '\r' :: '\n' :: rest => literalLinesTail ('\n' :: sofar) rest
  | '\n' :: rest => literalLinesTail ('\n' :: sofar) rest
  | '\'' :: '\'' :: '\'' :: rest => closeTripled '\'' sofar rest
  | c :: rest => if isTextChar c then literalLinesTail (c :: sofar) rest else none

/-- A line end right after opening quotes, if there is one. -/
def skipNewline : Scan Unit :=
  newline <|> return ()

/-- A quoted text of one line. -/
def quotedKey : Scan String := do
  match ← next with
  | '"' => basicTail []
  | '\'' => literalTail []
  | _ => failure

/-- A quoted text. -/
def quotedText : Scan String := do
  if ← ahead "\"\"\"" then literal "\"\"\"" *> skipNewline *> basicLinesTail .off []
  else if ← ahead "'''" then literal "'''" *> skipNewline *> literalLinesTail []
  else quotedKey

/-- A character of a bare key. -/
def isBareChar (c : Char) : Bool :=
  c.isAlphanum || c == '_' || c == '-'

/-- A key without dots. -/
def simpleKey : Scan String := do
  match ← peek? with
  | some '"' | some '\'' => quotedKey
  | _ => return String.ofList (← many1 isBareChar)

/-- The parts of a dotted key, so many at most. -/
def keyParts : Nat → Scan (List String)
  | 0 => failure
  | n + 1 => do
    spaces
    let part ← simpleKey
    spaces
    if ← tryChar '.' then return part :: (← keyParts n)
    return [part]

/-- The largest depth to which keys and values are nested, plus one. -/
def nestingLimit : Nat := 80

/-- A key, split at its dots. -/
def key : Scan (List String) :=
  keyParts (nestingLimit - 1)

end Reconciliation.Toml
