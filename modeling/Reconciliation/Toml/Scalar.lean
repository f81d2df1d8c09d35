import Reconciliation.Toml.Text

/-!
# Numbers and moments

The values that begin with a digit or a sign: integers, in decimal or with a base in front,
floating-point numbers, and moments, which are dates, times of day or both.  Of a number that
is no integer, and of a moment, only the spelling is kept.
-/

namespace Reconciliation.Toml

open Scan

/-- Digits, each of which may have an underscore before it. -/
def underscored (p : Char → Bool) : List Char → List Char × List Char
  | [] => ([], [])
  | '_' :: c :: rest =>
    if p c then
      let (digits, rest) := underscored p rest
      (c :: digits, rest)
    else ([], '_' :: c :: rest)
  | c :: rest =>
    if p c then
      let (digits, rest) := underscored p rest
      (c :: digits, rest)
    else ([], c :: rest)

/-- One or more digits, with underscores between them. -/
def digitRun (p : Char → Bool) : Scan (List Char) := do
  let first ← satisfy p
  return first :: (← fun cs => some (underscored p cs))

/-- The number that digits spell in a base. -/
def ofDigits (base : Nat) (digits : List Char) : Nat :=
  digits.foldl (fun n c => n * base + (hexDigit? c).getD 0) 0

/-- A sign, if there is one. -/
def sign? : Scan (Option Char) := do
  match ← peek? with
  | some '+' | some '-' => return some (← next)
  | _ => return none

/-- A decimal digit. -/
def isDecimal (c : Char) : Bool := c.isDigit

/-- A digit of a base. -/
def isDigitOf (base : Nat) (c : Char) : Bool :=
  (hexDigit? c).any (· < base)

/-- The digits of a decimal integer, which begin with zero only if zero is the only one. -/
def decimal : Scan (List Char) := do
  if ← tryChar '0' then return ['0']
  digitRun isDecimal

/-- The integers that are accepted. -/
def isWord (n : Int) : Bool :=
  decide (-0x8000000000000000 ≤ n) && decide (n ≤ 0x7FFFFFFFFFFFFFFF)

/-- An integer that is accepted. -/
def word (n : Int) : Scan Int :=
  if isWord n then return n else failure

/-- An integer. -/
def integer : Scan Int := do
  let based (base : Nat) (mark : String) : Scan Int := do
    literal mark
    word (ofDigits base (← digitRun (isDigitOf base)))
  if ← ahead "0x" then based 16 "0x"
  else if ← ahead "0o" then based 8 "0o"
  else if ← ahead "0b" then based 2 "0b"
  else
    let sign ← sign?
    let n := ofDigits 10 (← decimal)
    word (if sign = some '-' then -n else n)

/-- The exponent of a floating-point number. -/
def exponent : Scan (List Char) := do
  let mark ← satisfy (fun c => c == 'e' || c == 'E')
  let sign ← sign?
  return mark :: sign.toList ++ (← digitRun isDecimal)

/-- The fraction of a floating-point number, and its exponent if there is one. -/
def fraction : Scan (List Char) := do
  char '.'
  let digits ← digitRun isDecimal
  return '.' :: digits ++ (← exponent <|> return [])

/-- The spelling of a number that is no integer, without underscores. -/
def real : Scan String := do
  let sign ← sign?
  let body ← (literal "inf" *> return "inf".toList) <|> (literal "nan" *> return "nan".toList) <|>
    (do return (← decimal) ++ (← fraction <|> exponent))
  return String.ofList (sign.toList ++ body)

/-- A number of exactly so many digits, within bounds. -/
def bounded (digits least most : Nat) : Scan (List Char) := do
  let ds ← exactly isDecimal digits
  let n := ofDigits 10 ds
  if least ≤ n ∧ n ≤ most then return ds else failure

/-- The number of days of a month. -/
def daysOf (year month : Nat) : Nat :=
  if month = 2 then
    if (year % 4 = 0 ∧ year % 100 ≠ 0) ∨ year % 400 = 0 then 29 else 28
  else if month = 4 ∨ month = 6 ∨ month = 9 ∨ month = 11 then 30
  else 31

/-- The spelling of a date. -/
def date : Scan (List Char) := do
  let year ← exactly isDecimal 4
  char '-'
  let month ← bounded 2 1 12
  char '-'
  let day ← bounded 2 1 (daysOf (ofDigits 10 year) (ofDigits 10 month))
  return year ++ '-' :: month ++ '-' :: day

/-- The spelling of a time of day. -/
def timeOfDay : Scan (List Char) := do
  let hour ← bounded 2 0 23
  char ':'
  let minute ← bounded 2 0 59
  char ':'
  let second ← bounded 2 0 60
  let parts ← (do char '.'; return '.' :: (← many1 isDecimal)) <|> return []
  return hour ++ ':' :: minute ++ ':' :: second ++ parts

/-- The spelling of an offset from universal time. -/
def offset : Scan (List Char) :=
  (do return [← satisfy (fun c => c == 'Z' || c == 'z')]) <|> do
    let sign ← satisfy (fun c => c == '+' || c == '-')
    let hour ← bounded 2 0 23
    char ':'
    return sign :: hour ++ ':' :: (← bounded 2 0 59)

/-- The spelling of a date with a time of day, a date or a time of day. -/
def moment : Scan String := do
  let dated : Scan (List Char) := do
    let day ← date
    let time ← (do
      let mark ← satisfy (fun c => c == 'T' || c == 't' || c == ' ')
      let time ← timeOfDay
      return mark :: time ++ (← offset <|> return [])) <|> return []
    return day ++ time
  return String.ofList (← dated <|> timeOfDay)

end Reconciliation.Toml
