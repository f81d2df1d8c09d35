/-!
# Decimal numerals

`Numeral.read lo hi` reads a decimal numeral as an integer between `lo` and `hi`.  A numeral
is an optional sign and one or more ASCII digits; the minus sign is accepted only where
negative numbers are in the range.  Reading goes from left to right and stops at the first
character that is no digit or takes the value out of the range.
-/

namespace Reconciliation.Numeral

/-- The reasons for which a text is not a numeral in the range. -/
inductive Flaw where
  | empty
  | invalidDigit
  | tooLarge
  | tooSmall
  deriving DecidableEq, Repr

/-- The wording of a flaw. -/
def Flaw.message : Flaw → String
  | .empty => "cannot parse integer from empty string"
  | .invalidDigit => "invalid digit found in string"
  | .tooLarge => "number too large to fit in target type"
  | .tooSmall => "number too small to fit in target type"

/-- The value of an ASCII digit. -/
def digit? (c : Char) : Option Nat :=
  if c.isDigit then some (c.toNat - 48) else none

/-- The value `value` followed by the digits `digits`, which count downwards if `negative`. -/
def readDigits (lo hi : Int) (negative : Bool) (value : Int) :
    List Char → Except Flaw Int
  | [] => .ok value
  | c :: digits =>
    match digit? c with
    | none => .error .invalidDigit
    | some d =>
      let longer := if negative then value * 10 - d else value * 10 + d
      if hi < longer then .error .tooLarge
      else if longer < lo then .error .tooSmall
      else readDigits lo hi negative longer digits

/-- The integer between `lo` and `hi` that a numeral stands for. -/
def read (lo hi : Int) : List Char → Except Flaw Int
  | [] => .error .empty
  | ['+'] => .error .invalidDigit
  | ['-'] => .error .invalidDigit
  | '+' :: digits => readDigits lo hi false 0 digits
  | '-' :: digits =>
    if lo < 0 then readDigits lo hi true 0 digits else .error .invalidDigit
  | digits => readDigits lo hi false 0 digits

/-- The largest integer of `n` bits. -/
def unsignedMax (n : Nat) : Int := (1 <<< n : Nat) - 1

/-- The integer that a numeral stands for, as a signed 64-bit word. -/
def readInt64 (s : String) : Except Flaw Int64 :=
  (read (-0x8000000000000000) 0x7FFFFFFFFFFFFFFF s.toList).map Int64.ofInt

/-- The natural number of at most `n` bits that a numeral stands for. -/
def readNat (n : Nat) (s : String) : Except Flaw Nat :=
  (read 0 (unsignedMax n) s.toList).map Int.toNat

end Reconciliation.Numeral
