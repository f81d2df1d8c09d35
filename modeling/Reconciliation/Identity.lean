/-!
# Identities

An `IdSource` hands out the identities of uploads and notices.  A sequence numbers them from 1
behind a common label; another source writes time-ordered universally unique identifiers; and
any other way to find identities is the list of what it comes up with.
-/

namespace Reconciliation

/-- The hexadecimal digits of `n`, as many as `width`. -/
def hexDigits : Nat → Nat → List Char
  | 0, _ => []
  | width + 1, n => hexDigits width (n / 16) ++ [Nat.digitChar (n % 16)]

/-- The universally unique identifier of version 7 with this time, in milliseconds, and this
tail of 74 bits. -/
def uniqueId (millis tail : Nat) : String :=
  let groups := [
    hexDigits 8 (millis >>> 16),
    hexDigits 4 millis,
    '7' :: hexDigits 3 (tail >>> 62),
    hexDigits 4 (0x8000 + (tail >>> 48) % 0x4000),
    hexDigits 12 tail]
  String.ofList (['-'].intercalate groups)

/-- A source of identities. -/
inductive IdSource where
  /-- The label, and the number that comes next: a word, so that 0 follows the largest. -/
  | sequence (label : String) (next : UInt64)
  /-- The time, and the tail that comes next. -/
  | unique (millis : Nat) (next : Nat)
  /-- The identities that are left; behind the last of them there are only empty texts. -/
  | listed (rest : List String)
  deriving DecidableEq, Repr

namespace IdSource

/-- The sequence behind a label, from its beginning. -/
def labelled (label : String) : IdSource := .sequence label 1

/-- The identity that comes next. -/
def peek : IdSource → String
  | .sequence label n => label ++ "-" ++ n.toNat.repr
  | .unique millis n => uniqueId millis n
  | .listed rest => rest.headD ""

/-- The source once its next identity has been handed out. -/
def advance : IdSource → IdSource
  | .sequence label n => .sequence label (n + 1)
  | .unique millis n => .unique millis (n + 1)
  | .listed rest => .listed rest.tail

/-- The identity that comes next, and the source after it. -/
def draw (s : IdSource) : String × IdSource :=
  (s.peek, s.advance)

/-- The next `n` identities. -/
def drawMany (s : IdSource) : Nat → List String
  | 0 => []
  | n + 1 => s.peek :: s.advance.drawMany n

end IdSource

/-- A text in the form of a version 7 identifier: five hyphenated groups of lower-case
hexadecimal digits, the third beginning with the version and the fourth with the variant. -/
def isUniqueId (text : String) : Bool :=
  let cs := text.toList
  let hex (c : Char) : Bool := c.isDigit || ('a' ≤ c && c ≤ 'f')
  let hyphens := [8, 13, 18, 23]
  cs.length == 36 &&
    cs.zipIdx.all (fun (c, i) => if hyphens.contains i then c == '-' else hex c) &&
    cs[14]? == some '7' && ['8', '9', 'a', 'b'].any (fun v => cs[19]? == some v)

end Reconciliation
