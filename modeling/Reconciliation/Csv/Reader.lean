/-!
# Reading comma-separated values

`Csv.next` reads one record of raw fields from a sequence of bytes.  Records end at a
carriage return or a line feed; blank lines hold no record.  A field that begins with a
quote runs to the next quote that is not doubled, across line breaks; what follows that
quote up to the comma belongs to the field as it stands.  The end of the bytes ends an open
record, whether or not a quote is open.

A `Csv.Place` says how far reading has come, in lines and in bytes.
-/

namespace Reconciliation.Csv

/-- Where the reader stands inside a record. -/
inductive Mode where
  /-- Before the first byte of a record. -/
  | record
  /-- Before the first byte of a field. -/
  | field
  /-- Inside a field that is not quoted, or no longer. -/
  | plain
  /-- Between the quotes of a field. -/
  | quoted
  /-- After a quote inside a quoted field: its end, or the first of a doubled quote. -/
  | closing
  deriving DecidableEq, Repr

/-- A record of raw fields. -/
abbrev RawRecord := List (List UInt8)

/-- The bytes that structure a text. -/
def comma : UInt8 := 0x2C

def quote : UInt8 := 0x22

def lineFeed : UInt8 := 0x0A

def carriageReturn : UInt8 := 0x0D

/-- The bytes that end a record. -/
def endsRecord (b : UInt8) : Bool :=
  b == lineFeed || b == carriageReturn

/-- What reading one byte does. -/
inductive Effect where
  /-- The byte is passed over. -/
  | skip
  /-- The byte belongs to the field. -/
  | keep
  /-- The byte ends the field. -/
  | endField
  /-- The byte ends the record. -/
  | endRecord
  deriving DecidableEq, Repr

/-- How a byte is read outside quotes, once the record has begun. -/
def readPlain (b : UInt8) : Mode × Effect :=
  if b == comma then (.field, .endField)
  else if endsRecord b then (.record, .endRecord)
  else (.plain, .keep)

/-- How a byte is read at the beginning of a field. -/
def readFirst (b : UInt8) : Mode × Effect :=
  if b == quote then (.quoted, .skip) else readPlain b

/-- How a byte is read in each mode. -/
def read (mode : Mode) (b : UInt8) : Mode × Effect :=
  match mode with
  | .record => if endsRecord b then (.record, .skip) else readFirst b
  | .field => readFirst b
  | .plain => readPlain b
  | .quoted => if b == quote then (.closing, .skip) else (.quoted, .keep)
  | .closing => if b == quote then (.quoted, .keep) else readPlain b

/-- How far reading has come. -/
structure Place where
  /-- The number of the current line, from 1. -/
  line : Nat := 1
  /-- The number of bytes read. -/
  byte : Nat := 0
  deriving DecidableEq, Repr

/-- The place after one more byte. -/
def Place.after (p : Place) (b : UInt8) : Place :=
  { line := if b == lineFeed then p.line + 1 else p.line, byte := p.byte + 1 }

/-- What the search for a record finds. -/
inductive Found where
  /-- A record, and the place and the bytes after it. -/
  | record (fields : RawRecord) (place : Place) (rest : List UInt8)
  /-- The end of the bytes, inside the record if one has begun. -/
  | exhausted (fields : Option RawRecord) (place : Place)
  deriving DecidableEq, Repr

/-- Reading on in a record: `fields` and `field` hold, in reverse, the fields read so far
and the bytes of the current one. -/
def scan (mode : Mode) (fields : RawRecord) (field : List UInt8) (place : Place) :
    List UInt8 → Found
  | [] =>
    if mode = .record then .exhausted none place
    else .exhausted (some (field.reverse :: fields).reverse) place
  | b :: rest =>
    match read mode b with
    | (mode, .skip) => scan mode fields field (place.after b) rest
    | (mode, .keep) => scan mode fields (b :: field) (place.after b) rest
    | (mode, .endField) => scan mode (field.reverse :: fields) [] (place.after b) rest
    | (_, .endRecord) => .record (field.reverse :: fields).reverse (place.after b) rest

/-- The next record, from the place where the one before it ended. -/
def next (place : Place) (bytes : List UInt8) : Found :=
  scan .record [] [] place bytes

/-- Reading a record uses up at least one byte. -/
theorem length_lt_of_scan {mode : Mode} {fields : RawRecord} {field : List UInt8}
    {place after : Place} {bytes rest : List UInt8} {found : RawRecord}
    (h : scan mode fields field place bytes = .record found after rest) :
  rest.length < bytes.length
  := by
  induction bytes generalizing mode fields field place with
  | nil =>
    unfold scan at h
    split at h
    · cases h
    · cases h
  | cons b bytes ih =>
    unfold scan at h
    split at h
    · exact Nat.lt_succ_of_lt (ih h)
    · exact Nat.lt_succ_of_lt (ih h)
    · exact Nat.lt_succ_of_lt (ih h)
    · cases h
      exact Nat.lt_succ_self _

/-- All records of a byte sequence, in order. -/
def records (place : Place) (bytes : List UInt8) : List RawRecord :=
  match _h : next place bytes with
  | .record fields place rest => fields :: records place rest
  | .exhausted (some fields) _ => [fields]
  | .exhausted none _ => []
termination_by bytes.length
decreasing_by exact length_lt_of_scan _h

end Reconciliation.Csv
