import Reconciliation.Csv.Reader
import Reconciliation.Fault
import Reconciliation.Statement.Line
import Reconciliation.Text.Utf8

/-!
# Reading statements

A `Statement` is a sequence of bytes and the way in which it ends.  `Reader.next` reads one
line after the other: a transaction, a line that is none, the end of the statement, or a
failure of the statement as a whole.  A line here is a record of comma-separated values; the
reader counts the lines that it has read, the one it failed on included.

The byte order mark is passed over at the very beginning.  Fields are stripped of ASCII
blanks before they are read as text, except in the first record, and of all blank characters
after that; the difference shows only in the position that the failure of a field that is no
text reports.
-/

namespace Reconciliation

/-- How the bytes of a statement end. -/
inductive Ending where
  /-- There is nothing after them. -/
  | clean
  /-- Reading on fails. -/
  | broken (message : String)
  /-- Reading on brings the reading task down. -/
  | panicking (message : String)
  deriving DecidableEq, Repr

/-- The source of a statement. -/
structure Statement where
  bytes : List UInt8
  ending : Ending := .clean
  deriving DecidableEq, Repr

/-- The outcome of reading one line. -/
inductive Reading where
  | parsed (transaction : Transaction)
  | rejected (fault : Fault)
  | finished
  | failed (fault : Fault)
  | panicked (message : String)
  deriving DecidableEq, Repr

/-- An outcome after which there may be further lines. -/
def Reading.goesOn : Reading → Bool
  | .parsed _ => true
  | .rejected _ => true
  | .finished => false
  | .failed _ => false
  | .panicked _ => false

/-- A statement that is being read. -/
structure Reader where
  rest : List UInt8
  ending : Ending
  place : Csv.Place
  /-- The number of lines read. -/
  line : Nat
  /-- The first record was read. -/
  started : Bool
  /-- The end was reached. -/
  atEnd : Bool
  deriving DecidableEq, Repr

namespace Reader

/-- The byte order mark. -/
def byteOrderMark : List UInt8 := [0xEF, 0xBB, 0xBF]

/-- The reader at the beginning of a statement. -/
def ofStatement (s : Statement) : Reader :=
  let marked := byteOrderMark.isPrefixOf s.bytes
  { rest := if marked then s.bytes.drop 3 else s.bytes
    ending := s.ending
    place := { line := 1, byte := if marked then 3 else 0 }
    line := 0
    started := false
    atEnd := false }

/-- There is no more to read than the bytes of the statement. -/
theorem length_rest_ofStatement (s : Statement) :
  (ofStatement s).rest.length ≤ s.bytes.length
  := by
  rw [ofStatement]
  dsimp only
  split
  · rw [List.length_drop]
    exact Nat.sub_le _ _
  · exact Nat.le_refl _

/-- The texts of raw fields, or the number of the first field that is none, from 1, and the
number of its bytes that are text. -/
def texts (n : Nat) : Csv.RawRecord → Except (Nat × Nat) (List String)
  | [] => .ok []
  | field :: fields =>
    match Utf8.decodeString field with
    | .error valid => .error (n, valid)
    | .ok text => (texts (n + 1) fields).map (text :: ·)

/-- The wording of the failure of a record that is no text: the number of records before it,
the place where reading it began, and the field. -/
def notText (record : Nat) (place : Csv.Place) (field valid : Nat) : String :=
  "CSV parse error: record " ++ record.repr ++ " (line " ++ place.line.repr ++ ", field: " ++
    field.repr ++ ", byte: " ++ place.byte.repr ++ "): invalid utf-8: invalid UTF-8 in field " ++
    field.repr ++ " near byte index " ++ valid.repr

/-- The outcome of reading a record as line `line`, which began at `place`. -/
def reading (started : Bool) (line : Nat) (place : Csv.Place) (record : Csv.RawRecord) :
    Reading :=
  let fields := if started then record.map (Text.stripBoth Text.isAsciiBlank) else record
  match texts 1 fields with
  | .error (field, valid) =>
    .failed (.unreadable (some line) (notText (line - 1) place field valid))
  | .ok fields =>
    match Line.transaction fields with
    | .ok t => .parsed t
    | .error flaw => .rejected (.malformedLine line flaw.message)

/-- The reader after the record that ended at `place`. -/
def advance (r : Reader) (place : Csv.Place) (rest : List UInt8) : Reader :=
  { r with rest, place, line := r.line + 1, started := true }

/-- The reader once its bytes are used up. -/
def exhaust (r : Reader) (place : Csv.Place) : Reader :=
  { r with rest := [], place, atEnd := true }

/-- Reading one line. -/
def next (r : Reader) : Reading × Reader :=
  if r.atEnd then (.finished, r)
  else
    match Csv.next r.place r.rest with
    | .record fields place rest =>
      (reading r.started (r.line + 1) r.place fields, r.advance place rest)
    | .exhausted begun place =>
      match r.ending, begun with
      | .clean, none => (.finished, r.exhaust place)
      | .clean, some fields =>
        (reading r.started (r.line + 1) r.place fields, r.advance place [])
      | .broken m, _ =>
        (.failed (.unreadable (some (r.line + 1)) m),
          { r.exhaust place with line := r.line + 1 })
      | .panicking m, _ => (.panicked m, r.exhaust place)

/-- A line that leaves more to read uses up at least one byte. -/
theorem length_rest_lt {r : Reader} (h : r.next.1.goesOn) :
  r.next.2.rest.length < r.rest.length
  := by
  unfold next at h ⊢
  by_cases hend : r.atEnd
  · simp [hend, Reading.goesOn] at h
  · simp only [hend, Bool.false_eq_true, if_false] at h ⊢
    cases hnext : Csv.next r.place r.rest with
    | record fields place rest =>
      exact Csv.length_lt_of_scan hnext
    | exhausted begun place =>
      rw [hnext] at h
      have hpos : begun ≠ none → 0 < r.rest.length := by
        intro hbegun
        refine List.length_pos_iff.2 fun hnil => hbegun ?_
        rw [hnil] at hnext
        exact (Csv.Found.exhausted.inj hnext).1.symm
      cases hending : r.ending <;> cases begun <;>
        simp_all [Reading.goesOn, advance]

/-- The outcomes of reading lines up to the first that ends the reading, each with the number
of lines read by then, and the reader after them. -/
def readings (r : Reader) : List (Nat × Reading) × Reader :=
  let step := r.next
  if _h : step.1.goesOn then
    let (later, last) := step.2.readings
    ((step.2.line, step.1) :: later, last)
  else ([(step.2.line, step.1)], step.2)
termination_by r.rest.length
decreasing_by exact length_rest_lt _h

/-- The outcomes of `n` further calls. -/
def calls (r : Reader) : Nat → List (Nat × Reading)
  | 0 => []
  | n + 1 =>
    let step := r.next
    (step.2.line, step.1) :: step.2.calls n

end Reader

end Reconciliation
