import Reconciliation.Proofs.Blank
import Reconciliation.Proofs.Csv
import Reconciliation.Statement.Reader

/-!
# Reading back statements

A statement that was written as comma-separated values is read back record by record: line `k` is
what the fields of record `k` describe, and after the last record comes the end
(`Reader.readings_text`).  It makes no difference that the reader strips the fields of all records
but the first before it reads them as text, since the blank characters around a field do not matter
afterwards (`Reader.reading_encode`).
-/

namespace Reconciliation

/-- What the fields of a line describe. -/
def Reading.ofFields (line : Nat) (fields : List String) : Reading :=
  match Line.transaction fields with
  | .ok t => .parsed t
  | .error flaw => .rejected (.malformedLine line flaw.message)

/-- No fields end the reading of a statement. -/
theorem Reading.goesOn_ofFields (line : Nat) (fields : List String) :
  (Reading.ofFields line fields).goesOn
  := by
  unfold Reading.ofFields
  split
  · rfl
  · rfl

namespace Reader

open Utf8 (encode)

/-! ### Fields -/

/-- Written fields are text. -/
theorem texts_encode (n : Nat) (fields : List (List Char)) :
  texts n (fields.map encode) = .ok (fields.map String.ofList)
  := by
  induction fields generalizing n with
  | nil => rfl
  | cons s fields ih =>
    rw [List.map_cons, texts, Utf8.decodeString_encode]
    dsimp only
    rw [ih]
    rfl

/-- Written fields are stripped as texts. -/
theorem strip_encode (fields : List (List Char)) :
  (fields.map encode).map (Text.stripBoth Text.isAsciiBlank)
    = (fields.map (Text.stripBoth Utf8.isAsciiBlankChar)).map encode
  := by
  rw [List.map_map, List.map_map]
  apply List.map_congr_left
  intro s _
  apply Utf8.stripBoth_encode

/-- Fields that are the same but for blank characters at their ends describe the same. -/
theorem transaction_strip (fields : List (List Char)) :
  Line.transaction ((fields.map (Text.stripBoth Utf8.isAsciiBlankChar)).map String.ofList)
    = Line.transaction (fields.map String.ofList)
  := by
  unfold Line.transaction
  congr 1
  simp only [List.map_map]
  apply List.map_congr_left
  intro s _
  apply Text.trim_stripBoth
  intro c
  apply Utf8.isBlank_of_isAsciiBlankChar

/-- A written record is read as what its fields describe. -/
theorem reading_encode (started : Bool) (line : Nat) (place : Csv.Place) (fields : List String) :
  reading started line place ((fields.map String.toList).map encode)
    = .ofFields line fields
  := by
  have hfields : (fields.map String.toList).map String.ofList = fields := by
    simp [Function.comp_def, String.ofList_toList]
  cases started with
  | false =>
    rw [reading, if_neg Bool.false_ne_true, texts_encode, hfields]
    rfl
  | true =>
    rw [reading, if_pos rfl, strip_encode, texts_encode]
    dsimp only
    rw [transaction_strip, hfields]
    rfl

/-! ### Statements -/

/-- After the end there is nothing but the end. -/
theorem calls_of_atEnd {r : Reader} (h : r.atEnd) (n : Nat) :
  r.calls n = List.replicate n (r.line, .finished)
  := by
  have hnext : r.next = (.finished, r) := by
    rw [next, if_pos h]
  induction n with
  | zero => rfl
  | succ n ih =>
    rw [calls, hnext]
    dsimp only
    rw [ih]
    rfl

variable {r : Reader}

theorem readings_of_goesOn {outcome : Reading} {after : Reader} (h : r.next = (outcome, after))
    (hgoes : outcome.goesOn) :
  r.readings = ((after.line, outcome) :: after.readings.1, after.readings.2)
  := by
  rw [readings, h]
  dsimp only
  rw [dif_pos hgoes]

theorem readings_of_finished {after : Reader} (h : r.next = (.finished, after)) :
  r.readings = ([(after.line, .finished)], after)
  := by
  rw [readings, h]
  apply dif_neg Bool.false_ne_true

/-- The reader stands before written records, with nothing after them. -/
structure IsBefore (r : Reader) (records : List (List String)) : Prop where
  rest : r.rest = encode (Csv.writeRecords (records.map (·.map String.toList)))
  ending : r.ending = .clean
  atEnd : r.atEnd = false

/-- At the end of the records the reader comes to the end. -/
theorem IsBefore.next_nil (h : r.IsBefore []) :
  ∃ after, r.next = (.finished, after) ∧ after.line = r.line ∧ after.atEnd
  := by
  have hrest : r.rest = [] := h.rest
  have hfound : Csv.next r.place [] = .exhausted none r.place := rfl
  refine ⟨r.exhaust r.place, ?_, rfl, rfl⟩
  rw [next, h.atEnd, if_neg Bool.false_ne_true, hrest, hfound, h.ending]

/-- One record is read, and the reader stands before the others. -/
theorem IsBefore.next_cons {fields : List String} {records : List (List String)}
    (h : r.IsBefore (fields :: records)) (hfields : fields ≠ []) :
  ∃ after, r.next = (.ofFields (r.line + 1) fields, after) ∧ after.line = r.line + 1 ∧
    after.IsBefore records
  := by
  have hrest := h.rest
  rw [List.map_cons, Csv.encode_writeRecords] at hrest
  have hne : fields.map String.toList ≠ [] := by simpa using hfields
  have hfound := Csv.next_encode hne r.place
    (encode (Csv.writeRecords (records.map (·.map String.toList))))
  rw [← hrest] at hfound
  refine ⟨r.advance (r.place.over (encode (Csv.writeLine (fields.map String.toList))))
    (encode (Csv.writeRecords (records.map (·.map String.toList)))), ?_, rfl,
    ⟨rfl, h.ending, h.atEnd⟩⟩
  rw [next, h.atEnd, if_neg Bool.false_ne_true, hfound]
  dsimp only
  rw [reading_encode]

/-- Written records are read back from where the reader stands. -/
theorem IsBefore.readings {records : List (List String)} (h : r.IsBefore records)
    (hne : ∀ fields ∈ records, fields ≠ []) :
  ∃ last : Reader, last.line = r.line + records.length ∧ last.atEnd ∧
    r.readings = (records.mapIdx (fun k fields =>
      (r.line + k + 1, .ofFields (r.line + k + 1) fields)) ++ [(last.line, .finished)], last)
  := by
  induction records generalizing r with
  | nil =>
    obtain ⟨after, hnext, hline, hend⟩ := h.next_nil
    refine ⟨after, hline, hend, ?_⟩
    rw [readings_of_finished hnext]
    rfl
  | cons fields records ih =>
    obtain ⟨after, hnext, hline, hbefore⟩ := h.next_cons (hne fields List.mem_cons_self)
    obtain ⟨last, hlast, hend, hlater⟩ :=
      ih hbefore fun fields' h' => hne fields' (List.mem_cons_of_mem fields h')
    refine ⟨last, ?_, hend, ?_⟩
    · rw [hlast, hline, List.length_cons]
      omega
    · have hshift : ∀ k, after.line + k + 1 = r.line + (k + 1) + 1 := by omega
      simp only [hshift] at hlater
      rw [readings_of_goesOn hnext (Reading.goesOn_ofFields _ _), hlater, hline, List.mapIdx_cons]
      rfl

/-- A text that does not begin with the byte order mark is read from its first byte on. -/
theorem isBefore_ofStatement {records : List (List String)}
    (hmark : (Csv.text records).toList.head? ≠ some '\uFEFF') :
  (ofStatement { bytes := Utf8.encodeString (Csv.text records) }).IsBefore records
  := by
  have hbytes : Utf8.encodeString (Csv.text records)
      = encode (Csv.writeRecords (records.map (·.map String.toList))) := by
    rw [Utf8.encodeString, Csv.text, String.toList_ofList]
  have hunmarked : byteOrderMark.isPrefixOf (Utf8.encodeString (Csv.text records)) = false := by
    rw [← Bool.not_eq_true, List.isPrefixOf_iff_prefix]
    intro (hbegins : String.utf8EncodeChar '\uFEFF' <+: encode (Csv.text records).toList)
    apply hmark
    apply Utf8.head?_of_prefix hbegins
  refine ⟨?_, rfl, rfl⟩
  rw [ofStatement, hunmarked, if_neg Bool.false_ne_true, hbytes]

/-- Reading a statement undoes writing it: line `k` is read as what the fields of record `k`
describe, then comes the end, and it stays the end. -/
theorem readings_text (records : List (List String)) (hne : ∀ fields ∈ records, fields ≠ [])
    (hmark : (Csv.text records).toList.head? ≠ some '\uFEFF') :
  ∃ last : Reader,
    (ofStatement { bytes := Utf8.encodeString (Csv.text records) }).readings
      = (records.mapIdx (fun k fields => (k + 1, .ofFields (k + 1) fields))
          ++ [(records.length, .finished)], last) ∧
    last.line = records.length ∧
    ∀ n, last.calls n = List.replicate n (records.length, .finished)
  := by
  obtain ⟨last, hline, hend, hreadings⟩ := (isBefore_ofStatement hmark).readings hne
  have hstart : (ofStatement { bytes := Utf8.encodeString (Csv.text records) }).line = 0 := rfl
  simp only [hstart, Nat.zero_add] at hline hreadings
  refine ⟨last, ?_, hline, ?_⟩
  · rw [hreadings, hline]
  · rw [← hline]
    apply calls_of_atEnd hend

/-- Records with all that has to be quoted, an empty only field, a record that looks blank, and one
that is a transaction in an unusual spelling. -/
def untidy : List (List String) :=
  [["a,b", "say \"hi\"", "two\r\nlines", ""], [""], ["7", " ann ", "credit", "+5", "Success", "rent"],
    [" "]]

/-- What the records of `untidy` describe, each with its line. -/
def untidyLines : List (Nat × Reading) :=
  [(1, .rejected (.malformedLine 1 "expected 6 fields, got 4")),
    (2, .rejected (.malformedLine 2 "expected 6 fields, got 1")),
    (3, .parsed
      { timestamp := 7, counterparty := "ann", direction := .credit, amount := 5,
        outcome := .success, description := "rent" }),
    (4, .rejected (.malformedLine 4 "expected 6 fields, got 1"))]

theorem readings_text_untidy :
  Csv.text untidy
    = "\"a,b\",\"say \"\"hi\"\"\",\"two\r\nlines\",\n\"\"\n7, ann ,credit,+5,Success,rent\n \n" ∧
  ∃ last : Reader,
    (ofStatement { bytes := Utf8.encodeString (Csv.text untidy) }).readings
      = (untidyLines ++ [(4, .finished)], last) ∧
    last.line = 4 ∧
    ∀ n, last.calls n = List.replicate n (4, .finished)
  := by
  have hlines : untidyLines = untidy.mapIdx (fun k fields => (k + 1, .ofFields (k + 1) fields)) := by
    decide +kernel
  rw [hlines]
  refine ⟨by decide +kernel, ?_⟩
  apply readings_text untidy
  · decide
  · decide +kernel

end Reader

end Reconciliation
