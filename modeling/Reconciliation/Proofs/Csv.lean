import Reconciliation.Csv.Reader
import Reconciliation.Csv.Writer
import Reconciliation.Proofs.Utf8

/-!
# Reading back comma-separated values

What `Csv.writeRecords` writes, `Csv.records` reads back: each record with its fields, one after
the other (`Csv.records_encode`).  A field that is written as it stands holds no byte at which the
reader would stop, and within quotes only a quote matters, which is doubled.
-/

namespace Reconciliation.Csv

variable {mode : Mode} {fields : RawRecord} {field : List UInt8} {place : Place}

open Utf8 (encode)

/-! ### Places -/

/-- The place after some more bytes. -/
def Place.over (place : Place) (bytes : List UInt8) : Place :=
  bytes.foldl Place.after place

theorem Place.over_append (place : Place) (bytes more : List UInt8) :
  place.over (bytes ++ more) = (place.over bytes).over more
  := List.foldl_append

theorem Place.over_cons (place : Place) (b : UInt8) (bytes : List UInt8) :
  place.over (b :: bytes) = (place.after b).over bytes
  := rfl

/-! ### Bytes -/

/-- The spelling of another character does not hold the byte of an ASCII character. -/
theorem notMem_encodeChar {c d : Char} (h : c ≠ d) {b : UInt8} (hd : d.toNat = b.toNat)
    (hlow : b.toNat < 0x80) :
  b ∉ String.utf8EncodeChar c
  := by
  intro hb
  apply h
  apply Char.toNat_inj.1
  rw [hd, (Utf8.encodeChar_of_mem hb hlow).1]

/-- A byte that structures no text. -/
def IsPlain (b : UInt8) : Prop :=
  b ≠ comma ∧ b ≠ quote ∧ endsRecord b = false

theorem isPlain_of_mem {c : Char} (h : isSpecial c = false) {b : UInt8}
    (hb : b ∈ String.utf8EncodeChar c) :
  IsPlain b
  := by
  simp only [isSpecial, Bool.or_eq_false_iff, beq_eq_false_iff_ne] at h
  obtain ⟨⟨⟨hcomma, hquote⟩, hreturn⟩, hfeed⟩ := h
  refine ⟨?_, ?_, ?_⟩
  · rintro rfl
    exact notMem_encodeChar hcomma rfl (by decide) hb
  · rintro rfl
    exact notMem_encodeChar hquote rfl (by decide) hb
  · rw [endsRecord, Bool.or_eq_false_iff, beq_eq_false_iff_ne, beq_eq_false_iff_ne]
    constructor
    · rintro rfl
      exact notMem_encodeChar hfeed rfl (by decide) hb
    · rintro rfl
      exact notMem_encodeChar hreturn rfl (by decide) hb

theorem IsPlain.readPlain {b : UInt8} (h : IsPlain b) :
  readPlain b = (.plain, .keep)
  := by
  obtain ⟨hcomma, -, hends⟩ := h
  simp [Csv.readPlain, hcomma, hends]

theorem IsPlain.readFirst {b : UInt8} (h : IsPlain b) :
  readFirst b = (.plain, .keep)
  := by
  rw [Csv.readFirst, if_neg (by simpa using h.2.1), h.readPlain]

/-- The reader stands before the first byte of a field. -/
def Mode.IsFresh (mode : Mode) : Prop :=
  mode = .record ∨ mode = .field

/-- A field begins with any byte that structures no text. -/
theorem IsPlain.read_fresh {b : UInt8} (h : IsPlain b) (hmode : mode.IsFresh) :
  read mode b = (.plain, .keep)
  := by
  rcases hmode with rfl | rfl
  · rw [read, if_neg (by simp [h.2.2]), h.readFirst]
  · apply h.readFirst

theorem read_fresh_quote (hmode : mode.IsFresh) :
  read mode quote = (.quoted, .skip)
  := by
  rcases hmode with rfl | rfl
  · rfl
  · rfl

/-! ### Fields -/

theorem scan_skip {next : Mode} {b : UInt8} (h : read mode b = (next, .skip))
    (rest : List UInt8) :
  scan mode fields field place (b :: rest) = scan next fields field (place.after b) rest
  := by
  rw [scan, h]

theorem scan_keep {next : Mode} {b : UInt8} (h : read mode b = (next, .keep))
    (rest : List UInt8) :
  scan mode fields field place (b :: rest) = scan next fields (b :: field) (place.after b) rest
  := by
  rw [scan, h]

/-- Bytes that are kept one after the other. -/
theorem scan_keeps {bytes : List UInt8} (h : ∀ b ∈ bytes, read mode b = (mode, .keep))
    (rest : List UInt8) :
  scan mode fields field place (bytes ++ rest)
    = scan mode fields (bytes.reverse ++ field) (place.over bytes) rest
  := by
  induction bytes generalizing field place with
  | nil => rfl
  | cons b bytes ih =>
    rw [List.cons_append, scan_keep (h b List.mem_cons_self),
      ih (fun b' hb' => h b' (List.mem_cons_of_mem b hb')), List.reverse_cons, List.append_assoc,
      Place.over_cons]
    rfl

/-- Between quotes a quote that is written twice is read once, and all else as it stands. -/
theorem scan_doubleQuotes (s : List Char) (rest : List UInt8) :
  scan .quoted fields field place (encode (doubleQuotes s) ++ rest)
    = scan .quoted fields ((encode s).reverse ++ field) (place.over (encode (doubleQuotes s))) rest
  := by
  induction s generalizing field place with
  | nil => rfl
  | cons c s ih =>
    rw [doubleQuotes]
    split_ifs with hc
    · subst hc
      have hspelling : encode ('"' :: '"' :: doubleQuotes s)
          = quote :: quote :: encode (doubleQuotes s) := rfl
      rw [hspelling, List.cons_append, List.cons_append,
        scan_skip (show read .quoted quote = (.closing, .skip) from rfl),
        scan_keep (show read .closing quote = (.quoted, .keep) from rfl), ih, Utf8.encode_cons,
        List.reverse_append, List.append_assoc]
      rfl
    · have hkeep : ∀ b ∈ String.utf8EncodeChar c, read .quoted b = (.quoted, .keep) := by
        intro b hb
        have hquote : b ≠ quote := by
          rintro rfl
          exact notMem_encodeChar hc rfl (by decide) hb
        simp [read, hquote]
      rw [Utf8.encode_cons, List.append_assoc, scan_keeps hkeep, ih, Utf8.encode_cons,
        List.reverse_append, List.append_assoc, Place.over_append]

/-- The reader has come to the end of a written field. -/
inductive Mode.IsPast (mode : Mode) (s : List Char) : Mode → Prop where
  | plain : IsPast mode s .plain
  | closing : IsPast mode s .closing
  | empty (h : s = []) : IsPast mode s mode

/-- A written field is read as it was before. -/
theorem scan_writeField (hmode : mode.IsFresh) (s : List Char) (rest : List UInt8) :
  ∃ next, mode.IsPast s next ∧
    scan mode fields [] place (encode (writeField s) ++ rest)
      = scan next fields (encode s).reverse (place.over (encode (writeField s))) rest
  := by
  rw [writeField]
  split_ifs with hspecial
  · refine ⟨_, .closing, ?_⟩
    have hspelling : encode (quoted s) = quote :: (encode (doubleQuotes s) ++ [quote]) := by
      rw [quoted, List.cons_append, Utf8.encode_cons, Utf8.encode_append]
      rfl
    rw [hspelling, List.cons_append, List.append_assoc, scan_skip (read_fresh_quote hmode),
      scan_doubleQuotes, List.append_nil, List.singleton_append,
      scan_skip (show read .quoted quote = (.closing, .skip) from rfl), Place.over_cons,
      Place.over_append]
    rfl
  · cases hbytes : encode s with
    | nil =>
      have hs : s = [] := by
        rw [← List.length_eq_zero_iff]
        by_contra hne
        obtain ⟨c, s, rfl⟩ := List.exists_cons_of_ne_nil (by simpa using hne)
        rw [Utf8.encode_cons, List.append_eq_nil_iff] at hbytes
        exact String.utf8EncodeChar_ne_nil hbytes.1
      exact ⟨mode, .empty hs, rfl⟩
    | cons b bytes =>
      have hplain : ∀ b' ∈ b :: bytes, IsPlain b' := by
        intro b' hb'
        rw [← hbytes] at hb'
        obtain ⟨c, hc, hmem⟩ := List.mem_flatMap.1 hb'
        apply isPlain_of_mem _ hmem
        simpa using fun h => hspecial (List.any_eq_true.2 ⟨c, hc, h⟩)
      have hkeep : ∀ b' ∈ bytes, read .plain b' = (.plain, .keep) := fun b' hb' =>
        (hplain b' (List.mem_cons_of_mem b hb')).readPlain
      refine ⟨_, .plain, ?_⟩
      rw [List.cons_append, scan_keep ((hplain b List.mem_cons_self).read_fresh hmode),
        scan_keeps hkeep, List.reverse_cons]
      rfl

/-- A comma ends a field. -/
theorem scan_comma (hmode : mode.IsFresh) {s : List Char} {next : Mode} (h : mode.IsPast s next)
    (rest : List UInt8) :
  scan next fields field place (comma :: rest)
    = scan .field (field.reverse :: fields) [] (place.after comma) rest
  := by
  have hread : read next comma = (.field, .endField) := by
    cases h with
    | plain | closing => rfl
    | empty => rcases hmode with rfl | rfl <;> rfl
  rw [scan, hread]

/-- A line feed ends a record, unless nothing of it has been read. -/
theorem scan_lineFeed (hmode : mode.IsFresh) {s : List Char} {next : Mode}
    (h : mode.IsPast s next) (hblank : mode = .record → s ≠ []) (rest : List UInt8) :
  scan next fields field place (lineFeed :: rest)
    = .record (field.reverse :: fields).reverse (place.after lineFeed) rest
  := by
  have hread : read next lineFeed = (.record, .endRecord) := by
    cases h with
    | plain | closing => rfl
    | empty hs =>
      rcases hmode with rfl | rfl
      · exact absurd hs (hblank rfl)
      · rfl
  rw [scan, hread]

/-! ### Records -/

/-- The fields between commas are read one after the other. -/
theorem scan_fields {written : List (List Char)} (hmode : mode.IsFresh) (hne : written ≠ [])
    (hblank : mode = .record → written ≠ [[]]) (rest : List UInt8) :
  scan mode fields [] place
      (encode ([','].intercalate (written.map writeField)) ++ lineFeed :: rest)
    = .record (fields.reverse ++ written.map encode)
        (place.over (encode ([','].intercalate (written.map writeField)) ++ [lineFeed])) rest
  := by
  induction written generalizing mode fields place with
  | nil => exact absurd rfl hne
  | cons s more ih =>
    cases more with
    | nil =>
      have hsingle : [','].intercalate ([s].map writeField) = writeField s := by simp
      rw [hsingle]
      obtain ⟨next, hpast, hscan⟩ := scan_writeField hmode s (lineFeed :: rest)
      rw [hscan, scan_lineFeed hmode hpast fun h hs => hblank h (by rw [hs]), Place.over_append,
        List.reverse_reverse, List.reverse_cons]
      rfl
    | cons t more =>
      have hcons : [','].intercalate ((s :: t :: more).map writeField)
          = writeField s ++ ',' :: [','].intercalate ((t :: more).map writeField) := by
        simp [List.intercalate]
      have hcomma : encode (',' :: [','].intercalate ((t :: more).map writeField))
          = comma :: encode ([','].intercalate ((t :: more).map writeField)) := rfl
      rw [hcons, Utf8.encode_append, hcomma, List.append_assoc, List.cons_append]
      obtain ⟨next, hpast, hscan⟩ := scan_writeField hmode s
        (comma :: (encode ([','].intercalate ((t :: more).map writeField)) ++ lineFeed :: rest))
      rw [hscan, scan_comma hmode hpast, ih (.inr rfl) (List.cons_ne_nil t more) nofun,
        List.reverse_reverse, List.reverse_cons, List.append_assoc, List.append_assoc,
        Place.over_append _ (encode (writeField s))]
      rfl

/-- A record and its line break. -/
def writeLine (r : List (List Char)) : List Char :=
  writeFields r ++ ['\n']

theorem encode_writeLine (r : List (List Char)) :
  encode (writeLine r) = encode (writeFields r) ++ [lineFeed]
  := Utf8.encode_append _ _

/-- A written record is read as it was before. -/
theorem next_encode {r : List (List Char)} (hr : r ≠ []) (place : Place) (rest : List UInt8) :
  next place (encode (writeLine r) ++ rest)
    = .record (r.map encode) (place.over (encode (writeLine r))) rest
  := by
  rw [encode_writeLine, List.append_assoc, List.singleton_append]
  by_cases hempty : r = [[]]
  · rw [hempty]
    rfl
  · have hwrite : writeFields r = [','].intercalate (r.map writeField) := by
      unfold writeFields
      split
      · exact absurd rfl hr
      · exact absurd rfl hempty
      · rfl
    rw [next, hwrite, scan_fields (.inl rfl) hr fun _ => hempty]
    rfl

theorem encode_writeRecords (r : List (List Char)) (records : List (List (List Char))) :
  encode (writeRecords (r :: records)) = encode (writeLine r) ++ encode (writeRecords records)
  := Utf8.encode_append _ _

/-- Written records are read as they were before. -/
theorem records_encode {written : List (List (List Char))} (h : ∀ r ∈ written, r ≠ [])
    (place : Place) :
  records place (encode (writeRecords written)) = written.map (·.map encode)
  := by
  induction written generalizing place with
  | nil =>
    rw [records]
    rfl
  | cons r written ih =>
    have hnext := next_encode (h r List.mem_cons_self) place (encode (writeRecords written))
    rw [← encode_writeRecords] at hnext
    rw [records]
    split
    · next hrecord =>
      cases hrecord.symm.trans hnext
      rw [ih fun r' hr' => h r' (List.mem_cons_of_mem r hr')]
      rfl
    · next hexhausted => cases hexhausted.symm.trans hnext
    · next hexhausted => cases hexhausted.symm.trans hnext

end Reconciliation.Csv
