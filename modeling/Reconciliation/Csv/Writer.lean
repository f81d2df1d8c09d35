/-!
# Writing comma-separated values

`Csv.writeRecords` writes records of fields, one record to a line.  A field is quoted only
where it has to be: when it holds a comma, a quote or a line break, or when it is the empty
only field of its record.  Inside quotes a quote is written twice.
-/

namespace Reconciliation.Csv

/-- The characters that a field cannot hold outside quotes. -/
def isSpecial (c : Char) : Bool :=
  c == ',' || c == '"' || c == '\r' || c == '\n'

/-- The field with each quote written twice. -/
def doubleQuotes : List Char → List Char
  | [] => []
  | c :: rest => if c = '"' then '"' :: '"' :: doubleQuotes rest else c :: doubleQuotes rest

/-- The field between quotes. -/
def quoted (field : List Char) : List Char :=
  '"' :: doubleQuotes field ++ ['"']

/-- The written form of a field. -/
def writeField (field : List Char) : List Char :=
  if field.any isSpecial then quoted field else field

/-- The written form of a record, without the line break. -/
def writeFields : List (List Char) → List Char
  | [] => quoted []
  | [[]] => quoted []
  | fields => [','].intercalate (fields.map writeField)

/-- The written form of records, one to a line. -/
def writeRecords (records : List (List (List Char))) : List Char :=
  records.flatMap (fun r => writeFields r ++ ['\n'])

/-- The text of records whose fields are strings. -/
def text (records : List (List String)) : String :=
  String.ofList (writeRecords (records.map (·.map String.toList)))

end Reconciliation.Csv
