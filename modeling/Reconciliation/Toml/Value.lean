import Reconciliation.Keyed

/-!
# Values and tables

A TOML document is a table of values.  A table grows entry by entry and header by header, and
remembers of every table in it how it came about, since that decides who may still add to it:
`Table.insert?` adds an entry with a dotted key, `Table.openHeader?` and `Table.openSeries?`
begin the tables that headers name.
-/

namespace Reconciliation.Toml

/-- How a table came about. -/
inductive Origin where
  /-- A header names it. -/
  | header
  /-- A header names a table inside it. -/
  | implied
  /-- A dotted key leads through it. -/
  | dotted
  deriving DecidableEq, Repr

/-- The values of a document. -/
inductive Value where
  | integer (n : Int)
  | text (s : String)
  | boolean (b : Bool)
  /-- A number that is no integer. -/
  | real (spelling : String)
  /-- A date, a time of day, or both. -/
  | moment (spelling : String)
  | array (items : List Value)
  /-- A table that is written in one piece, and complete. -/
  | inline (entries : List (String × Value))
  | table (origin : Origin) (entries : List (String × Value))
  /-- The tables of headers with double brackets, all of one name. -/
  | series (tables : List (List (String × Value)))
  deriving Repr

/-- Values by key. -/
abbrev Table := Keyed String Value

namespace Table

/-- The table with the value of a key replaced. -/
def put (t : Table) (k : String) (v : Value) : Table :=
  t.modify k (fun _ => v)

/-- The table with one more entry, whose key is given by its parts.  The tables on the way
are made if they are not there; the last one has to be of dotted keys' making. -/
def insert? (t : Table) : List String → Value → Option Table
  | [], _ => none
  | [k], v => if (t.get? k).isNone then some (t.add k v) else none
  | k :: path, v =>
    match t.get? k with
    | none => (insert? [] path v).map fun es => t.add k (.table .dotted es)
    | some (.table .dotted es) => (insert? es path v).map fun es => t.put k (.table .dotted es)
    | some (.table .implied es) =>
      if path.length = 1 then none
      else (insert? es path v).map fun es => t.put k (.table .implied es)
    | some _ => none

/-- The table with a change of the table to which the parts of a header lead; tables on the
way are made if they are not there. -/
def descend? (t : Table) (change : Table → Option Table) : List String → Option Table
  | [] => change t
  | k :: path =>
    match t.get? k with
    | none => (descend? [] change path).map fun es => t.add k (.table .implied es)
    | some (.table origin es) => (descend? es change path).map fun es => t.put k (.table origin es)
    | some (.series tables) =>
      match tables.getLast? with
      | none => none
      | some es =>
        (descend? es change path).map fun es => t.put k (.series (tables.dropLast ++ [es]))
    | some _ => none

/-- The table with the table of a header begun.  It must be new, or only implied so far. -/
def begin? (t : Table) (k : String) : Option Table :=
  match t.get? k with
  | none => some (t.add k (.table .header []))
  | some (.table .implied es) => some (t.put k (.table .header es))
  | some _ => none

/-- The table with one more table of a series begun. -/
def extend? (t : Table) (k : String) : Option Table :=
  match t.get? k with
  | none => some (t.add k (.series [[]]))
  | some (.series tables) => some (t.put k (.series (tables ++ [[]])))
  | some _ => none

/-- The table with the table begun that a header names by its parts. -/
def openHeader? (t : Table) (path : List String) : Option Table :=
  match path.getLast? with
  | none => none
  | some k => t.descend? (·.begin? k) path.dropLast

/-- The table with one more table begun in the series that a header names by its parts. -/
def openSeries? (t : Table) (path : List String) : Option Table :=
  match path.getLast? with
  | none => none
  | some k => t.descend? (·.extend? k) path.dropLast

end Table

end Reconciliation.Toml
