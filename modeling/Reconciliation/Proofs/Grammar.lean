import Mathlib
import Reconciliation.Proofs.Decoding
import Reconciliation.Proofs.Lines

/-!
# The grammar of lines

`Numeral.Spells` is the grammar of numerals, and `Line.Describes` says which transaction six fields
describe: with the blank characters around them left out, the fields are numerals that fit into a
word and names in any ASCII case.  A line is accepted exactly if its fields describe a transaction,
which is if they pass every `Line.Check`; and otherwise it is rejected for the first check that they
do not pass (`Reading.ofFields_of_checks`).
-/

namespace Reconciliation

/-! ### Numerals -/

namespace Numeral

/-- One or more ASCII digits. -/
structure IsDigits (s : List Char) : Prop where
  ne_nil : s ≠ []
  isDigit : ∀ c ∈ s, c.isDigit

/-- The characters are an optional sign and the decimal digits of an integer. -/
inductive Spells : List Char → Int → Prop where
  | unsigned {digits : List Char} (h : IsDigits digits) :
    Spells digits (Nat.ofDigitChars 10 digits 0)
  | plus {digits : List Char} (h : IsDigits digits) :
    Spells ('+' :: digits) (Nat.ofDigitChars 10 digits 0)
  | minus {digits : List Char} (h : IsDigits digits) :
    Spells ('-' :: digits) (-Nat.ofDigitChars 10 digits 0)

variable {lo hi v : Int} {s digits : List Char}

/-- Digits after a plus sign are read from zero upwards. -/
theorem read_plus (hne : digits ≠ []) :
  read lo hi ('+' :: digits) = readDigits lo hi false 0 digits
  := by
  cases digits with
  | nil => exact absurd rfl hne
  | cons c digits => rfl

/-- What digits are read as from zero on. -/
theorem readDigits_zero_eq_ok (negative : Bool) (hlo : lo < 0) (hhi : 0 ≤ hi) :
  readDigits lo hi negative 0 digits = .ok v ↔
    (∀ c ∈ digits, c.isDigit) ∧ v = signed negative (digitsValue 0 digits) ∧ lo ≤ v ∧ v ≤ hi
  := by
  have hzero : signed negative 0 = 0 := by
    cases negative with
    | false | true => rfl
  have hrange : lo ≤ signed negative 0 ∧ signed negative 0 ≤ hi := by
    rw [hzero]
    exact ⟨Int.le_of_lt hlo, hhi⟩
  rw [← readDigits_eq_ok negative 0 (Int.le_of_lt hlo) hhi hrange, hzero]

/-- What is read is a numeral. -/
theorem spells_of_read (hlo : lo < 0) (hhi : 0 ≤ hi) (h : read lo hi s = .ok v) :
  Spells s v ∧ lo ≤ v ∧ v ≤ hi
  := by
  unfold read at h
  -- Neither nothing nor a sign alone is read.
  split at h
  · cases h
  · cases h
  · cases h
  · next digits hne =>
    obtain ⟨hdigits, rfl, hv⟩ := (readDigits_zero_eq_ok false hlo hhi).1 h
    exact ⟨.plus ⟨hne, hdigits⟩, hv⟩
  · next digits hne =>
    rw [if_pos hlo] at h
    obtain ⟨hdigits, rfl, hv⟩ := (readDigits_zero_eq_ok true hlo hhi).1 h
    exact ⟨.minus ⟨hne, hdigits⟩, hv⟩
  · next hne _ _ _ _ =>
    obtain ⟨hdigits, rfl, hv⟩ := (readDigits_zero_eq_ok false hlo hhi).1 h
    exact ⟨.unsigned ⟨hne, hdigits⟩, hv⟩

/-- Exactly the numerals of the integers in the range are read. -/
theorem read_eq_ok (hlo : lo < 0) (hhi : 0 ≤ hi) :
  read lo hi s = .ok v ↔ Spells s v ∧ lo ≤ v ∧ v ≤ hi
  := by
  constructor
  · apply spells_of_read hlo hhi
  · rintro ⟨hspells, hv⟩
    cases hspells with
    | unsigned h =>
      rw [read_of_isDigit h.isDigit h.ne_nil]
      exact (readDigits_zero_eq_ok false hlo hhi).2 ⟨h.isDigit, rfl, hv⟩
    | plus h =>
      rw [read_plus h.ne_nil]
      exact (readDigits_zero_eq_ok false hlo hhi).2 ⟨h.isDigit, rfl, hv⟩
    | minus h =>
      rw [read_minus hlo h.ne_nil]
      exact (readDigits_zero_eq_ok true hlo hhi).2 ⟨h.isDigit, rfl, hv⟩

/-- Exactly the numerals of signed 64-bit words are read as such. -/
theorem readInt64_eq_ok {s : String} {n : Int64} :
  readInt64 s = .ok n ↔ Spells s.toList n.toInt
  := by
  have hleast := n.le_toInt
  have hmost := n.toInt_lt
  constructor
  · intro h
    rw [readInt64] at h
    cases hread : read (-0x8000000000000000) 0x7FFFFFFFFFFFFFFF s.toList with
    | error flaw =>
      rw [hread] at h
      cases h
    | ok v =>
      rw [hread] at h
      obtain rfl := Except.ok.inj h
      obtain ⟨hspells, hlo, hhi⟩ := (read_eq_ok (by decide) (by decide)).1 hread
      rw [Int64.toInt_ofInt_of_le hlo (Int.lt_of_le_sub_one hhi)]
      exact hspells
  · intro h
    rw [readInt64, (read_eq_ok (by decide) (by decide)).2 ⟨h, by omega, by omega⟩]
    show Except.ok (Int64.ofInt n.toInt) = _
    rw [Int64.ofInt_toInt]

end Numeral

/-! ### Names -/

/-- Two texts have the same capitals if they have the same small letters. -/
theorem Text.toUpper_eq_iff {s name : String} (hname : name.toUpper = name) :
  s.toUpper = name ↔ s.toLower = name.toLower
  := by
  have hlower : ∀ t : String, t.toUpper.toLower = t.toLower := by
    intro t
    rw [String.toLower, String.toUpper, String.map_map]
    congr 1
    funext c
    apply Char.toLower_toUpper_eq_toLower
  have hupper : ∀ t : String, t.toLower.toUpper = t.toUpper := by
    intro t
    rw [String.toLower, String.toUpper, String.map_map]
    congr 1
    funext c
    apply Char.toUpper_toLower_eq_toUpper
  constructor
  · intro h
    rw [← h, hlower]
  · intro h
    rw [← hupper, h, hupper, hname]

/-- A name in capitals is found by every text with the same letters. -/
theorem Text.find?_eq_some {α : Type} {all : List α} {name : α → String} {a : α} {s : String}
    (hname : (name a).toUpper = name a) (hfind : all.find? (fun b => name b == name a) = some a) :
  all.find? (fun b => name b == s.toUpper) = some a ↔ s.toLower = (name a).toLower
  := by
  rw [← Text.toUpper_eq_iff hname]
  constructor
  · intro h
    have hfound := List.find?_some h
    rw [beq_iff_eq] at hfound
    exact hfound.symm
  · intro h
    rw [h, hfind]

theorem Direction.ofName?_eq_some {s : String} {d : Direction} :
  Direction.ofName? s = some d ↔ s.toLower = d.name.toLower
  := by
  apply Text.find?_eq_some
  · cases d with
    | credit | debit => decide +kernel
  · cases d with
    | credit | debit => decide +kernel

theorem Outcome.ofName?_eq_some {s : String} {o : Outcome} :
  Outcome.ofName? s = some o ↔ s.toLower = o.name.toLower
  := by
  apply Text.find?_eq_some
  · cases o with
    | success | failed | pending => decide +kernel
  · cases o with
    | success | failed | pending => decide +kernel

/-! ### Fields -/

namespace Line

variable {field : String} {fields : List String} {t : Transaction}

theorem timestamp_eq_ok {n : Int64} :
  timestamp field = .ok n ↔ Numeral.Spells field.toList n.toInt
  := by
  rw [← Numeral.readInt64_eq_ok, timestamp]
  cases Numeral.readInt64 field with
  | error flaw => simp [Except.mapError]
  | ok m => rw [Except.mapError, Except.ok.injEq, Except.ok.injEq]

theorem direction_eq_ok {d : Direction} :
  direction field = .ok d ↔ field.toLower = d.name.toLower
  := by
  rw [← Direction.ofName?_eq_some, direction]
  cases Direction.ofName? field with
  | none => simp
  | some d' => simp

theorem outcome_eq_ok {o : Outcome} :
  outcome field = .ok o ↔ field.toLower = o.name.toLower
  := by
  rw [← Outcome.ofName?_eq_some, outcome]
  cases Outcome.ofName? field with
  | none => simp
  | some o' => simp

theorem amount_eq_ok_iff {a : Amount} :
  amount field = .ok a ↔ Numeral.Spells field.toList a.toInt ∧ 0 ≤ a.toInt
  := by
  rw [amount_eq_ok, Numeral.readInt64_eq_ok, Int64.le_iff_toInt_le, Int64.toInt_zero]

/-- With the blank characters around them left out, the six fields are a numeral, any text, the name
of a direction, a numeral that is not negative, the name of an outcome, and any text. -/
def Describes (fields : List String) (t : Transaction) : Prop :=
  ∃ f₀ f₂ f₃ f₄,
    List.Forall₂ Text.Trims fields [f₀, t.counterparty, f₂, f₃, f₄, t.description] ∧
    Numeral.Spells f₀.toList t.timestamp.toInt ∧
    f₂.toLower = t.direction.name.toLower ∧
    (Numeral.Spells f₃.toList t.amount.toInt ∧ 0 ≤ t.amount.toInt) ∧
    f₄.toLower = t.outcome.name.toLower

theorem forall₂_trims {cores : List String} :
  List.Forall₂ Text.Trims fields cores ↔ fields.map Text.trim = cores
  := by
  have htrims : Text.Trims = fun s core => Text.trim s = core := by
    funext s core
    rw [Text.trims_iff]
  rw [htrims, ← List.forall₂_map_left_iff (f := Text.trim), List.forall₂_eq_eq_eq]

/-- The lines that are accepted are those that describe a transaction. -/
theorem transaction_eq_ok :
  transaction fields = .ok t ↔ Describes fields t
  := by
  simp only [transaction, ofFields_eq_ok, Describes, forall₂_trims, timestamp_eq_ok,
    direction_eq_ok, amount_eq_ok_iff, outcome_eq_ok]

/-! ### Checks -/

/-- The checks of a line, in the order in which they are made. -/
inductive Check where
  | fieldCount
  | timestamp
  | direction
  | amount
  | outcome
  deriving DecidableEq, Repr

/-- There is a field at position `i`, and without the blank characters around it it is as it should
be. -/
def Holds (fields : List String) (i : Nat) (P : String → Prop) : Prop :=
  ∃ field core, fields[i]? = some field ∧ Text.Trims field core ∧ P core

/-- What a check asks of the fields. -/
def Check.Passes (fields : List String) : Check → Prop
  | .fieldCount => fields.length = 6
  | .timestamp => Holds fields 0 fun f => ∃ n : Int64, Numeral.Spells f.toList n.toInt
  | .direction => Holds fields 2 fun f => ∃ d : Direction, f.toLower = d.name.toLower
  | .amount => Holds fields 3 fun f => ∃ n : Int64, Numeral.Spells f.toList n.toInt ∧ 0 ≤ n.toInt
  | .outcome => Holds fields 4 fun f => ∃ o : Outcome, f.toLower = o.name.toLower

/-- The checks that are made before a check. -/
def Check.earlier : Check → List Check
  | .fieldCount => []
  | .timestamp => [.fieldCount]
  | .direction => [.fieldCount, .timestamp]
  | .amount => [.fieldCount, .timestamp, .direction]
  | .outcome => [.fieldCount, .timestamp, .direction, .amount]

/-- The fields pass all checks before this one, and not this one. -/
structure Check.FailsFirst (fields : List String) (c : Check) : Prop where
  earlier : ∀ d ∈ c.earlier, d.Passes fields
  fails : ¬ c.Passes fields

end Line

/-- The check that a flaw comes from. -/
def LineFlaw.check : LineFlaw → Line.Check
  | .fieldCount _ => .fieldCount
  | .timestamp _ _ => .timestamp
  | .direction _ => .direction
  | .negativeAmount _ => .amount
  | .amount _ _ => .amount
  | .outcome _ => .outcome

/-- A flaw quotes what its check looked at: the number of fields, or the field without the blank
characters around it. -/
def LineFlaw.Quotes (fields : List String) : LineFlaw → Prop
  | .fieldCount n => n = fields.length
  | .timestamp f _ => Line.Holds fields 0 (· = f)
  | .direction f => Line.Holds fields 2 (· = f)
  | .negativeAmount f => Line.Holds fields 3 (· = f)
  | .amount f _ => Line.Holds fields 3 (· = f)
  | .outcome f => Line.Holds fields 4 (· = f)

namespace Line

variable {field : String} {fields : List String}

theorem holds_iff {i : Nat} {P : String → Prop} (h : fields[i]? = some field) :
  Holds fields i P ↔ P (Text.trim field)
  := by
  constructor
  · rintro ⟨field', core, hfield', htrims, hP⟩
    obtain rfl := Option.some.inj (h.symm.trans hfield')
    obtain rfl := Text.trims_iff.1 htrims
    exact hP
  · intro hP
    exact ⟨field, Text.trim field, h, Text.trims_iff.2 rfl, hP⟩

theorem exists_fields (h : Check.fieldCount.Passes fields) :
  ∃ a₀ a₁ a₂ a₃ a₄ a₅, fields = [a₀, a₁, a₂, a₃, a₄, a₅]
  := by
  rcases fields with _ | ⟨a₀, _ | ⟨a₁, _ | ⟨a₂, _ | ⟨a₃, _ | ⟨a₄, _ | ⟨a₅, _ | ⟨a₆, rest⟩⟩⟩⟩⟩⟩⟩
  case cons.cons.cons.cons.cons.cons.nil => exact ⟨a₀, a₁, a₂, a₃, a₄, a₅, rfl⟩
  all_goals cases h

/-! What a field is found to be if it does not pass its check. -/

theorem timestamp_eq_error (h : ¬ ∃ n : Int64, Numeral.Spells field.toList n.toInt) :
  ∃ flaw, timestamp field = .error (.timestamp field flaw)
  := by
  simp only [← timestamp_eq_ok] at h
  rw [timestamp] at h ⊢
  cases hread : Numeral.readInt64 field with
  | error flaw => exact ⟨flaw, rfl⟩
  | ok n =>
    rw [hread] at h
    exact absurd ⟨n, rfl⟩ h

theorem direction_eq_error (h : ¬ ∃ d : Direction, field.toLower = d.name.toLower) :
  direction field = .error (.direction field)
  := by
  simp only [← Direction.ofName?_eq_some] at h
  rw [direction]
  cases hname : Direction.ofName? field with
  | none => rfl
  | some d => exact absurd ⟨d, hname⟩ h

theorem amount_eq_error
    (h : ¬ ∃ n : Int64, Numeral.Spells field.toList n.toInt ∧ 0 ≤ n.toInt) :
  ∃ flaw, amount field = .error flaw ∧ flaw.check = .amount ∧
    (Holds fields 3 (· = field) → flaw.Quotes fields)
  := by
  simp only [← Numeral.readInt64_eq_ok] at h
  rw [amount]
  cases hread : Numeral.readInt64 field with
  | error flaw => exact ⟨.amount field flaw, rfl, rfl, id⟩
  | ok n =>
    refine ⟨.negativeAmount field, ?_, rfl, id⟩
    apply if_neg
    rw [Int64.le_iff_toInt_le, Int64.toInt_zero]
    intro hpos
    exact h ⟨n, hread, hpos⟩

theorem outcome_eq_error (h : ¬ ∃ o : Outcome, field.toLower = o.name.toLower) :
  outcome field = .error (.outcome field)
  := by
  simp only [← Outcome.ofName?_eq_some] at h
  rw [outcome]
  cases hname : Outcome.ofName? field with
  | none => rfl
  | some o => exact absurd ⟨o, hname⟩ h

/-- Fields that pass all checks describe a transaction, and others do not. -/
theorem exists_describes_iff :
  (∃ t, Describes fields t) ↔ ∀ c : Check, c.Passes fields
  := by
  constructor
  · rintro ⟨t, f₀, f₂, f₃, f₄, htrims, htimestamp, hdirection, hamount, houtcome⟩ c
    have hcount : Check.fieldCount.Passes fields := htrims.length_eq
    obtain ⟨a₀, a₁, a₂, a₃, a₄, a₅, rfl⟩ := exists_fields hcount
    simp only [List.forall₂_cons] at htrims
    obtain ⟨h₀, -, h₂, h₃, h₄, -⟩ := htrims
    cases c with
    | fieldCount => exact hcount
    | timestamp => exact ⟨a₀, f₀, rfl, h₀, t.timestamp, htimestamp⟩
    | direction => exact ⟨a₂, f₂, rfl, h₂, t.direction, hdirection⟩
    | amount => exact ⟨a₃, f₃, rfl, h₃, t.amount, hamount⟩
    | outcome => exact ⟨a₄, f₄, rfl, h₄, t.outcome, houtcome⟩
  · intro h
    obtain ⟨a₀, a₁, a₂, a₃, a₄, a₅, rfl⟩ := exists_fields (h .fieldCount)
    obtain ⟨timestamp, htimestamp⟩ := (holds_iff rfl).1 (h .timestamp)
    obtain ⟨direction, hdirection⟩ := (holds_iff rfl).1 (h .direction)
    obtain ⟨amount, hamount⟩ := (holds_iff rfl).1 (h .amount)
    obtain ⟨outcome, houtcome⟩ := (holds_iff rfl).1 (h .outcome)
    refine ⟨⟨timestamp, Text.trim a₁, direction, amount, outcome, Text.trim a₅⟩, _, _, _, _, ?_,
      htimestamp, hdirection, hamount, houtcome⟩
    apply forall₂_trims.2 rfl

/-- How six fields are read, one after the other. -/
theorem transaction_six (a₀ a₁ a₂ a₃ a₄ a₅ : String) :
  transaction [a₀, a₁, a₂, a₃, a₄, a₅] = do
    let timestamp ← timestamp (Text.trim a₀)
    let direction ← direction (Text.trim a₂)
    let amount ← amount (Text.trim a₃)
    let outcome ← outcome (Text.trim a₄)
    return { timestamp, counterparty := Text.trim a₁, direction, amount, outcome,
             description := Text.trim a₅ }
  := rfl

/-- The first check that the fields do not pass decides on the flaw, and the flaw quotes what the
check looked at. -/
theorem transaction_of_failsFirst {c : Check} (h : c.FailsFirst fields) :
  ∃ flaw, transaction fields = .error flaw ∧ flaw.check = c ∧ flaw.Quotes fields
  := by
  obtain ⟨hearlier, hfails⟩ := h
  cases c with
  | fieldCount =>
    refine ⟨.fieldCount fields.length, ?_, rfl, rfl⟩
    rw [transaction]
    unfold ofFields
    split
    · next hsix =>
      have hlength := congrArg List.length hsix
      rw [List.length_map] at hlength
      exact absurd hlength hfails
    · rw [List.length_map]
  | timestamp =>
    simp only [Check.earlier, List.forall_mem_cons] at hearlier
    obtain ⟨a₀, a₁, a₂, a₃, a₄, a₅, rfl⟩ := exists_fields hearlier.1
    rw [Check.Passes, holds_iff rfl] at hfails
    obtain ⟨flaw, htimestamp⟩ := timestamp_eq_error hfails
    refine ⟨.timestamp (Text.trim a₀) flaw, ?_, rfl, (holds_iff rfl).2 rfl⟩
    rw [transaction_six, htimestamp]
    rfl
  | direction =>
    simp only [Check.earlier, List.forall_mem_cons] at hearlier
    obtain ⟨hcount, htimestamp, -⟩ := hearlier
    obtain ⟨a₀, a₁, a₂, a₃, a₄, a₅, rfl⟩ := exists_fields hcount
    obtain ⟨timestamp, htimestamp⟩ := (holds_iff rfl).1 htimestamp
    rw [Check.Passes, holds_iff rfl] at hfails
    refine ⟨.direction (Text.trim a₂), ?_, rfl, (holds_iff rfl).2 rfl⟩
    rw [transaction_six, timestamp_eq_ok.2 htimestamp, direction_eq_error hfails]
    rfl
  | amount =>
    simp only [Check.earlier, List.forall_mem_cons] at hearlier
    obtain ⟨hcount, htimestamp, hdirection, -⟩ := hearlier
    obtain ⟨a₀, a₁, a₂, a₃, a₄, a₅, rfl⟩ := exists_fields hcount
    obtain ⟨timestamp, htimestamp⟩ := (holds_iff rfl).1 htimestamp
    obtain ⟨direction, hdirection⟩ := (holds_iff rfl).1 hdirection
    rw [Check.Passes, holds_iff rfl] at hfails
    obtain ⟨flaw, hamount, hcheck, hquotes⟩ := amount_eq_error hfails
    refine ⟨flaw, ?_, hcheck, hquotes ((holds_iff rfl).2 rfl)⟩
    rw [transaction_six, timestamp_eq_ok.2 htimestamp, direction_eq_ok.2 hdirection, hamount]
    rfl
  | outcome =>
    simp only [Check.earlier, List.forall_mem_cons] at hearlier
    obtain ⟨hcount, htimestamp, hdirection, hamount, -⟩ := hearlier
    obtain ⟨a₀, a₁, a₂, a₃, a₄, a₅, rfl⟩ := exists_fields hcount
    obtain ⟨timestamp, htimestamp⟩ := (holds_iff rfl).1 htimestamp
    obtain ⟨direction, hdirection⟩ := (holds_iff rfl).1 hdirection
    obtain ⟨amount, hamount⟩ := (holds_iff rfl).1 hamount
    rw [Check.Passes, holds_iff rfl] at hfails
    refine ⟨.outcome (Text.trim a₄), ?_, rfl, (holds_iff rfl).2 rfl⟩
    rw [transaction_six, timestamp_eq_ok.2 htimestamp, direction_eq_ok.2 hdirection,
      amount_eq_ok_iff.2 hamount, outcome_eq_error hfails]
    rfl

/-- If not all checks are passed, one is the first that is not. -/
theorem exists_failsFirst (h : ¬ ∀ c : Check, c.Passes fields) :
  ∃ c : Check, c.FailsFirst fields
  := by
  by_contra hnone
  have hnext : ∀ c : Check, (∀ d ∈ c.earlier, d.Passes fields) → c.Passes fields := by
    intro c hearlier
    by_contra hfails
    exact hnone ⟨c, hearlier, hfails⟩
  have hcount := hnext .fieldCount nofun
  have htimestamp := hnext .timestamp (by simp [Check.earlier, hcount])
  have hdirection := hnext .direction (by simp [Check.earlier, hcount, htimestamp])
  have hamount := hnext .amount (by simp [Check.earlier, hcount, htimestamp, hdirection])
  have houtcome := hnext .outcome
    (by simp [Check.earlier, hcount, htimestamp, hdirection, hamount])
  apply h
  intro c
  cases c with
  | fieldCount => exact hcount
  | timestamp => exact htimestamp
  | direction => exact hdirection
  | amount => exact hamount
  | outcome => exact houtcome

/-- Blank characters around the fields make no difference. -/
theorem transaction_of_pads {padded : List String} (h : List.Forall₂ Text.Pads fields padded) :
  transaction padded = transaction fields
  := by
  rw [transaction, transaction]
  congr 1
  induction h with
  | nil => rfl
  | cons hpads _ ih => rw [List.map_cons, List.map_cons, Text.trim_of_pads hpads, ih]

end Line

namespace Reading

variable {line : Nat} {fields : List String}

theorem ofFields_eq_parsed {t : Transaction} :
  ofFields line fields = .parsed t ↔ Line.transaction fields = .ok t
  := by
  rw [ofFields]
  cases Line.transaction fields with
  | error flaw => exact ⟨nofun, nofun⟩
  | ok t' => rw [parsed.injEq, Except.ok.injEq]

/-- Fields are read as the transaction that they describe.  If they describe none, they do not pass
some check, and the line is rejected for the first such check, with its number.  Blank characters
around the fields make no difference. -/
theorem ofFields_of_checks (line : Nat) (fields : List String) :
  (∀ t, ofFields line fields = .parsed t ↔ Line.Describes fields t) ∧
  ((∃ t, Line.Describes fields t) ↔ ∀ c : Line.Check, c.Passes fields) ∧
  ((¬ ∃ t, Line.Describes fields t) → ∃ flaw : LineFlaw,
    flaw.check.FailsFirst fields ∧ flaw.Quotes fields ∧
    ofFields line fields = .rejected (.malformedLine line flaw.message)) ∧
  ∀ padded, List.Forall₂ Text.Pads fields padded → ofFields line padded = ofFields line fields
  := by
  refine ⟨fun t => ?_, Line.exists_describes_iff, fun hnone => ?_, fun padded hpads => ?_⟩
  · rw [ofFields_eq_parsed, Line.transaction_eq_ok]
  · rw [Line.exists_describes_iff] at hnone
    obtain ⟨c, hc⟩ := Line.exists_failsFirst hnone
    obtain ⟨flaw, hflaw, rfl, hquotes⟩ := Line.transaction_of_failsFirst hc
    refine ⟨flaw, hc, hquotes, ?_⟩
    rw [ofFields, hflaw]
  · rw [ofFields, ofFields, Line.transaction_of_pads hpads]

example : ofFields 7 ["\t+0012 ", "", "cReDiT", "-0", "Success", "\u00a0rent"]
    = .parsed
      { timestamp := 12, counterparty := "", direction := .credit, amount := 0,
        outcome := .success, description := "rent" } := by
  decide +kernel

end Reading

end Reconciliation
