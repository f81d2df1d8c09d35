import Reconciliation.Proofs.Blank
import Reconciliation.Proofs.Numerals
import Reconciliation.Report
import Reconciliation.Statement.Line

/-!
# Transactions as lines

The transactions that lines describe are the tidy ones: the amount is not negative, and the two
free texts are trimmed (`Transaction.isTidy_iff`).  The fields that a report gives to a tidy
transaction describe it again (`Transaction.IsTidy.transaction_fields`).
-/

namespace Reconciliation

/-! ### Names -/

theorem Direction.ofName?_name (d : Direction) :
  Direction.ofName? d.name = some d
  := by
  cases d with
  | credit | debit => decide +kernel

theorem Outcome.ofName?_name (o : Outcome) :
  Outcome.ofName? o.name = some o
  := by
  cases o with
  | success | failed | pending => decide +kernel

theorem Direction.trim_name (d : Direction) :
  Text.trim d.name = d.name
  := by
  cases d with
  | credit | debit => decide +kernel

theorem Outcome.trim_name (o : Outcome) :
  Text.trim o.name = o.name
  := by
  cases o with
  | success | failed | pending => decide +kernel

/-! ### Numerals -/

theorem Text.isBlank_of_isDigit {c : Char} (h : c.isDigit) :
  Text.isBlank c = false
  := by
  have hn : 48 ≤ c.toNat ∧ c.toNat ≤ 57 := by
    simpa [Char.isDigit, UInt32.le_iff_toNat_le] using h
  simp only [Text.isBlank, Bool.or_eq_false_iff, Bool.and_eq_false_iff, decide_eq_false_iff_not,
    beq_eq_false_iff_ne]
  omega

/-- A numeral is trimmed. -/
theorem Report.trim_numeral (n : Int) :
  Text.trim (Report.numeral n) = Report.numeral n
  := by
  have hdigits : ∀ m, ∀ c ∈ Nat.toDigits 10 m, Text.isBlank c = false := by
    intro m c hc
    apply Text.isBlank_of_isDigit
    apply Nat.isDigit_of_mem_toDigits (by decide) (by decide) hc
  apply Text.trim_eq_self
  intro c hc
  cases n with
  | ofNat m =>
    have hchars : (Report.numeral (Int.ofNat m)).toList = Nat.toDigits 10 m := Nat.toList_repr
    rw [hchars] at hc
    apply hdigits m c hc
  | negSucc m =>
    rw [Report.numeral, Numeral.toList_repr_negSucc, List.mem_cons] at hc
    rcases hc with rfl | hc
    · rfl
    · apply hdigits (m + 1) c hc

/-! ### Lines -/

/-- The transactions that lines describe. -/
structure Transaction.IsTidy (t : Transaction) : Prop where
  amount : 0 ≤ t.amount
  counterparty : Text.trim t.counterparty = t.counterparty
  description : Text.trim t.description = t.description

instance (t : Transaction) : Decidable t.IsTidy :=
  decidable_of_iff (0 ≤ t.amount ∧ Text.trim t.counterparty = t.counterparty ∧
      Text.trim t.description = t.description)
    ⟨fun h => ⟨h.1, h.2.1, h.2.2⟩, fun h => ⟨h.amount, h.counterparty, h.description⟩⟩

namespace Line

variable {t : Transaction} {fields : List String}

theorem bind_eq_ok {ε α β : Type} {x : Except ε α} {f : α → Except ε β} {b : β} :
  x >>= f = .ok b ↔ ∃ a, x = .ok a ∧ f a = .ok b
  := by
  cases x with
  | error e =>
    constructor
    · nofun
    · rintro ⟨a, ⟨⟩, -⟩
  | ok a =>
    constructor
    · intro h
      exact ⟨a, rfl, h⟩
    · rintro ⟨_, ⟨⟩, h⟩
      exact h

/-- What the fields of a transaction hold. -/
theorem ofFields_eq_ok :
  ofFields fields = .ok t ↔
    ∃ f₀ f₂ f₃ f₄, fields = [f₀, t.counterparty, f₂, f₃, f₄, t.description] ∧
      timestamp f₀ = .ok t.timestamp ∧ direction f₂ = .ok t.direction ∧
      amount f₃ = .ok t.amount ∧ outcome f₄ = .ok t.outcome
  := by
  constructor
  · intro h
    unfold ofFields at h
    split at h
    · next f₀ f₁ f₂ f₃ f₄ f₅ =>
      simp only [bind_eq_ok] at h
      obtain ⟨timestamp, h₀, direction, h₂, amount, h₃, outcome, h₄, hreturn⟩ := h
      cases hreturn
      exact ⟨f₀, f₂, f₃, f₄, rfl, h₀, h₂, h₃, h₄⟩
    · cases h
  · rintro ⟨f₀, f₂, f₃, f₄, rfl, h₀, h₂, h₃, h₄⟩
    rw [ofFields, h₀, h₂, h₃, h₄]
    rfl

theorem amount_eq_ok {field : String} {a : Amount} :
  amount field = .ok a ↔ Numeral.readInt64 field = .ok a ∧ 0 ≤ a
  := by
  unfold amount
  split
  · next b hb =>
    rw [hb]
    split
    · next hpos =>
      constructor
      · rintro ⟨⟩
        exact ⟨rfl, hpos⟩
      · rintro ⟨⟨⟩, -⟩
        rfl
    · next hneg =>
      constructor
      · nofun
      · rintro ⟨⟨⟩, hpos⟩
        exact absurd hpos hneg
  · next flaw hflaw =>
    rw [hflaw]
    constructor
    · nofun
    · nofun

end Line

/-- The fields that a report gives to a tidy transaction describe it. -/
theorem Transaction.IsTidy.transaction_fields {t : Transaction} (h : t.IsTidy) (file : String) :
  Line.transaction (Report.issueFields { file, transaction := t }).tail = .ok t
  := by
  apply Line.ofFields_eq_ok.2
  refine ⟨Report.numeral t.timestamp.toInt, t.direction.name, Report.numeral t.amount.toInt,
    t.outcome.name, ?_, ?_, ?_, ?_, ?_⟩
  · simp only [Report.issueFields, List.tail_cons, List.map_cons, List.map_nil, Report.trim_numeral,
      Direction.trim_name, Outcome.trim_name, h.counterparty, h.description]
  · rw [Line.timestamp, Report.numeral, Numeral.readInt64_repr]
    rfl
  · rw [Line.direction, Direction.ofName?_name]
  · apply Line.amount_eq_ok.2
    exact ⟨Numeral.readInt64_repr t.amount, h.amount⟩
  · rw [Line.outcome, Outcome.ofName?_name]

/-- The tidy transactions are those that lines describe. -/
theorem Transaction.isTidy_iff {t : Transaction} :
  t.IsTidy ↔ ∃ fields, Line.transaction fields = .ok t
  := by
  constructor
  · intro h
    exact ⟨_, h.transaction_fields ""⟩
  · rintro ⟨fields, h⟩
    obtain ⟨f₀, f₂, f₃, f₄, hfields, -, -, hamount, -⟩ := Line.ofFields_eq_ok.1 h
    have htrim : ∀ f ∈ fields.map Text.trim, Text.trim f = f := by
      intro f hf
      obtain ⟨g, -, rfl⟩ := List.mem_map.1 hf
      apply Text.trim_trim
    rw [hfields] at htrim
    exact
      { amount := (Line.amount_eq_ok.1 hamount).2
        counterparty := htrim _ (by simp)
        description := htrim _ (by simp) }

end Reconciliation
