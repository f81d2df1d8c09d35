import Mathlib.Algebra.Order.BigOperators.Group.List
import Mathlib.Algebra.Order.Ring.Int
import Reconciliation.Proofs.Digest
import Reconciliation.Proofs.Lines

/-!
# The balance law

`Reading.exactBalance` is the sum, in integers, of the credits that went through less that of the
debits.  The balance of a tally follows it step by step, held to the range of amounts
(`Tally.toInt_balance_concat`), and is exactly it as long as it does not leave the range.  So lines
that are no successes never matter, and the order of the lines matters only if the credits or the
debits alone exceed the range (`Tally.balance_law`).
-/

namespace Reconciliation

/-! ### Exact sums -/

/-- The integer is an amount. -/
def Amount.InRange (n : Int) : Prop :=
  least ≤ n ∧ n ≤ greatest

theorem Amount.inRange_toInt (a : Amount) :
  InRange a.toInt
  := by
  have hlt := a.toInt_lt
  refine ⟨a.le_toInt, ?_⟩
  unfold greatest
  omega

/-- What a transaction adds to the exact balance. -/
def Transaction.contribution (t : Transaction) : Int :=
  match t.outcome, t.direction with
  | .success, .credit => t.amount.toInt
  | .success, .debit => -t.amount.toInt
  | _, _ => 0

/-- Since an amount is not negative, its negation is an amount as well. -/
theorem Transaction.IsTidy.toInt_balanceDelta {t : Transaction} (h : t.IsTidy) :
  t.balanceDelta.toInt = t.contribution
  := by
  have hpos : 0 ≤ t.amount.toInt := by
    rw [← Int64.toInt_zero, ← Int64.le_iff_toInt_le]
    exact h.amount
  have hlt := t.amount.toInt_lt
  rw [balanceDelta, contribution]
  cases t.outcome with
  | success =>
    cases t.direction with
    | credit => rfl
    | debit =>
      show (-t.amount).toInt = -t.amount.toInt
      rw [Int64.toInt_neg]
      apply Int.bmod_eq_of_le
      · omega
      · omega
  | failed | pending => rfl

namespace Reading

/-- The transactions that went through. -/
def successes (outcomes : List Reading) : List Transaction :=
  (outcomes.filterMap transaction?).filter fun t => t.outcome == .success

/-- The exact sum of the amounts that went through in one direction. -/
def total (d : Direction) (outcomes : List Reading) : Int :=
  (((successes outcomes).filter fun t => t.direction == d).map fun t => t.amount.toInt).sum

/-- The exact sum of the credits that went through, less that of the debits. -/
def exactBalance (outcomes : List Reading) : Int :=
  total .credit outcomes - total .debit outcomes

/-- What a line adds to the exact balance. -/
def contribution (x : Reading) : Int :=
  (x.transaction?.map Transaction.contribution).getD 0

theorem total_append (d : Direction) (before after : List Reading) :
  total d (before ++ after) = total d before + total d after
  := by
  simp only [total, successes, List.filterMap_append, List.filter_append, List.map_append,
    List.sum_append]

theorem exactBalance_singleton (x : Reading) :
  exactBalance [x] = x.contribution
  := by
  cases x with
  | parsed t =>
    cases houtcome : t.outcome with
    | success =>
      cases hdirection : t.direction with
      | credit | debit =>
        simp [exactBalance, total, successes, contribution, transaction?, Transaction.contribution,
          houtcome, hdirection]
    | failed | pending =>
      simp [exactBalance, total, successes, contribution, transaction?, Transaction.contribution,
        houtcome]
  | rejected | finished | failed | panicked => rfl

theorem exactBalance_concat (outcomes : List Reading) (x : Reading) :
  exactBalance (outcomes ++ [x]) = exactBalance outcomes + x.contribution
  := by
  rw [← exactBalance_singleton]
  unfold exactBalance
  rw [total_append, total_append]
  omega

/-! The order of the lines. -/

variable {outcomes others before : List Reading}

theorem mem_of_mem_successes {t : Transaction} (h : t ∈ successes outcomes) :
  .parsed t ∈ outcomes
  := by
  obtain ⟨x, hx, htransaction⟩ := List.mem_filterMap.1 (List.mem_filter.1 h).1
  cases x with
  | parsed t' =>
    obtain rfl := Option.some.inj htransaction
    exact hx
  | rejected | finished | failed | panicked => cases htransaction

/-- Fewer lines do not bring more in one direction. -/
theorem total_le_of_isPrefix (htidy : ∀ t, .parsed t ∈ outcomes → t.IsTidy)
    (h : before <+: outcomes) (d : Direction) :
  0 ≤ total d before ∧ total d before ≤ total d outcomes
  := by
  have hsublist : (((successes before).filter fun t => t.direction == d).map
      fun t => t.amount.toInt).Sublist
        (((successes outcomes).filter fun t => t.direction == d).map fun t => t.amount.toInt) :=
    (((h.sublist.filterMap _).filter _).filter _).map _
  have hpos : ∀ a ∈ ((successes outcomes).filter fun t => t.direction == d).map
      fun t => t.amount.toInt, 0 ≤ a := by
    rw [List.forall_mem_map]
    intro t ht
    rw [← Int64.toInt_zero, ← Int64.le_iff_toInt_le]
    exact (htidy t (mem_of_mem_successes (List.mem_filter.1 ht).1)).amount
  constructor
  · apply List.sum_nonneg
    intro a ha
    apply hpos a (hsublist.subset ha)
  · apply hsublist.sum_le_sum hpos

theorem total_of_perm (h : outcomes.Perm others) (d : Direction) :
  total d outcomes = total d others
  := ((((h.filterMap _).filter _).filter _).map _).sum_eq

/-- Where neither the credits nor the debits exceed the range, no part of the lines does. -/
theorem inRange_of_isPrefix (htidy : ∀ t, .parsed t ∈ outcomes → t.IsTidy)
    (hcredit : total .credit outcomes ≤ Amount.greatest)
    (hdebit : total .debit outcomes ≤ Amount.greatest) (h : before <+: outcomes) :
  Amount.InRange (exactBalance before)
  := by
  have hcredit' := total_le_of_isPrefix htidy h .credit
  have hdebit' := total_le_of_isPrefix htidy h .debit
  unfold Amount.greatest at hcredit hdebit
  unfold Amount.InRange Amount.least Amount.greatest exactBalance
  omega

end Reading

/-! ### Tallies -/

namespace Tally

open Reading (exactBalance successes total)

/-- One more line moves the balance by its contribution, and the balance stays in the range. -/
theorem toInt_balance_concat (outcomes : List Reading) {x : Reading}
    (hx : ∀ t, x = .parsed t → t.IsTidy) :
  (of (outcomes ++ [x])).balance.toInt
    = Amount.clamp ((of outcomes).balance.toInt + x.contribution)
  := by
  have hrange := Amount.inRange_toInt (of outcomes).balance
  have hkeep : Amount.clamp ((of outcomes).balance.toInt + 0) = (of outcomes).balance.toInt := by
    rw [Int.add_zero]
    apply Amount.clamp_eq_self hrange.1 hrange.2
  rw [of_concat]
  cases x with
  | parsed t =>
    show (Amount.addSaturating _ _).toInt = _
    rw [Amount.toInt_addSaturating, (hx t rfl).toInt_balanceDelta]
    rfl
  | rejected | finished | failed | panicked => exact hkeep.symm

variable {outcomes others : List Reading}

/-- A balance that never leaves the range is exact. -/
theorem toInt_balance_of (htidy : ∀ t, .parsed t ∈ outcomes → t.IsTidy)
    (hrange : ∀ before, before <+: outcomes → Amount.InRange (exactBalance before)) :
  (of outcomes).balance.toInt = exactBalance outcomes
  := by
  induction outcomes using List.reverseRecOn with
  | nil => rfl
  | append_singleton outcomes x ih =>
    have hx : ∀ t, x = .parsed t → t.IsTidy := by
      rintro t rfl
      apply htidy
      simp
    have hexact : (of outcomes).balance.toInt = exactBalance outcomes := by
      apply ih
      · intro t ht
        apply htidy t (List.mem_append_left _ ht)
      · intro before hbefore
        apply hrange before (hbefore.trans (List.prefix_append _ _))
    have hwhole := hrange _ List.prefix_rfl
    rw [toInt_balance_concat _ hx, hexact, ← Reading.exactBalance_concat]
    apply Amount.clamp_eq_self hwhole.1 hwhole.2

/-- Only the successes count. -/
theorem balance_of_successes (h : successes others = successes outcomes) :
  (of others).balance = (of outcomes).balance
  := by
  rw [balance_of, balance_of, ← successes, ← successes, h]

/-- Where neither the credits nor the debits exceed the range, the order of the lines does not
matter. -/
theorem balance_of_perm (htidy : ∀ t, .parsed t ∈ outcomes → t.IsTidy)
    (hcredit : total .credit outcomes ≤ Amount.greatest)
    (hdebit : total .debit outcomes ≤ Amount.greatest) (h : outcomes.Perm others) :
  (of others).balance = (of outcomes).balance
  := by
  have htidy' : ∀ t, .parsed t ∈ others → t.IsTidy := fun t ht => htidy t (h.mem_iff.2 ht)
  have hexact := toInt_balance_of htidy fun _ => Reading.inRange_of_isPrefix htidy hcredit hdebit
  rw [Reading.total_of_perm h] at hcredit hdebit
  have hexact' := toInt_balance_of htidy' fun _ => Reading.inRange_of_isPrefix htidy' hcredit hdebit
  apply Int64.toInt_inj.1
  rw [hexact, hexact', exactBalance, exactBalance, Reading.total_of_perm h,
    Reading.total_of_perm h]

/-- The balance of lines whose transactions were read from fields.  Neither the negation of an
amount nor the addition to the balance goes wrong: each transaction moves the balance by exactly its
contribution, held to the range.  A balance that does not leave the range is the exact sum.  Lines
that are no successes can be put in, left out and moved; and all lines can be put in another order,
if neither the credits nor the debits exceed the range. -/
theorem balance_law (outcomes : List Reading)
    (hread : ∀ t, .parsed t ∈ outcomes → ∃ fields, Line.transaction fields = .ok t) :
  (∀ before t after, outcomes = before ++ .parsed t :: after →
    t.balanceDelta.toInt = t.contribution ∧
    (of (before ++ [.parsed t])).balance.toInt
      = Amount.clamp ((of before).balance.toInt + t.contribution)) ∧
  ((∀ before, before <+: outcomes → Amount.InRange (exactBalance before)) →
    (of outcomes).balance.toInt = exactBalance outcomes) ∧
  (∀ others, successes others = successes outcomes →
    (of others).balance = (of outcomes).balance) ∧
  (total .credit outcomes ≤ Amount.greatest → total .debit outcomes ≤ Amount.greatest →
    ∀ others, outcomes.Perm others → (of others).balance = (of outcomes).balance)
  := by
  have htidy : ∀ t, .parsed t ∈ outcomes → t.IsTidy :=
    fun t ht => Transaction.isTidy_iff.2 (hread t ht)
  refine ⟨?_, toInt_balance_of htidy, fun _ => balance_of_successes, fun hcredit hdebit _ =>
    balance_of_perm htidy hcredit hdebit⟩
  rintro before t after rfl
  have ht : t.IsTidy := htidy t (by simp)
  refine ⟨ht.toInt_balanceDelta, toInt_balance_concat before ?_⟩
  rintro _ ⟨⟩
  exact ht

/-- A payment of the given amount. -/
def payment (direction : Direction) (outcome : Outcome) (amount : Amount) : Reading :=
  .parsed { timestamp := 7, counterparty := "ann", direction, amount, outcome, description := "" }

theorem exists_fields_of_payment {t : Transaction} {direction : Direction} {outcome : Outcome}
    {amount : Amount} (h : .parsed t = payment direction outcome amount) (hpos : 0 ≤ amount) :
  ∃ fields, Line.transaction fields = .ok t
  := by
  obtain rfl := Reading.parsed.inj h
  apply Transaction.isTidy_iff.1
  exact
    { amount := hpos
      counterparty := show Text.trim "ann" = "ann" by decide +kernel
      description := show Text.trim "" = "" by decide +kernel }

/-- Two credits that exceed the range together, among lines that are no successes. -/
def brimming : List Reading :=
  [payment .debit .failed 3, payment .credit .success 0x7FFFFFFFFFFFFFFF,
    .rejected (.malformedLine 3 "expected 6 fields, got 1"), payment .credit .success 5,
    payment .debit .success 7]

/-- Credits and debits that fill the range. -/
def even : List Reading :=
  [payment .credit .success 0x7FFFFFFFFFFFFFFF, payment .debit .success 0x7FFFFFFFFFFFFFFF,
    payment .debit .pending 1]

theorem balance_law_brimming :
  (of (brimming.take 4)).balance.toInt
    = Amount.clamp ((of (brimming.take 3)).balance.toInt + 5) ∧
  (of [payment .credit .success 0x7FFFFFFFFFFFFFFF, payment .credit .success 5,
    payment .debit .pending 3, payment .debit .success 7]).balance = (of brimming).balance ∧
  (of brimming).balance = 0x7FFFFFFFFFFFFFF8 ∧
  (of even).balance.toInt = exactBalance even ∧
  (of even.reverse).balance = (of even).balance
  := by
  have hbrimming : ∀ t, .parsed t ∈ brimming → ∃ fields, Line.transaction fields = .ok t := by
    intro t ht
    simp only [brimming, List.mem_cons, List.not_mem_nil, or_false] at ht
    obtain h | h | h | h | h := ht
    · apply exists_fields_of_payment h (by decide)
    · apply exists_fields_of_payment h (by decide)
    · cases h
    · apply exists_fields_of_payment h (by decide)
    · apply exists_fields_of_payment h (by decide)
  have heven : ∀ t, .parsed t ∈ even → ∃ fields, Line.transaction fields = .ok t := by
    intro t ht
    simp only [even, List.mem_cons, List.not_mem_nil, or_false] at ht
    obtain h | h | h := ht
    · apply exists_fields_of_payment h (by decide)
    · apply exists_fields_of_payment h (by decide)
    · apply exists_fields_of_payment h (by decide)
  have hcredit : total .credit even ≤ Amount.greatest := by decide +kernel
  have hdebit : total .debit even ≤ Amount.greatest := by decide +kernel
  obtain ⟨hstep, -, hsuccesses, -⟩ := balance_law brimming hbrimming
  obtain ⟨-, hexact, -, hperm⟩ := balance_law even heven
  refine ⟨(hstep (brimming.take 3) _ [payment .debit .success 7] rfl).2, ?_, ?_, ?_, ?_⟩
  · apply hsuccesses
    decide +kernel
  · decide +kernel
  · apply hexact
    intro before
    apply Reading.inRange_of_isPrefix fun t ht => Transaction.isTidy_iff.2 (heven t ht)
    · exact hcredit
    · exact hdebit
  · apply hperm hcredit hdebit
    apply (List.reverse_perm even).symm

end Tally

end Reconciliation
