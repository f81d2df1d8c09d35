import Mathlib.Data.List.Induction
import Reconciliation.Statement.Reader
import Reconciliation.Tally

/-!
# What a statement comes to

Read alone and from the beginning, a statement has the outcomes `Statement.outcomes`: those of
its lines, and at the end the one that ends the reading.  Its transactions, issues, counts,
balance and fatal fault are read off that list.  `Tally.of` adds the outcomes up one at a time,
and `Statement.tally_outcomes` says that this comes to the same.
-/

namespace Reconciliation

namespace Reading

/-- The transaction of a line. -/
def transaction? : Reading → Option Transaction
  | .parsed t => some t
  | .rejected _ => none
  | .finished => none
  | .failed _ => none
  | .panicked _ => none

/-- A line that is no transaction. -/
def isRejected : Reading → Bool
  | .rejected _ => true
  | .parsed _ => false
  | .finished => false
  | .failed _ => false
  | .panicked _ => false

/-- The fault of a statement that cannot be read on. -/
def fatal? : Reading → Option Fault
  | .failed f => some f
  | .parsed _ => none
  | .rejected _ => none
  | .finished => none
  | .panicked _ => none

/-- The end of a reading that brought the reading task down. -/
def isPanic : Reading → Bool
  | .panicked _ => true
  | .parsed _ => false
  | .rejected _ => false
  | .finished => false
  | .failed _ => false

theorem fatal?_of_goesOn {x : Reading} (h : x.goesOn) :
  x.fatal? = none
  := by
  cases x with
  | parsed | rejected => rfl
  | finished | failed | panicked => cases h

/-- A line that leaves more to read is a transaction or none. -/
theorem length_of_goesOn {lines : List Reading} (h : ∀ x ∈ lines, x.goesOn) :
  (lines.filterMap transaction?).length + lines.countP isRejected = lines.length
  := by
  induction lines with
  | nil => rfl
  | cons x lines ih =>
    rw [List.forall_mem_cons] at h
    have hlines := ih h.2
    cases x with
    | parsed t =>
      simp [transaction?, isRejected]
      omega
    | rejected f =>
      simp [List.filterMap_cons, List.countP_cons, transaction?, isRejected]
      omega
    | finished | failed | panicked => cases h.1

end Reading

/-! ### Outcomes -/

namespace Reader

/-- The outcomes of reading lines, up to the first that ends the reading. -/
def outcomes (r : Reader) : List Reading :=
  r.readings.1.map Prod.snd

theorem outcomes_of_goesOn {r : Reader} (h : r.next.1.goesOn) :
  r.outcomes = r.next.1 :: r.next.2.outcomes
  := by
  rw [outcomes, readings, dif_pos h]
  rfl

theorem outcomes_of_ends {r : Reader} (h : r.next.1.goesOn = false) :
  r.outcomes = [r.next.1]
  := by
  rw [outcomes, readings, dif_neg (by simp [h])]
  rfl

/-- A line that leaves more to read is counted. -/
theorem line_next {r : Reader} (h : r.next.1.goesOn) :
  r.next.2.line = r.line + 1
  := by
  unfold next at h ⊢
  by_cases hend : r.atEnd
  · simp [hend, Reading.goesOn] at h
  · simp only [hend, Bool.false_eq_true, if_false] at h ⊢
    split at h
    · rfl
    · split at h
      · cases h
      · rfl
      · cases h
      · cases h

theorem ending_next (r : Reader) :
  r.next.2.ending = r.ending
  := by
  unfold next
  split
  · rfl
  · split
    · rfl
    · split <;> rfl

theorem reading_ne_panicked (started : Bool) (line : Nat) (place : Csv.Place)
    (record : Csv.RawRecord) (m : String) :
  reading started line place record ≠ .panicked m
  := by
  unfold reading
  dsimp only
  split
  · exact Reading.noConfusion
  · split
    · exact Reading.noConfusion
    · exact Reading.noConfusion

/-- Only an input that brings the reading task down does so. -/
theorem ending_of_panicked {r : Reader} {m : String} (h : r.next.1 = .panicked m) :
  r.ending = .panicking m
  := by
  unfold next at h
  split at h
  · cases h
  · split at h
    · exact absurd h (reading_ne_panicked _ _ _ _ m)
    · split at h
      · cases h
      · exact absurd h (reading_ne_panicked _ _ _ _ m)
      · cases h
      · next m' hending _ =>
        rw [hending]
        exact congrArg Ending.panicking (Reading.panicked.inj h)

/-- A record that cannot be read is reported with the number of its line. -/
theorem line_of_reading_failed {started : Bool} {line : Nat} {place : Csv.Place}
    {record : Csv.RawRecord} {f : Fault} (h : reading started line place record = .failed f) :
  ∃ m, f = .unreadable (some line) m
  := by
  unfold reading at h
  dsimp only at h
  split at h
  · next field valid _ => exact ⟨_, (Reading.failed.inj h).symm⟩
  · split at h
    · cases h
    · cases h

/-- A fatal fault carries the number of the line on which it came up. -/
theorem line_of_failed {r : Reader} {f : Fault} (h : r.next.1 = .failed f) :
  ∃ m, f = .unreadable (some (r.line + 1)) m
  := by
  unfold next at h
  split at h
  · cases h
  · split at h
    · exact line_of_reading_failed h
    · split at h
      · cases h
      · exact line_of_reading_failed h
      · exact ⟨_, (Reading.failed.inj h).symm⟩
      · cases h

/-- The outcomes are those of lines, and one more that ends the reading.  If that one is a
fatal fault, it carries the number of the line behind all others; if it is a panic, it is the
one that the input ends with. -/
theorem exists_outcomes (r : Reader) :
  ∃ lines last, r.outcomes = lines ++ [last] ∧ (∀ x ∈ lines, x.goesOn) ∧
    last.goesOn = false ∧
    (∀ f, last = .failed f → ∃ m, f = .unreadable (some (r.line + lines.length + 1)) m) ∧
    (∀ m, last = .panicked m → r.ending = .panicking m)
  := by
  by_cases hgo : r.next.1.goesOn
  · obtain ⟨lines, last, houtcomes, hlines, hlast, hfatal, hpanic⟩ := exists_outcomes r.next.2
    refine ⟨r.next.1 :: lines, last, ?_, ?_, hlast, ?_, ?_⟩
    · rw [outcomes_of_goesOn hgo, houtcomes, List.cons_append]
    · simpa using ⟨hgo, hlines⟩
    · intro f hf
      obtain ⟨m, rfl⟩ := hfatal f hf
      rw [line_next hgo, List.length_cons]
      exact ⟨m, by congr 2; omega⟩
    · intro m hm
      rw [← ending_next]
      exact hpanic m hm
  · rw [Bool.not_eq_true] at hgo
    refine ⟨[], r.next.1, outcomes_of_ends hgo, by simp, hgo, fun f hf => ?_, fun m hm => ?_⟩
    · exact line_of_failed hf
    · exact ending_of_panicked hm
termination_by r.rest.length
decreasing_by exact length_rest_lt hgo

/-- Every transaction uses up at least one byte. -/
theorem length_transactions_le (r : Reader) :
  (r.outcomes.filterMap Reading.transaction?).length ≤ r.rest.length
  := by
  by_cases hgo : r.next.1.goesOn
  · have hrest := length_transactions_le r.next.2
    have hlt := length_rest_lt hgo
    have hcons := List.length_filterMap_le Reading.transaction? [r.next.1]
    rw [List.length_singleton] at hcons
    rw [outcomes_of_goesOn hgo, ← List.singleton_append, List.filterMap_append,
      List.length_append]
    omega
  · rw [Bool.not_eq_true] at hgo
    have hnone : r.next.1.transaction? = none := by
      cases hnext : r.next.1 with
      | parsed | rejected =>
        rw [hnext] at hgo
        cases hgo
      | finished | failed | panicked => rfl
    rw [outcomes_of_ends hgo, List.filterMap_cons_none hnone]
    exact Nat.zero_le _
termination_by r.rest.length
decreasing_by exact length_rest_lt hgo

end Reader

/-! ### The contents of a statement -/

namespace Statement

/-- The outcomes of reading the lines of a statement, up to the first that ends the reading. -/
def outcomes (s : Statement) : List Reading :=
  (Reader.ofStatement s).outcomes

/-- The transactions of a statement. -/
def transactions (s : Statement) : List Transaction :=
  s.outcomes.filterMap Reading.transaction?

/-- The transactions that call for attention. -/
def issues (s : Statement) : List Transaction :=
  s.transactions.filter (fun t => t.outcome.isIssue)

/-- The transactions that failed. -/
def failures (s : Statement) : List Transaction :=
  s.transactions.filter (fun t => t.outcome == .failed)

/-- The transactions that went through. -/
def successes (s : Statement) : List Transaction :=
  s.transactions.filter (fun t => t.outcome == .success)

/-- The fault that ends the reading of a statement, if it does not come to a good end. -/
def fatal? (s : Statement) : Option Fault :=
  s.outcomes.findSome? Reading.fatal?

/-- The saturating sum, from left to right, of what the successes contribute. -/
def balance (s : Statement) : Amount :=
  (s.successes.map Transaction.balanceDelta).foldl Amount.addSaturating 0

/-- The number of transactions, and the number of lines that are none, among which a fatal
fault counts as one. -/
def counts (s : Statement) : LineCounts :=
  let parsed := s.transactions.length
  let rejected := s.outcomes.countP Reading.isRejected + s.fatal?.toList.length
  { total := parsed + rejected, parsed, rejected }

/-- A statement whose reading brings the reading task down. -/
def panics (s : Statement) : Bool :=
  s.outcomes.any Reading.isPanic

theorem length_issues_le (s : Statement) :
  s.issues.length ≤ s.bytes.length
  := calc
    s.issues.length ≤ s.transactions.length := List.length_filter_le _ _
    _ ≤ (Reader.ofStatement s).rest.length := Reader.length_transactions_le _
    _ ≤ s.bytes.length := Reader.length_rest_ofStatement s

end Statement

/-! ### Adding up -/

attribute [ext] Tally

namespace Tally

/-- The tally with one more outcome. -/
def take (t : Tally) : Reading → Tally
  | .parsed x => t.record x
  | .rejected _ => t.reject
  | .finished => t
  | .failed _ => t.reject
  | .panicked _ => t

/-- The outcomes of lines added up. -/
def of (outcomes : List Reading) : Tally :=
  outcomes.foldl take {}

theorem of_concat (outcomes : List Reading) (x : Reading) :
  of (outcomes ++ [x]) = (of outcomes).take x
  := by
  rw [of, List.foldl_append]
  rfl

end Tally

theorem Amount.addSaturating_zero (a : Amount) :
  a.addSaturating 0 = a
  := by
  apply Int64.toInt_inj.1
  rw [toInt_addSaturating, Int64.toInt_zero, Int.add_zero]
  apply clamp_eq_self
  · exact Int64.le_toInt a
  · have hlt := Int64.toInt_lt a
    unfold greatest
    omega

theorem Transaction.balanceDelta_of_ne_success {t : Transaction} (h : t.outcome ≠ .success) :
  t.balanceDelta = 0
  := by
  unfold balanceDelta
  split
  · contradiction
  · contradiction
  · rfl

namespace Tally

variable (outcomes : List Reading)

theorem issues_of :
  (of outcomes).issues
    = (outcomes.filterMap Reading.transaction?).filter (fun t => t.outcome.isIssue)
  := by
  induction outcomes using List.reverseRecOn with
  | nil => rfl
  | append_singleton outcomes x ih =>
    rw [of_concat, List.filterMap_append, List.filter_append, ← ih]
    cases x with
    | parsed t =>
      simp only [take, record, List.filterMap_cons, List.filterMap_nil, Reading.transaction?]
      by_cases ht : t.outcome.isIssue
      · simp [ht]
      · simp [ht]
    | rejected | finished | failed | panicked =>
      simp [take, reject, List.filterMap_cons, Reading.transaction?]

/-- A tally's balance is the sum of what the successes contribute: all other lines contribute
nothing. -/
theorem balance_of :
  (of outcomes).balance
    = (((outcomes.filterMap Reading.transaction?).filter (fun t => t.outcome == .success)).map
        Transaction.balanceDelta).foldl Amount.addSaturating 0
  := by
  induction outcomes using List.reverseRecOn with
  | nil => rfl
  | append_singleton outcomes x ih =>
    rw [of_concat, List.filterMap_append, List.filter_append, List.map_append,
      List.foldl_append, ← ih]
    cases x with
    | parsed t =>
      simp only [take, record, List.filterMap_cons, List.filterMap_nil, Reading.transaction?]
      by_cases ht : t.outcome = .success
      · simp [ht]
      · simp [ht, Transaction.balanceDelta_of_ne_success ht, Amount.addSaturating_zero]
    | rejected | finished | failed | panicked =>
      simp [take, reject, List.filterMap_cons, Reading.transaction?]

theorem counts_of :
  (of outcomes).counts =
    let parsed := (outcomes.filterMap Reading.transaction?).length
    let rejected := outcomes.countP Reading.isRejected +
      (outcomes.filterMap Reading.fatal?).length
    { total := parsed + rejected, parsed, rejected }
  := by
  induction outcomes using List.reverseRecOn with
  | nil => rfl
  | append_singleton outcomes x ih =>
    rw [of_concat]
    simp only [List.filterMap_append, List.countP_append, List.length_append]
    cases x with
    | parsed t =>
      simp [take, record, ih, LineCounts.countParsed, List.filterMap_cons,
        Reading.transaction?, Reading.isRejected, Reading.fatal?]
      omega
    | rejected f | failed f =>
      simp [take, reject, ih, LineCounts.countRejected, List.filterMap_cons,
        Reading.transaction?, Reading.isRejected, Reading.fatal?]
      omega
    | finished | panicked m =>
      simp [take, ih, List.filterMap_cons, Reading.transaction?, Reading.isRejected,
        Reading.fatal?]

end Tally

namespace Statement

variable (s : Statement)

/-- Only the last outcome of a statement can be a fatal fault. -/
theorem filterMap_fatal? :
  s.outcomes.filterMap Reading.fatal? = s.fatal?.toList
  := by
  obtain ⟨lines, last, houtcomes, hlines, -⟩ := (Reader.ofStatement s).exists_outcomes
  have hnone : ∀ x ∈ lines, x.fatal? = none := fun x hx => Reading.fatal?_of_goesOn (hlines x hx)
  rw [fatal?, outcomes, houtcomes, List.filterMap_append, List.findSome?_append,
    List.filterMap_eq_nil_iff.2 hnone, List.findSome?_eq_none_iff.2 hnone]
  cases h : last.fatal? with
  | none => simp [h]
  | some f => simp [h]

/-- Adding up the outcomes of a statement gives its balance, its issues and its counts. -/
theorem tally_outcomes :
  Tally.of s.outcomes = { balance := s.balance, issues := s.issues, counts := s.counts }
  := by
  apply Tally.ext
  · exact Tally.balance_of s.outcomes
  · exact Tally.issues_of s.outcomes
  · rw [Tally.counts_of, filterMap_fatal?]
    rfl

/-- A fatal fault carries the number of lines, the one on which it came up included. -/
theorem line_of_fatal? {f : Fault} (h : s.fatal? = some f) :
  ∃ m, f = .unreadable (some s.counts.total) m
  := by
  obtain ⟨lines, last, houtcomes, hlines, -, hfatal, -⟩ :=
    (Reader.ofStatement s).exists_outcomes
  have hnone : ∀ x ∈ lines, x.fatal? = none := fun x hx => Reading.fatal?_of_goesOn (hlines x hx)
  have hlast : last = .failed f := by
    rw [fatal?, outcomes, houtcomes, List.findSome?_append, List.findSome?_eq_none_iff.2 hnone]
      at h
    cases last with
    | failed f' => simpa [Reading.fatal?] using h
    | parsed | rejected | finished | panicked => simp [Reading.fatal?] at h
  have htotal : s.counts.total = lines.length + 1 := by
    have hlength := Reading.length_of_goesOn hlines
    simp only [counts, transactions, h, outcomes, houtcomes, hlast, List.filterMap_append,
      List.countP_append, List.filterMap_cons, List.filterMap_nil, List.append_nil,
      List.countP_singleton, Reading.transaction?, Reading.isRejected, Option.toList_some,
      List.length_singleton]
    simp
    omega
  obtain ⟨m, rfl⟩ := hfatal f hlast
  rw [htotal]
  exact ⟨m, by simp [Reader.ofStatement]⟩

end Statement

end Reconciliation
