import Mathlib
import Reconciliation.Proofs.Csv
import Reconciliation.Proofs.Digest
import Reconciliation.Proofs.Lines

/-!
# What reports keep

A report is read back as its header and one record for each row (`Csv.parse_text`), and from its
record a row is known again: the record of an issue holds the fields of its transaction after the
name of the file, and each field of a record of the summary stands for one entry of the row
(`SummaryRow.ofFields?`).  So no two lists of rows have the same report (`Report.lossless`).  The
transactions of a statement are among those that a report keeps (`Statement.isTidy_of_mem_issues`).
-/

namespace Reconciliation

/-! ### Texts -/

/-- Reading undoes writing for a list if it does for each element. -/
theorem mapM_map_eq_ok {α β ε : Type} {write : α → β} {read : β → Except ε α}
    (h : ∀ a, read (write a) = .ok a) (l : List α) :
  (l.map write).mapM read = .ok l
  := by
  induction l with
  | nil => rfl
  | cons a l ih =>
    rw [List.map_cons, List.mapM_cons, h, ih]
    rfl

/-- The records of fields in a text, as they stand. -/
def Csv.parse (text : String) : Except Nat (List (List String)) :=
  (Csv.records {} (Utf8.encodeString text)).mapM (·.mapM Utf8.decodeString)

/-- Written records are read back. -/
theorem Csv.parse_text {written : List (List String)} (h : ∀ fields ∈ written, fields ≠ []) :
  Csv.parse (Csv.text written) = .ok written
  := by
  have hne : ∀ r ∈ written.map (·.map String.toList), r ≠ [] := by
    intro r hr
    obtain ⟨fields, hfields, rfl⟩ := List.mem_map.1 hr
    simpa using h fields hfields
  have hdecode : ∀ s : String, Utf8.decodeString (Utf8.encode s.toList) = .ok s := by
    intro s
    rw [Utf8.decodeString_encode, String.ofList_toList]
  rw [Csv.parse, Utf8.encodeString, Csv.text, String.toList_ofList, Csv.records_encode hne,
    List.map_map]
  apply mapM_map_eq_ok
  intro fields
  dsimp only [Function.comp_apply]
  rw [List.map_map]
  apply mapM_map_eq_ok hdecode

/-! ### Statements -/

/-- A transaction that was read is tidy. -/
theorem Reader.isTidy_of_next {r : Reader} {t : Transaction} (h : r.next.1 = .parsed t) :
  t.IsTidy
  := by
  have hreading : ∀ {started line place record}, reading started line place record = .parsed t →
      t.IsTidy := by
    intro started line place record hreading
    unfold reading at hreading
    dsimp only at hreading
    split at hreading
    · cases hreading
    · next fields _ =>
      split at hreading
      · next transaction htransaction =>
        cases hreading
        exact Transaction.isTidy_iff.2 ⟨fields, htransaction⟩
      · cases hreading
  unfold next at h
  split at h
  · cases h
  · split at h
    · exact hreading h
    · split at h
      · cases h
      · exact hreading h
      · cases h
      · cases h

/-- So are all that a reader comes to. -/
theorem Reader.isTidy_of_mem_outcomes (r : Reader) {t : Transaction} (ht : .parsed t ∈ r.outcomes) :
  t.IsTidy
  := by
  by_cases hgo : r.next.1.goesOn
  · rw [outcomes_of_goesOn hgo, List.mem_cons] at ht
    rcases ht with heq | ht
    · exact isTidy_of_next heq.symm
    · exact isTidy_of_mem_outcomes r.next.2 ht
  · rw [outcomes_of_ends (Bool.eq_false_of_not_eq_true hgo), List.mem_singleton] at ht
    exact isTidy_of_next ht.symm
termination_by r.rest.length
decreasing_by exact length_rest_lt hgo

/-- The transactions that call for attention are tidy. -/
theorem Statement.isTidy_of_mem_issues {s : Statement} {t : Transaction} (ht : t ∈ s.issues) :
  t.IsTidy
  := by
  obtain ⟨x, hx, ht⟩ := List.mem_filterMap.1 (List.mem_filter.1 ht).1
  cases x with
  | parsed t' =>
    cases ht
    exact (Reader.ofStatement s).isTidy_of_mem_outcomes hx
  | rejected | finished | failed | panicked => cases ht

/-! ### Rows -/

theorem Stage.ofName?_name (s : Stage) :
  Stage.ofName? s.name = some s
  := by
  cases s with
  | queued | processing | done | failed => rfl

/-- The row of the summary that the fields stand for. -/
def SummaryRow.ofFields? : List String → Option SummaryRow
  | [file, stage, balance, total, parsed, rejected, issues] => do
    let stage ← Stage.ofName? stage
    let balance ← (Numeral.readInt64 balance).toOption
    let total ← total.toNat?
    let parsed ← parsed.toNat?
    let rejected ← rejected.toNat?
    let issues ← issues.toNat?
    return { file, stage, balance, counts := { total, parsed, rejected }, issues }
  | _ => none

namespace Report

/-- The fields of a row of the summary stand for the row. -/
theorem ofFields?_summaryFields (r : SummaryRow) :
  SummaryRow.ofFields? (summaryFields r) = some r
  := by
  have hcount : ∀ n : Nat, (numeral n).toNat? = some n := Nat.toNat?_repr
  have hbalance : Numeral.readInt64 (numeral r.balance.toInt) = .ok r.balance :=
    Numeral.readInt64_repr r.balance
  rw [summaryFields, SummaryRow.ofFields?, Stage.ofName?_name, hbalance, hcount, hcount, hcount,
    hcount]
  rfl

/-- Different rows have different fields. -/
theorem issueFields_injective :
  Function.Injective issueFields
  := by
  rintro ⟨file, t⟩ ⟨file', t'⟩ h
  simp only [issueFields, List.cons.injEq, and_true] at h
  obtain ⟨rfl, htimestamp, hcounterparty, hdirection, hamount, houtcome, hdescription⟩ := h
  have hsame : t = t' := by
    rw [Transaction.mk.injEq]
    refine ⟨?_, hcounterparty, ?_, ?_, ?_, hdescription⟩
    · apply Int64.toInt_inj.1
      apply Int.repr_inj.1 htimestamp
    · apply Option.some.inj
      rw [← Direction.ofName?_name, hdirection, Direction.ofName?_name]
    · apply Int64.toInt_inj.1
      apply Int.repr_inj.1 hamount
    · apply Option.some.inj
      rw [← Outcome.ofName?_name, houtcome, Outcome.ofName?_name]
  rw [hsame]

/-- A report holds its header and the fields of each row. -/
theorem parse_table {α : Type} {header : List String} {fields : α → List String}
    (hheader : header ≠ []) (hfields : ∀ r, fields r ≠ []) (rows : List α) :
  Csv.parse (Csv.text (header :: rows.map fields)) = .ok (header :: rows.map fields)
  := by
  apply Csv.parse_text
  rw [List.forall_mem_cons, List.forall_mem_map]
  exact ⟨hheader, fun r _ => hfields r⟩

theorem parse_issues (rows : List IssueRow) :
  Csv.parse (issues rows) = .ok (issuesHeader :: rows.map issueFields)
  := parse_table (List.cons_ne_nil _ _) (fun _ => List.cons_ne_nil _ _) rows

theorem parse_summary (rows : List SummaryRow) :
  Csv.parse (summary rows) = .ok (summaryHeader :: rows.map summaryFields)
  := parse_table (List.cons_ne_nil _ _) (fun _ => List.cons_ne_nil _ _) rows

/-- The records of the summary tell its rows. -/
theorem map_ofFields? (rows : List SummaryRow) :
  (rows.map summaryFields).map SummaryRow.ofFields? = rows.map some
  := by
  rw [List.map_map]
  apply List.map_congr_left
  intro r _
  apply ofFields?_summaryFields

/-- The records of the issues report tell its rows. -/
theorem forall₂_issueFields {rows : List IssueRow} (htidy : ∀ r ∈ rows, r.transaction.IsTidy) :
  List.Forall₂ (fun r fields =>
    fields.head? = some r.file ∧ Line.transaction fields.tail = .ok r.transaction)
    rows (rows.map issueFields)
  := by
  rw [List.forall₂_map_right_iff, List.forall₂_same]
  intro r hr
  exact ⟨rfl, (htidy r hr).transaction_fields r.file⟩

/-- Each report is read back as its header and one record for each row, which tells all of the row.
In the issues report that is the name of the file and the fields of the transaction; so different
lists of rows have different reports. -/
theorem lossless (issueRows : List IssueRow) (summaryRows : List SummaryRow)
    (htidy : ∀ r ∈ issueRows, r.transaction.IsTidy) :
  (∃ read, Csv.parse (issues issueRows) = .ok (issuesHeader :: read) ∧
    List.Forall₂ (fun r fields =>
      fields.head? = some r.file ∧ Line.transaction fields.tail = .ok r.transaction)
      issueRows read) ∧
  (∃ read, Csv.parse (summary summaryRows) = .ok (summaryHeader :: read) ∧
    read.map SummaryRow.ofFields? = summaryRows.map some) ∧
  (∀ others, issues others = issues issueRows → others = issueRows) ∧
  ∀ others, summary others = summary summaryRows → others = summaryRows
  := by
  refine ⟨⟨_, parse_issues issueRows, forall₂_issueFields htidy⟩,
    ⟨_, parse_summary summaryRows, map_ofFields? summaryRows⟩, ?_, ?_⟩
  · intro others h
    have hread := parse_issues others
    rw [h, parse_issues, Except.ok.injEq, List.cons.injEq] at hread
    apply List.map_injective_iff.2 issueFields_injective hread.2.symm
  · intro others h
    have hread := parse_summary others
    rw [h, parse_summary, Except.ok.injEq, List.cons.injEq] at hread
    have hrows := map_ofFields? others
    rw [← hread.2, map_ofFields?] at hrows
    apply List.map_injective_iff.2 (Option.some_injective _) hrows.symm

/-- Issues of two files: one with line breaks and quotes and with numbers at the ends of their range,
and a plain one. -/
def oddIssues : List IssueRow :=
  [{ file := "a,b\n.csv"
     transaction :=
       { timestamp := -9223372036854775808, counterparty := "say \"x\"\r\ny", direction := .debit,
         amount := 9223372036854775807, outcome := .pending, description := "" } },
   { file := "march.csv"
     transaction :=
       { timestamp := 7, counterparty := "ann", direction := .credit, amount := 5,
         outcome := .failed, description := "rent, march" } }]

/-- Rows of the summary, the first without a name. -/
def oddSummaries : List SummaryRow :=
  [{ file := "", stage := .failed, balance := -9223372036854775808,
     counts := { total := 2, parsed := 1, rejected := 1 }, issues := 1 },
   { file := "march.csv", stage := .done, balance := 12,
     counts := { total := 3, parsed := 3, rejected := 0 }, issues := 2 }]

/-- The rows are read back, and the order of the rows is told. -/
theorem lossless_odd :
  (∃ read, Csv.parse (issues oddIssues) = .ok (issuesHeader :: read) ∧
    List.Forall₂ (fun r fields =>
      fields.head? = some r.file ∧ Line.transaction fields.tail = .ok r.transaction)
      oddIssues read) ∧
  (∃ read, Csv.parse (summary oddSummaries) = .ok (summaryHeader :: read) ∧
    read.map SummaryRow.ofFields? = oddSummaries.map some) ∧
  issues oddIssues.reverse ≠ issues oddIssues ∧
  summary oddSummaries.reverse ≠ summary oddSummaries
  := by
  have htidy : ∀ r ∈ oddIssues, r.transaction.IsTidy := by decide +kernel
  obtain ⟨hissues, hsummary, hothers, hothers'⟩ := lossless oddIssues oddSummaries htidy
  refine ⟨hissues, hsummary, fun h => ?_, fun h => ?_⟩
  · exact absurd (hothers _ h) (by decide +kernel)
  · exact absurd (hothers' _ h) (by decide +kernel)

end Report

end Reconciliation
