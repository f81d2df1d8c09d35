import Reconciliation.Proofs.Answers

/-!
# Paging through issues

The store answers every request for a page with exactly the issues at the positions of that page,
among those that the filter selects (`Store.listIssues_of_record`).  So the pages, one after the
other, hold each selected issue once and in order, and behind the last of them there is nothing
(`Store.listIssues_pages`).
-/

namespace Reconciliation

namespace Page

/-- The number of pages that hold some elements. -/
def count (total size : Nat) : Nat :=
  (total + size - 1) / size

variable {α : Type} {total size : Nat}

/-- The pages have room for all elements. -/
theorem le_count_mul (h : 1 ≤ size) :
  total ≤ count total size * size
  := by
  have hdiv := Nat.div_add_mod (total + size - 1) size
  have hmod := Nat.mod_lt (total + size - 1) h
  rw [Nat.mul_comm] at hdiv
  rw [count]
  omega

/-- The elements of a page follow those of the pages before it. -/
theorem extract_eq_take_drop (l : List α) (size k : Nat) :
  l.extract (k * size) ((k + 1) * size) = (l.drop (k * size)).take size
  := by
  rw [List.extract_eq_take_drop, Nat.succ_mul, Nat.add_sub_cancel_left]

/-- The first pages of a list, one after the other, are the first part of it. -/
theorem flatMap_extract (l : List α) (size n : Nat) :
  (List.range n).flatMap (fun k => l.extract (k * size) ((k + 1) * size)) = l.take (n * size)
  := by
  induction n with
  | zero => rw [Nat.zero_mul, List.take_zero, List.range_zero, List.flatMap_nil]
  | succ n ih =>
    rw [List.range_succ, List.flatMap_append, ih, List.flatMap_singleton, extract_eq_take_drop,
      Nat.succ_mul, List.take_add]

/-- All pages of a list, one after the other, are the list. -/
theorem flatMap_extract_count (l : List α) (h : 1 ≤ size) :
  (List.range (count l.length size)).flatMap (fun k => l.extract (k * size) ((k + 1) * size)) = l
  := by
  rw [flatMap_extract, List.take_of_length_le (le_count_mul h)]

/-- There is nothing on a page behind the last. -/
theorem extract_eq_nil (l : List α) (h : 1 ≤ size) {k : Nat} (hk : count l.length size ≤ k) :
  l.extract (k * size) ((k + 1) * size) = []
  := by
  have hlength : l.length ≤ count l.length size * size := le_count_mul h
  have hmul := Nat.mul_le_mul_right size hk
  rw [extract_eq_take_drop, List.drop_eq_nil_of_le (Nat.le_trans hlength hmul), List.take_nil]

end Page

/-- The issues of an upload that a filter selects. -/
def UploadRecord.selected (r : UploadRecord) (filter : IssueFilter) : List Transaction :=
  r.issues.filter filter.selects

namespace Store

variable {s : Store} {id : String} {r : UploadRecord}

/-- A page holds the selected issues at its positions, if there are no more issues than a word can
count. -/
theorem listIssues_of_record (hr : s.get? id = some r) (hword : r.issues.length ≤ Page.wordMax)
    (filter : IssueFilter) (size k : Nat) :
  s.listIssues id filter { number := k + 1, size } = .ok {
    transactions := (r.selected filter).extract (k * size) ((k + 1) * size)
    total := (r.selected filter).length
    stage := r.upload.stage }
  := by
  have hlength : (r.selected filter).length ≤ Page.wordMax :=
    Nat.le_trans (List.length_filter_le filter.selects r.issues) hword
  have hslice := Page.slice_eq { number := k + 1, size } hlength
  rw [Nat.add_sub_cancel] at hslice
  rw [listIssues, find, hr, Page.extract_eq_take_drop, ← hslice]
  rfl

/-- Every page holds exactly the selected issues at its positions, in the order in which they are
stored, and tells how many there are in all.  The pages up to the last one together are all selected
issues, each once and in order, and every later page is empty.  The number of issues has to be a
word, as it is for every list in memory: positions that are no words are cut off there. -/
theorem listIssues_pages (hr : s.get? id = some r) (hword : r.issues.length ≤ Page.wordMax)
    (filter : IssueFilter) {size : Nat} (hsize : 1 ≤ size) :
  (∀ number, 1 ≤ number → s.listIssues id filter { number, size } = .ok {
    transactions := (r.selected filter).extract ((number - 1) * size) (number * size)
    total := (r.selected filter).length
    stage := r.upload.stage }) ∧
  (∃ slices,
    (List.range (Page.count (r.selected filter).length size)).mapM
      (fun k => s.listIssues id filter { number := k + 1, size }) = .ok slices ∧
    slices.flatMap IssueSlice.transactions = r.selected filter) ∧
  ∀ number, Page.count (r.selected filter).length size < number →
    s.listIssues id filter { number, size } = .ok {
      transactions := []
      total := (r.selected filter).length
      stage := r.upload.stage }
  := by
  have hpage := listIssues_of_record hr hword filter size
  refine ⟨fun number hnumber => ?_, ?_, fun number hnumber => ?_⟩
  · obtain ⟨k, rfl⟩ := Nat.exists_eq_add_of_le' hnumber
    rw [hpage, Nat.add_sub_cancel]
  · simp only [hpage]
    refine ⟨_, List.mapM_pure, ?_⟩
    rw [List.flatMap_map]
    apply Page.flatMap_extract_count _ hsize
  · obtain ⟨k, rfl⟩ := Nat.exists_eq_add_of_le' (Nat.le_trans (Nat.le_add_left 1 _) hnumber)
    rw [hpage, Page.extract_eq_nil _ hsize (Nat.le_of_lt_succ hnumber)]

/-- A payment of the given amount that did not go through. -/
def unpaid (direction : Direction) (amount : Amount) : Transaction :=
  { timestamp := 7, counterparty := "ann", direction, amount, outcome := .failed,
    description := "rent" }

/-- An upload with three debits and a credit among its issues. -/
def mixedRecord : UploadRecord :=
  { upload := { id := "u-1", stage := .done }
    issues := [unpaid .debit 1, unpaid .credit 2, unpaid .debit 3, unpaid .debit 4] }

theorem listIssues_pages_mixed :
  Store.listIssues { records := [("u-1", mixedRecord)] } "u-1" ⟨[], [.debit]⟩ ⟨2, 2⟩
    = .ok { transactions := [unpaid .debit 4], total := 3, stage := .done } ∧
  (∃ slices, (List.range 2).mapM (fun k =>
      Store.listIssues { records := [("u-1", mixedRecord)] } "u-1" ⟨[], [.debit]⟩ ⟨k + 1, 2⟩)
      = .ok slices ∧
    slices.flatMap IssueSlice.transactions
      = [unpaid .debit 1, unpaid .debit 3, unpaid .debit 4]) ∧
  Store.listIssues { records := [("u-1", mixedRecord)] } "u-1" ⟨[], [.debit]⟩ ⟨Page.wordMax, 2⟩
    = .ok { transactions := [], total := 3, stage := .done }
  := by
  have hr : Store.get? { records := [("u-1", mixedRecord)] } "u-1" = some mixedRecord := by
    decide +kernel
  have hword : mixedRecord.issues.length ≤ Page.wordMax := by decide
  have hselected : mixedRecord.selected ⟨[], [.debit]⟩
      = [unpaid .debit 1, unpaid .debit 3, unpaid .debit 4] := by
    decide
  obtain ⟨hpage, hall, hlater⟩ := listIssues_pages hr hword ⟨[], [.debit]⟩ (Nat.le_add_left 1 1)
  rw [hselected] at hall
  simp only [hselected] at hpage hlater
  exact ⟨hpage 2 (by decide), hall, hlater Page.wordMax (by decide)⟩

end Store

end Reconciliation
