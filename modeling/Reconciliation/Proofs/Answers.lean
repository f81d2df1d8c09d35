import Mathlib.Data.List.TakeWhile
import Reconciliation.Engine

/-!
# What is answered and reported about a record

The processor's answers about an upload, spelled out in terms of its record; and the rows of the
two reports.  The issues report asks for one page after the other, and `Engine.issueRows_eq` says
that together they are all the issues that the filter selects, each once and in order, as long as
their positions fit into a word.
-/

namespace Reconciliation

/-! ### Pages -/

namespace Page

variable {α : Type}

theorem sliceFrom_eq (p : Page) (position : Nat) (l : List α) :
  p.sliceFrom position l
    = (l.drop (p.start - position)).take (p.stop - max p.start position)
  := by
  induction l generalizing position with
  | nil => simp [sliceFrom]
  | cons x l ih =>
    rw [sliceFrom]
    split
    · next h =>
      have hdrop : p.start - position = 0 := by omega
      have hdrop' : p.start - (position + 1) = 0 := by omega
      have htake : p.stop - max p.start position = p.stop - max p.start (position + 1) + 1 := by
        omega
      rw [ih, hdrop, hdrop', htake, List.drop_zero, List.drop_zero, List.take_succ_cons]
    · next h =>
      rw [ih]
      by_cases hbefore : position < p.start
      · have hdrop : p.start - position = p.start - (position + 1) + 1 := by omega
        have hmax : max p.start position = max p.start (position + 1) := by omega
        rw [hdrop, hmax, List.drop_succ_cons]
      · have htake : p.stop - max p.start position = 0 := by omega
        have htake' : p.stop - max p.start (position + 1) = 0 := by omega
        rw [htake, htake', List.take_zero, List.take_zero]

/-- In a list whose positions fit into a word, a page stands where it should. -/
theorem slice_eq (p : Page) {l : List α} (h : l.length ≤ wordMax) :
  p.slice l = (l.drop ((p.number - 1) * p.size)).take p.size
  := by
  rw [slice, sliceFrom_eq, Nat.sub_zero, Nat.max_zero, stop, start]
  by_cases hstart : (p.number - 1) * p.size ≤ wordMax
  · rw [Nat.min_eq_left hstart]
    by_cases hstop : (p.number - 1) * p.size + p.size ≤ wordMax
    · rw [Nat.min_eq_left hstop, Nat.add_sub_cancel_left]
    · rw [List.take_of_length_le, List.take_of_length_le]
      · rw [List.length_drop]
        omega
      · rw [List.length_drop]
        omega
  · rw [List.drop_eq_nil_of_le (by omega), List.drop_eq_nil_of_le (by omega), List.take_nil,
      List.take_nil]

end Page

/-! ### Identities -/

theorem Text.stripBoth_ne_nil {α : Type} {p : α → Bool} {s : List α} {x : α} (hx : x ∈ s)
    (hp : p x = false) :
  stripBoth p s ≠ []
  := by
  intro h
  rw [stripBoth, List.reverse_eq_nil_iff, List.dropWhile_eq_nil_iff] at h
  rw [← List.takeWhile_append_dropWhile (p := p) (l := s)] at hx
  rcases List.mem_append.1 hx with hx | hx
  · rw [List.mem_takeWhile_imp hx] at hp
    cases hp
  · rw [h x (List.mem_reverse.2 hx)] at hp
    cases hp

/-- A universally unique identifier begins with a digit, and no digit is blank. -/
theorem exists_of_isUniqueId {id : String} (h : isUniqueId id) :
  ∃ c ∈ id.toList, Text.isBlank c = false
  := by
  rw [isUniqueId] at h
  simp only [Bool.and_eq_true] at h
  obtain ⟨⟨⟨hlength, hall⟩, -⟩, -⟩ := h
  cases hchars : id.toList with
  | nil =>
    rw [hchars] at hlength
    cases hlength
  | cons c cs =>
    rw [hchars, List.zipIdx_cons, List.all_cons, Bool.and_eq_true] at hall
    refine ⟨c, List.mem_cons_self, ?_⟩
    have hhex : c.isDigit || ('a' ≤ c && c ≤ 'f') := hall.1
    have hrange : 0x30 ≤ c.toNat ∧ c.toNat ≤ 0x39 ∨ 0x61 ≤ c.toNat ∧ c.toNat ≤ 0x66 := by
      simp only [Char.isDigit, Bool.or_eq_true, Bool.and_eq_true, decide_eq_true_eq,
        Char.le_def, UInt32.le_iff_toNat_le] at hhex
      exact hhex
    simp only [Text.isBlank, Bool.or_eq_false_iff, Bool.and_eq_false_iff, decide_eq_false_iff_not,
      beq_eq_false_iff_ne]
    omega

theorem Processor.validId_of_isUniqueId {id : String} (h : isUniqueId id) :
  validId id = .ok ()
  := by
  obtain ⟨c, hc, hblank⟩ := exists_of_isUniqueId h
  rw [validId, if_neg]
  rw [Text.trim, String.isEmpty_iff, String.ofList_eq_empty_iff]
  exact Text.stripBoth_ne_nil hc hblank

theorem ne_empty_of_isUniqueId {id : String} (h : isUniqueId id) :
  id ≠ ""
  := by
  rintro rfl
  obtain ⟨c, hc, -⟩ := exists_of_isUniqueId h
  cases hc

/-! ### Answers -/

namespace Processor

variable {p : Processor} {id : String} {r : UploadRecord}

theorem status_of_record (hid : validId id = .ok ()) (hstore : .store ∉ p.missing)
    (hr : p.store.get? id = some r) :
  p.status id = .ok (r.balance, r.upload)
  := by
  rw [status, hid, need, if_neg hstore, Store.balance, Store.find, hr]
  rfl

theorem balance_of_record (hid : validId id = .ok ()) (hstore : .store ∉ p.missing)
    (hr : p.store.get? id = some r) :
  p.balance id
    = .ok { upload := r.upload.id, stage := r.upload.stage, balance := r.balance }
  := by
  rw [balance, status_of_record hid hstore hr]
  rfl

theorem issues_of_record (hid : validId id = .ok ()) (hstore : .store ∉ p.missing)
    (hr : p.store.get? id = some r) (filter : IssueFilter) (page : Page)
    (hnumber : 1 ≤ page.number) (hsize : 1 ≤ page.size) :
  p.issues id filter page = .ok {
    upload := id
    page
    slice := {
      transactions := page.slice (r.issues.filter filter.selects)
      total := (r.issues.filter filter.selects).length
      stage := r.upload.stage } }
  := by
  rw [issues, hid, need, if_neg hstore, Store.listIssues, Store.find, hr,
    if_neg (by omega), if_neg (by omega)]
  rfl

end Processor

/-! ### Rows -/

namespace Engine

variable {p : Processor} {id : String} {r : UploadRecord}

theorem summaryRow_eq (hid : Processor.validId id = .ok ()) (hstore : .store ∉ p.missing)
    (hr : p.store.get? id = some r) (file : String) :
  summaryRow p (file, id) = .ok {
    file
    stage := r.upload.stage
    balance := r.balance
    counts := r.upload.counts
    issues := (r.issues.filter IssueFilter.issues.selects).length }
  := by
  rw [summaryRow, Processor.balance_of_record hid hstore hr,
    Processor.status_of_record hid hstore hr,
    Processor.issues_of_record hid hstore hr _ _ (Nat.le_refl 1) (Nat.le_refl 1)]
  rfl

/-- Page after page, from one on, there are the issues that stand there and behind. -/
theorem issueRowsFrom_eq (hid : Processor.validId id = .ok ()) (hstore : .store ∉ p.missing)
    (hr : p.store.get? id = some r) {filter : IssueFilter}
    (hword : (r.issues.filter filter.selects).length ≤ Page.wordMax) (file : String)
    (fuel before : Nat)
    (hfuel : (r.issues.filter filter.selects).length ≤ (before + fuel) * Page.sizeLimit) :
  issueRowsFrom p filter file id fuel (before + 1)
    = .ok (((r.issues.filter filter.selects).drop (before * Page.sizeLimit)).map
        fun transaction => { file, transaction })
  := by
  induction fuel generalizing before with
  | zero =>
    rw [Nat.add_zero] at hfuel
    rw [List.drop_eq_nil_of_le hfuel]
    rfl
  | succ fuel ih =>
    have hview := Processor.issues_of_record hid hstore hr filter
      (Page.mk (before + 1) Page.sizeLimit) (Nat.le_add_left 1 before) (Nat.le_add_left 1 99)
    have hslice := Page.slice_eq (Page.mk (before + 1) Page.sizeLimit) hword
    rw [Nat.add_sub_cancel] at hslice
    rw [hslice] at hview
    rw [issueRowsFrom, hview]
    simp only [bind, Except.bind, pure, Except.pure]
    have hnext : (before + 1) * Page.sizeLimit = before * Page.sizeLimit + Page.sizeLimit :=
      Nat.succ_mul _ _
    split
    · next hlast =>
      rw [List.take_of_length_le]
      rw [List.length_drop]
      omega
    · rw [ih (before + 1) (by rw [← Nat.add_right_comm, Nat.add_assoc]; exact hfuel)]
      simp only [← List.map_append, hnext, ← List.drop_drop, List.take_append_drop]

/-- The rows of an upload in the issues report are the issues that the filter selects. -/
theorem issueRows_eq (hid : Processor.validId id = .ok ()) (hstore : .store ∉ p.missing)
    (hr : p.store.get? id = some r) (hword : r.issues.length ≤ Page.wordMax)
    (filter : IssueFilter) (file : String) :
  issueRows p filter (file, id)
    = .ok ((r.issues.filter filter.selects).map fun transaction => { file, transaction })
  := by
  have hlength := List.length_filter_le filter.selects r.issues
  have hrows := issueRowsFrom_eq hid hstore hr (Nat.le_trans hlength hword) file
    (r.issues.length + 1) 0 (by rw [Page.sizeLimit]; omega)
  rw [Nat.zero_mul, List.drop_zero] at hrows
  rw [issueRows, hr]
  exact hrows

end Engine

end Reconciliation
