import Reconciliation.Proofs.Ownership
import Reconciliation.Proofs.Paging
import Reconciliation.Proofs.Reports

/-!
# How the two reports agree

The issues of an upload are collected page after page, until all that the filter selects have been
seen.  `Engine.Collects` is this loop, with the number of pages that it asks for; it knows no bound
on that number, so that it says more than the rows do when it comes to an end.  For an upload whose
task has ended the loop does, after as many pages as its rows take up, and the rows are the selected
issues in the order of the statement.  The summary counts the same rows, and the rows by outcome are
parts of them (`Session.Runs.reports_agree`).
-/

namespace Reconciliation

namespace Engine

/-- The rows of one page. -/
def pageRows (file : String) (view : IssuesView) : List IssueRow :=
  view.slice.transactions.map fun transaction => { file, transaction }

/-- From a page on, collecting the issues of an upload takes so many pages and has this outcome. -/
inductive Collects (p : Processor) (filter : IssueFilter) (file id : String) :
    Nat → Nat → Except Fault (List IssueRow) → Prop where
  | refused {number : Nat} {fault : Fault}
      (ask : p.issues id filter { number, size := Page.sizeLimit } = .error fault) :
      Collects p filter file id number 1 (.error fault)
  | last {number : Nat} {view : IssuesView}
      (ask : p.issues id filter { number, size := Page.sizeLimit } = .ok view)
      (seen : view.slice.total ≤ min (number * Page.sizeLimit) Page.wordMax) :
      Collects p filter file id number 1 (.ok (pageRows file view))
  | next {number pages : Nat} {view : IssuesView} {outcome : Except Fault (List IssueRow)}
      (ask : p.issues id filter { number, size := Page.sizeLimit } = .ok view)
      (unseen : min (number * Page.sizeLimit) Page.wordMax < view.slice.total)
      (rest : Collects p filter file id (number + 1) pages outcome) :
      Collects p filter file id number (pages + 1) (outcome.map (pageRows file view ++ ·))

variable {p : Processor} {filter : IssueFilter} {file id : String} {number pages pages' : Nat}
  {outcome outcome' : Except Fault (List IssueRow)} {r : UploadRecord}

namespace Collects

/-- There is one way to collect. -/
theorem unique (h : Collects p filter file id number pages outcome)
    (h' : Collects p filter file id number pages' outcome') :
  pages = pages' ∧ outcome = outcome'
  := by
  induction h generalizing pages' outcome' with
  | refused ask =>
    cases h' with
    | refused ask' => exact ⟨rfl, by rw [Except.error.inj (ask.symm.trans ask')]⟩
    | last ask' | next ask' => cases ask.symm.trans ask'
  | last ask seen =>
    cases h' with
    | refused ask' => cases ask.symm.trans ask'
    | last ask' => exact ⟨rfl, by rw [Except.ok.inj (ask.symm.trans ask')]⟩
    | next ask' unseen' =>
      cases ask.symm.trans ask'
      exact absurd seen (Nat.not_le_of_lt unseen')
  | next ask unseen _ ih =>
    cases h' with
    | refused ask' => cases ask.symm.trans ask'
    | last ask' seen' =>
      cases ask.symm.trans ask'
      exact absurd seen' (Nat.not_le_of_lt unseen)
    | next ask' _ rest' =>
      cases ask.symm.trans ask'
      obtain ⟨rfl, rfl⟩ := ih rest'
      exact ⟨rfl, rfl⟩

/-- The engine collects as long as it takes, if it may ask for so many pages. -/
theorem issueRowsFrom_eq (h : Collects p filter file id number pages outcome) {fuel : Nat}
    (hfuel : pages ≤ fuel) :
  issueRowsFrom p filter file id fuel number = outcome
  := by
  induction h generalizing fuel with
  | refused ask =>
    obtain ⟨fuel, rfl⟩ := Nat.exists_eq_add_of_le' hfuel
    rw [issueRowsFrom, ask]
    rfl
  | last ask seen =>
    obtain ⟨fuel, rfl⟩ := Nat.exists_eq_add_of_le' hfuel
    rw [issueRowsFrom, ask]
    exact if_pos seen
  | next ask unseen _ ih =>
    obtain ⟨fuel, rfl⟩ := Nat.exists_eq_add_of_le' (Nat.le_trans (Nat.le_add_left 1 _) hfuel)
    rw [issueRowsFrom, ask]
    simp only [bind, Except.bind]
    rw [if_neg (Nat.not_le_of_lt unseen), ih (Nat.le_of_add_le_add_right hfuel)]
    rfl

end Collects

section Record

variable (hid : Processor.validId id = .ok ()) (hstore : .store ∉ p.missing)
  (hr : p.store.get? id = some r) (hword : r.issues.length ≤ Page.wordMax)

include hid hstore hr hword

/-- A page of the largest size holds the selected issues behind those of the pages before it. -/
theorem issues_page (filter : IssueFilter) (before : Nat) :
  p.issues id filter { number := before + 1, size := Page.sizeLimit } = .ok {
    upload := id
    page := { number := before + 1, size := Page.sizeLimit }
    slice := {
      transactions := ((r.selected filter).drop (before * Page.sizeLimit)).take Page.sizeLimit
      total := (r.selected filter).length
      stage := r.upload.stage } }
  := by
  have hlength : (r.selected filter).length ≤ Page.wordMax :=
    Nat.le_trans (List.length_filter_le filter.selects r.issues) hword
  rw [Processor.issues_of_record hid hstore hr filter _ (Nat.le_add_left 1 before)
    (Nat.le_add_left 1 99), ← UploadRecord.selected, Page.slice_eq _ hlength]
  rfl

/-- The issues behind the pages seen so far take up so many more pages, and one in any case. -/
theorem collects_of_record (filter : IssueFilter) (file : String) (more before : Nat)
    (hmost : (r.selected filter).length ≤ (before + more + 1) * Page.sizeLimit)
    (hleast : more = 0 ∨ (before + more) * Page.sizeLimit < (r.selected filter).length) :
  Collects p filter file id (before + 1) (more + 1)
    (.ok (((r.selected filter).drop (before * Page.sizeLimit)).map fun transaction =>
      { file, transaction }))
  := by
  have hlength : (r.selected filter).length ≤ Page.wordMax :=
    Nat.le_trans (List.length_filter_le filter.selects r.issues) hword
  induction more generalizing before with
  | zero =>
    have ask := issues_page hid hstore hr hword filter before
    have hlast : Collects p filter file id _ _ _ := .last ask (Nat.le_min.2 ⟨hmost, hlength⟩)
    rw [pageRows, List.take_of_length_le] at hlast
    · exact hlast
    · rw [Nat.add_zero, Nat.succ_mul] at hmost
      rw [List.length_drop]
      omega
  | succ more ih =>
    have ask := issues_page hid hstore hr hword filter before
    have hleast' := hleast.resolve_left (Nat.succ_ne_zero more)
    have hunseen : (before + 1) * Page.sizeLimit < (r.selected filter).length :=
      Nat.lt_of_le_of_lt (Nat.mul_le_mul_right _ (by omega)) hleast'
    have hmore : (before + 1) + more = before + (more + 1) := by omega
    have hrest := ih (before + 1) (by rwa [hmore]) (Or.inr (by rwa [hmore]))
    have hnext := Collects.next ask (Nat.lt_of_le_of_lt (Nat.min_le_left _ _) hunseen) hrest
    rw [pageRows, Except.map, ← List.map_append, Nat.succ_mul, ← List.drop_drop,
      List.take_append_drop] at hnext
    exact hnext

/-- Collecting the issues of a record comes to an end, after as many pages as they take up and one in
any case, and it leaves out none of them. -/
theorem collects_iff (filter : IssueFilter) (file : String) :
  Collects p filter file id 1 pages outcome ↔
    pages = max 1 (Page.count (r.selected filter).length Page.sizeLimit) ∧
    outcome = .ok ((r.selected filter).map fun transaction => { file, transaction })
  := by
  have hcollects : Collects p filter file id 1
      (max 1 (Page.count (r.selected filter).length Page.sizeLimit))
      (.ok ((r.selected filter).map fun transaction => { file, transaction })) := by
    have hpages := Nat.sub_add_cancel
      (Nat.le_max_left 1 (Page.count (r.selected filter).length Page.sizeLimit))
    rw [← hpages]
    apply collects_of_record hid hstore hr hword filter file _ 0
    · rw [Page.count, Page.sizeLimit]
      omega
    · rw [Page.count, Page.sizeLimit]
      omega
  constructor
  · exact fun h => h.unique hcollects
  · rintro ⟨rfl, rfl⟩
    exact hcollects

/-- The engine asks for pages enough. -/
theorem issueRows_of_collects (h : Collects p filter file id 1 pages outcome) :
  issueRows p filter (file, id) = outcome
  := by
  obtain ⟨hpages, -⟩ := (collects_iff hid hstore hr hword filter file).1 h
  have hlength : (r.selected filter).length ≤ r.issues.length :=
    List.length_filter_le filter.selects r.issues
  rw [issueRows, hr]
  apply h.issueRowsFrom_eq
  rw [hpages, Page.count, Page.sizeLimit, Option.elim_some]
  omega

end Record

end Engine

/-! ### Rows by outcome -/

/-- What a filter for one kind of issue selects is what the filter for all of them does, as far as it
has that outcome. -/
theorem IssueFilter.selects_one {o : Outcome} (ho : o ∈ issues.outcomes)
    (directions : List Direction) (t : Transaction) :
  selects ⟨[o], directions⟩ t = (t.outcome == o && selects ⟨issues.outcomes, directions⟩ t)
  := by
  by_cases ht : t.outcome = o
  · subst ht
    simp [selects, ho]
  · simp [selects, ht]

namespace Input

/-- The rows for one kind of issue are some of the rows for all of them. -/
theorem issueRows_one (i : Input) {o : Outcome} (ho : o ∈ IssueFilter.issues.outcomes)
    (directions : List Direction) :
  i.issueRows ⟨[o], directions⟩
    = (i.issueRows ⟨IssueFilter.issues.outcomes, directions⟩).filter
        (fun row => row.transaction.outcome == o)
  := by
  rw [issueRows, issueRows, List.filter_map, List.filter_filter]
  congr 2
  exact funext fun t => IssueFilter.selects_one ho directions t

/-- There are two kinds of issues. -/
theorem outcome_of_issueRows {i : Input} {directions : List Direction} {row : IssueRow}
    (h : row ∈ i.issueRows ⟨IssueFilter.issues.outcomes, directions⟩) :
  row.transaction.outcome = .failed ∨ row.transaction.outcome = .pending
  := by
  rw [issueRows] at h
  obtain ⟨t, ht, rfl⟩ := List.mem_map.1 h
  obtain ⟨-, hselects⟩ := List.mem_filter.1 ht
  simpa [IssueFilter.selects, IssueFilter.issues] using (Bool.and_eq_true_iff.1 hselects).1

/-- The rows of issues that failed and the rows of issues that are pending are all rows, each once. -/
theorem issueRows_parts (i : Input) (directions : List Direction) :
  (i.issueRows ⟨[.failed], directions⟩).Disjoint (i.issueRows ⟨[.pending], directions⟩) ∧
  (i.issueRows ⟨[.failed], directions⟩ ++ i.issueRows ⟨[.pending], directions⟩).Perm
    (i.issueRows ⟨IssueFilter.issues.outcomes, directions⟩)
  := by
  rw [i.issueRows_one (by decide), i.issueRows_one (by decide)]
  constructor
  · intro row hfailed hpending
    have hfailed' := (List.mem_filter.1 hfailed).2
    have hpending' := (List.mem_filter.1 hpending).2
    rw [beq_iff_eq] at hfailed' hpending'
    cases hfailed'.symm.trans hpending'
  · -- Among the issues, to be pending is not to have failed.
    have hpending : ∀ row ∈ i.issueRows ⟨IssueFilter.issues.outcomes, directions⟩,
        (row.transaction.outcome == .pending) = !(row.transaction.outcome == .failed) := by
      intro row hrow
      rcases outcome_of_issueRows hrow with h | h
      · rw [h]
        rfl
      · rw [h]
        rfl
    rw [List.filter_congr hpending]
    exact List.filter_append_perm _ _

/-- The summary tells how many rows there are for the input in the issues report. -/
theorem issues_summaryRow (i : Input) :
  i.summaryRow.issues = (i.issueRows .issues).length
  := by
  rw [issueRows, List.length_map, Statement.filter_reported, Statement.reported, summaryRow]
  split
  · rfl
  · rfl

/-- No more transactions are reported than were parsed. -/
theorem issues_summaryRow_le (i : Input) :
  i.summaryRow.issues ≤ i.summaryRow.counts.parsed
  := by
  rw [summaryRow]
  split
  · exact Nat.le_refl 0
  · exact List.length_filter_le _ i.statement.transactions

end Input

/-! ### The two reports -/

namespace Session

variable {start s : Session} {task : Nat} {id : String} {statement : Statement}

/-- Once the task of an upload has ended, collecting the issues that a filter selects comes to an
end, after as many pages as they take up, with one row for each of them in the order of the
statement.  The summary tells how many rows there are for the filter that selects all issues, which
are no more than the parsed transactions.  The rows of those that failed and the rows of those that
are pending are two parts of the rows of both, with nothing in common and nothing left over.  The
identity may not be blank, and there may not be more issues than a word can count. -/
theorem Runs.reports_agree {o : TaskOutcome} (hnew : start.IsNew) (h : start.Runs s)
    (haccepted : s.journal.accepted[task]? = some (id, statement))
    (houtcome : (s.processor.runner.phase? task).bind TaskPhase.outcome? = some o)
    (hid : Processor.validId id = .ok ()) (hword : statement.reported.length ≤ Page.wordMax)
    (file : String) :
  let input : Input := { label := file, statement }
  (∀ filter, Engine.issueRows s.processor filter (file, id) = .ok (input.issueRows filter) ∧
    ∀ pages outcome, Engine.Collects s.processor filter file id 1 pages outcome ↔
      pages = max 1 (Page.count (input.issueRows filter).length Page.sizeLimit) ∧
      outcome = .ok (input.issueRows filter)) ∧
  (∃ row, Engine.summaryRow s.processor (file, id) = .ok row ∧
    row.issues = (input.issueRows .issues).length ∧ row.issues ≤ row.counts.parsed) ∧
  ∀ directions,
    let rows := input.issueRows ⟨IssueFilter.issues.outcomes, directions⟩
    let failed := input.issueRows ⟨[.failed], directions⟩
    let pending := input.issueRows ⟨[.pending], directions⟩
    failed.Sublist rows ∧ pending.Sublist rows ∧ failed.Disjoint pending ∧
    (failed ++ pending).Perm rows
  := by
  intro input
  obtain ⟨c, hc, hagrees⟩ := h.agrees hnew haccepted
  rw [hc.phase] at houtcome
  obtain ⟨-, -, hclosed⟩ := hagrees.ended_of_outcome? houtcome
  have hsome : s.journal.accepted ≠ [] := List.ne_nil_of_mem (List.mem_of_getElem? haccepted)
  have hstore : .store ∉ s.processor.missing :=
    h.notMem_missing hnew hsome .store List.mem_cons_self
  have hissues := hclosed.issues_eq
  rw [← hissues] at hword
  refine ⟨fun filter => ?_, ?_, fun directions => ?_⟩
  · have hrows : (c.record.selected filter).map (fun transaction => { file, transaction })
        = input.issueRows filter := by
      rw [UploadRecord.selected, hissues]
      rfl
    have hcollects (pages : Nat) (outcome : Except Fault (List IssueRow)) :
        Engine.Collects s.processor filter file id 1 pages outcome ↔ _ :=
      Engine.collects_iff hid hstore hc.record hword filter file
    rw [← hrows, List.length_map]
    exact ⟨Engine.issueRows_of_collects hid hstore hc.record hword ((hcollects _ _).2 ⟨rfl, rfl⟩),
      hcollects⟩
  · refine ⟨input.summaryRow, ?_, input.issues_summaryRow, input.issues_summaryRow_le⟩
    rw [Engine.summaryRow_eq hid hstore hc.record, hclosed.summaryRow_eq, hissues,
      Statement.filter_reported]
  · have hfailed := input.issueRows_one (o := .failed) (by decide) directions
    have hpending := input.issueRows_one (o := .pending) (by decide) directions
    exact ⟨hfailed ▸ List.filter_sublist, hpending ▸ List.filter_sublist,
      input.issueRows_parts directions⟩

/-! ### A session with more issues than a page holds -/

/-- A statement with two issues that failed, and many that are pending between them. -/
def long : Statement :=
  { bytes := "1,ann,DEBIT,5,FAILED,rent\n".toUTF8.toList ++
      (List.replicate 100 "2,bob,DEBIT,1,PENDING,\n".toUTF8.toList).flatten ++
      "3,ann,DEBIT,5,FAILED,rent\n".toUTF8.toList }

/-- A processor for the statement. -/
def longStart : Session :=
  { processor := {
      ids := .listed ["u", "e", "f"]
      clock := .frozen 7
      runner := .ofCapacity 1
      bus := .ofCapacity 1 } }

/-- A line with a transaction that failed is read, and its notice published. -/
def longNotice : List Processor.Move :=
  [.act (.proceed 0), .act (.proceed 0), .answer 0 none]

/-- The statement is accepted and read line by line, and its results are saved. -/
def longMoves : List Processor.Move :=
  [.upload (.caller 0) long, .act (.enter (.caller 0)), .act (.start 0), .act (.proceed 0)] ++
    longNotice ++ List.replicate 100 (.act (.proceed 0)) ++ longNotice ++
    [.act (.proceed 0), .act (.proceed 0), .act (.proceed 0)]

/-- The session in the end. -/
def longEnd : Session :=
  (longMoves.foldlM move longStart).getD longStart

theorem runs_long :
  longStart.Runs longEnd
  := by
  apply reflTransGen_of_isSome
  decide +kernel

/-- The issues take up two pages, and are as many as the summary says. -/
theorem reports_agree_long :
  let input : Input := { label := "june", statement := long }
  let failed := input.issueRows ⟨[.failed], []⟩
  let pending := input.issueRows ⟨[.pending], []⟩
  failed.length = 2 ∧ pending.length = 100 ∧ (failed ++ pending).Perm (input.issueRows .issues) ∧
  (∀ pages outcome, Engine.Collects longEnd.processor .issues "june" "u" 1 pages outcome ↔
    pages = 2 ∧ outcome = .ok (input.issueRows .issues)) ∧
  ∃ row, Engine.summaryRow longEnd.processor ("june", "u") = .ok row ∧ row.issues = 102
  := by
  intro input failed pending
  have hnew : longStart.IsNew := ⟨⟨rfl, rfl, 1, rfl⟩, rfl⟩
  have haccepted : longEnd.journal.accepted[0]? = some ("u", long) := by decide +kernel
  have houtcome : (longEnd.processor.runner.phase? 0).bind TaskPhase.outcome?
      = some .succeeded := by
    decide +kernel
  have hword : long.bytes.length ≤ Page.wordMax := by decide +kernel
  obtain ⟨hcollects, ⟨row, hrow, hissues, -⟩, hparts⟩ := Runs.reports_agree hnew runs_long haccepted
    houtcome (by decide +kernel) (Nat.le_trans long.length_reported_le hword) "june"
  have hfailed : failed.length = 2 := by decide +kernel
  have hpending : pending.length = 100 := by decide +kernel
  have hperm : (failed ++ pending).Perm (input.issueRows .issues) := (hparts []).2.2.2
  have hlength : (input.issueRows .issues).length = 102 := by
    rw [← hperm.length_eq, List.length_append, hfailed, hpending]
  refine ⟨hfailed, hpending, hperm, ?_, row, hrow, ?_⟩
  · have hpages := (hcollects .issues).2
    rw [hlength] at hpages
    exact hpages
  · rw [hissues, hlength]

end Session

end Reconciliation
