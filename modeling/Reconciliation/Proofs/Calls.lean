import Reconciliation.Proofs.Decoding
import Reconciliation.Proofs.Digest

/-!
# Reading line by line

Whatever the bytes of a statement are, only finitely many calls of `Reader.next` count a line, and
after them there is nothing but the end (`Reader.calls_ofStatement`).  A call that counts a line
gives a transaction or a fault with the number of that line; it uses up a byte of the statement, or
the failure that the statement ends with (`Reader.budget`).
-/

namespace Reconciliation

/-- An outcome that counts as line `k`: a transaction, or a fault that names the line. -/
inductive Reading.CountsAs (k : Nat) : Reading → Prop where
  | parsed (t : Transaction) : CountsAs k (.parsed t)
  | rejected (message : String) : CountsAs k (.rejected (.malformedLine k message))
  | failed (message : String) : CountsAs k (.failed (.unreadable (some k) message))

namespace Reader

/-- A record counts as the line as which it is read. -/
theorem countsAs_reading (started : Bool) (line : Nat) (place : Csv.Place)
    (record : Csv.RawRecord) :
  (reading started line place record).CountsAs line
  := by
  unfold reading
  dsimp only
  split
  · apply Reading.CountsAs.failed
  · split
    · apply Reading.CountsAs.parsed
    · apply Reading.CountsAs.rejected

/-- What is left to be counted: the bytes, and the failure behind them. -/
def budget (r : Reader) : Nat :=
  r.rest.length + if r.atEnd ∨ r.ending = .clean then 0 else 1

theorem budget_ofStatement_le (s : Statement) :
  (ofStatement s).budget ≤ s.bytes.length + if s.ending = .clean then 0 else 1
  := by
  have hrest := length_rest_ofStatement s
  have hending : ((ofStatement s).atEnd ∨ (ofStatement s).ending = .clean) ↔ s.ending = .clean := by
    simp [ofStatement]
  rw [budget, if_congr hending rfl rfl]
  omega

variable {r : Reader}

/-- What is left after a record, if there are fewer bytes left. -/
theorem budget_advance_lt (place : Csv.Place) {rest : List UInt8}
    (hrest : rest.length < r.rest.length) :
  (r.advance place rest).budget < r.budget
  := by
  have hatEnd : (r.advance place rest).atEnd = r.atEnd := rfl
  have hending : (r.advance place rest).ending = r.ending := rfl
  rw [budget, budget, hatEnd, hending]
  show rest.length + _ < _
  omega

/-- A call comes to the end, or it counts one line and leaves less to be counted. -/
theorem next_cases (hinput : ∀ m, r.ending ≠ .panicking m) :
  (r.next.1 = .finished ∧ r.next.2.line = r.line ∧ r.next.2.atEnd) ∨
  (r.next.1.CountsAs (r.line + 1) ∧ r.next.2.line = r.line + 1 ∧ r.next.2.budget < r.budget)
  := by
  unfold next
  by_cases hend : r.atEnd
  · rw [if_pos hend]
    exact .inl ⟨rfl, rfl, hend⟩
  · rw [if_neg hend]
    rw [Bool.not_eq_true] at hend
    cases hnext : Csv.next r.place r.rest with
    | record fields place rest =>
      right
      refine ⟨countsAs_reading _ _ _ _, rfl, ?_⟩
      apply budget_advance_lt
      apply Csv.length_lt_of_scan hnext
    | exhausted begun place =>
      dsimp only
      cases hending : r.ending with
      | clean =>
        cases begun with
        | none => exact .inl ⟨rfl, rfl, rfl⟩
        | some fields =>
          right
          refine ⟨countsAs_reading _ _ _ _, rfl, ?_⟩
          apply budget_advance_lt
          apply List.length_pos_iff.2
          intro hnil
          rw [hnil] at hnext
          cases hnext
      | broken m =>
        right
        refine ⟨.failed m, rfl, ?_⟩
        simp [budget, exhaust, hend, hending]
      | panicking m => exact absurd hending (hinput m)

/-- The outcomes, each with its number, that come after `line` lines. -/
def numbered (line : Nat) (outcomes : List Reading) : List (Nat × Reading) :=
  outcomes.mapIdx fun k x => (line + k + 1, x)

theorem numbered_cons (line : Nat) (x : Reading) (outcomes : List Reading) :
  numbered line (x :: outcomes) = (line + 1, x) :: numbered (line + 1) outcomes
  := by
  have hshift : ∀ k, line + (k + 1) + 1 = line + 1 + k + 1 := by omega
  rw [numbered, numbered, List.mapIdx_cons]
  simp only [hshift]

/-- The calls count some lines one after the other, no more than are left to be counted, and come
to the end then. -/
theorem exists_counted (r : Reader) (hinput : ∀ m, r.ending ≠ .panicking m) :
  ∃ outcomes : List Reading, outcomes.length ≤ r.budget ∧
    (∀ k (x : Reading), outcomes[k]? = some x → x.CountsAs (r.line + k + 1)) ∧
    ∀ n, r.calls n = (numbered r.line outcomes).take n
      ++ List.replicate (n - outcomes.length) (r.line + outcomes.length, .finished)
  := by
  rcases next_cases hinput with ⟨hx, hline, hend⟩ | ⟨hx, hline, hbudget⟩
  · refine ⟨[], Nat.zero_le _, nofun, fun n => ?_⟩
    cases n with
    | zero => rfl
    | succ n =>
      rw [calls, calls_of_atEnd hend, hx, hline]
      rfl
  · have hinput' : ∀ m, r.next.2.ending ≠ .panicking m := by
      rw [ending_next]
      exact hinput
    obtain ⟨outcomes, hlength, hcounts, hcalls⟩ := exists_counted r.next.2 hinput'
    rw [hline] at hcounts hcalls
    refine ⟨r.next.1 :: outcomes, ?_, ?_, ?_⟩
    · rw [List.length_cons]
      omega
    · intro k x hk
      cases k with
      | zero =>
        obtain rfl := Option.some.inj hk
        exact hx
      | succ k =>
        have hshift : r.line + (k + 1) + 1 = r.line + 1 + k + 1 := by omega
        rw [hshift]
        apply hcounts k x hk
    · intro n
      cases n with
      | zero =>
        rw [Nat.zero_sub]
        rfl
      | succ n =>
        have hshift : r.line + (outcomes.length + 1) = r.line + 1 + outcomes.length := by omega
        rw [calls, hcalls, hline, numbered_cons, List.take_succ_cons, List.length_cons,
          Nat.add_sub_add_right, hshift]
        rfl
termination_by r.budget

/-- The readings of a statement are the calls up to the first that ends the reading. -/
theorem exists_readings_eq (r : Reader) :
  ∃ n last, r.readings.1 = r.calls (n + 1) ∧ r.calls (n + 1) = r.calls n ++ [last] ∧
    (∀ call ∈ r.calls n, call.2.goesOn) ∧ last.2.goesOn = false
  := by
  by_cases hgoes : r.next.1.goesOn
  · obtain ⟨n, last, hreadings, hcalls, hlines, hlast⟩ := exists_readings_eq r.next.2
    refine ⟨n + 1, last, ?_, ?_, ?_, hlast⟩
    · have hnext : r.next = (r.next.1, r.next.2) := rfl
      rw [readings_of_goesOn hnext hgoes]
      dsimp only
      rw [hreadings]
      rfl
    · rw [calls, hcalls]
      rfl
    · rw [calls]
      exact List.forall_mem_cons.2 ⟨hgoes, hlines⟩
  · refine ⟨0, (r.next.2.line, r.next.1), ?_, rfl, ?_, ?_⟩
    · rw [readings]
      dsimp only
      rw [dif_neg hgoes]
      rfl
    · apply List.forall_mem_nil
    · exact Bool.eq_false_iff.2 hgoes
termination_by r.rest.length
decreasing_by exact length_rest_lt hgoes

/-- The calls of a reader at the beginning of a statement: first some outcomes that count as line 1,
2 and so on, at most one for each byte of the statement and one for its failure; then the end, for
good.  Reading until the first end or fatal fault is over after finitely many of these calls. -/
theorem calls_ofStatement (s : Statement) (hinput : ∀ m, s.ending ≠ .panicking m) :
  ∃ outcomes : List Reading,
    outcomes.length ≤ s.bytes.length + (if s.ending = .clean then 0 else 1) ∧
    (∀ k (x : Reading), outcomes[k]? = some x → x.CountsAs (k + 1)) ∧
    (∀ n, (ofStatement s).calls n
      = (outcomes.mapIdx fun k x => (k + 1, x)).take n
          ++ List.replicate (n - outcomes.length) (outcomes.length, .finished)) ∧
    ∃ n last, n ≤ outcomes.length ∧
      (ofStatement s).readings.1 = (ofStatement s).calls (n + 1) ∧
      (ofStatement s).calls (n + 1) = (ofStatement s).calls n ++ [last] ∧
      (∀ call ∈ (ofStatement s).calls n, call.2.goesOn) ∧ last.2.goesOn = false
  := by
  obtain ⟨outcomes, hlength, hcounts, hcalls⟩ := exists_counted (ofStatement s) hinput
  have hline : (ofStatement s).line = 0 := rfl
  simp only [hline, Nat.zero_add, numbered] at hcounts hcalls
  obtain ⟨n, last, hreadings, hstop, hlines, hlast⟩ := exists_readings_eq (ofStatement s)
  refine ⟨outcomes, Nat.le_trans hlength (budget_ofStatement_le s), hcounts, hcalls, n, last, ?_,
    hreadings, hstop, hlines, hlast⟩
  -- Otherwise an end would be among the calls after which the reading goes on.
  by_contra hlate
  have hend : (outcomes.length, Reading.finished) ∈ (ofStatement s).calls n := by
    rw [hcalls, List.mem_append, List.mem_replicate]
    right
    exact ⟨by omega, rfl⟩
  cases hlines _ hend

/-- Blank lines, a carriage return that ends a line, a byte that is no text, and a quote that is
still open when the input fails. -/
def ragged : Statement :=
  { bytes := Utf8.encodeString "\r\n\n1,ann,CREDIT,5,SUCCESS,rent\rx\n" ++ 0xFF
      :: Utf8.encodeString "\n\"open"
    ending := .broken "disk gone" }

theorem calls_ragged :
  (ofStatement ragged).calls 6
    = [(1, .parsed
        { timestamp := 1, counterparty := "ann", direction := .credit, amount := 5,
          outcome := .success, description := "rent" }),
      (2, .rejected (.malformedLine 2 "expected 6 fields, got 1")),
      (3, .failed (.unreadable (some 3) ("CSV parse error: record 2 (line 4, field: 1, byte: 33): "
        ++ "invalid utf-8: invalid UTF-8 in field 1 near byte index 0"))),
      (4, .failed (.unreadable (some 4) "disk gone")),
      (4, .finished), (4, .finished)] ∧
  ∃ outcomes : List Reading, outcomes.length ≤ 41 ∧
    (∀ k (x : Reading), outcomes[k]? = some x → x.CountsAs (k + 1)) ∧
    (∀ n, (ofStatement ragged).calls n
      = (outcomes.mapIdx fun k x => (k + 1, x)).take n
          ++ List.replicate (n - outcomes.length) (outcomes.length, .finished)) ∧
    ∃ n last, n ≤ outcomes.length ∧
      (ofStatement ragged).readings.1 = (ofStatement ragged).calls (n + 1) ∧
      (ofStatement ragged).calls (n + 1) = (ofStatement ragged).calls n ++ [last] ∧
      (∀ call ∈ (ofStatement ragged).calls n, call.2.goesOn) ∧ last.2.goesOn = false
  := by
  refine ⟨by decide +kernel, ?_⟩
  apply calls_ofStatement ragged
  intro m
  exact Ending.noConfusion

end Reader

end Reconciliation
