import Reconciliation.Proofs.Delays
import Reconciliation.Proofs.Diaries
import Reconciliation.Proofs.Retries

/-!
# When calls are repeated

As long as no worker is late, the calls for a notice begin at times that only depend on when the
notice was taken, how long the calls last and how long the delays are (`Diary.start`), whatever the
other workers do (`Chronicle.TimelyRuns.on_schedule`).
-/

namespace Reconciliation

namespace Diary

variable {c : Case} {d : Diary} {delay : Duration} {last n time : Nat}

/-- When a call for the notice begins after so many others that each last as long, and the delays
after them. -/
def start (d : Diary) (delay : Duration) (last n : Nat) : Nat :=
  d.taken + n * last + ∑ j ∈ Finset.range n, (delay.backoff j).toMillisCeil

/-- All calls that have ended lasted as long. -/
def Lasts (d : Diary) (last : Nat) : Prop :=
  ∀ call ∈ d.begun.zip d.ended, call.2 = call.1 + last

instance : Decidable (d.Lasts last) :=
  inferInstanceAs (Decidable (∀ call ∈ d.begun.zip d.ended, call.2 = call.1 + last))

theorem Lasts.ended_eq (h : d.Lasts last) {j begun ended : Nat} (hbegun : d.begun[j]? = some begun)
    (hended : d.ended[j]? = some ended) :
  ended = begun + last
  := h (begun, ended) (List.mem_of_getElem? (List.getElem?_zip_eq_some.2 ⟨hbegun, hended⟩))

theorem start_zero :
  d.start delay last 0 = d.taken
  := by
  simp [start]

theorem start_succ :
  d.start delay last (n + 1) = d.start delay last n + last + (delay.backoff n).toMillisCeil
  := by
  rw [start, start, Finset.sum_range_succ, Nat.succ_mul]
  omega

/-- The delays double. -/
theorem start_ofMillis {base : Nat} (hn : n ≤ 32)
    (hfits : ∀ j < n, base * 2 ^ j ≤ Duration.longest.toMillis) :
  d.start (.ofMillis base) last n = d.taken + n * last + base * (2 ^ n - 1)
  := by
  rw [start, Duration.sum_toMillisCeil_backoff hn hfits]

/-- Each call begins at its time. -/
theorem Tells.eq_start (h : d.Tells delay.backoff c) (hverdicts : c.calls ≤ c.verdicts.length + 1)
    (hlast : d.Lasts last) (htime : d.begun[n]? = some time) :
  time = d.start delay last n
  := by
  induction n generalizing time with
  | zero =>
    rw [start_zero]
    exact h.first time htime
  | succ n ih =>
    have hbegun := (List.getElem?_eq_some_iff.1 htime).1
    have hended : n < d.ended.length := by
      rw [h.ended]
      rw [h.begun] at hbegun
      omega
    have hbefore := List.getElem?_eq_getElem (Nat.lt_of_succ_lt hbegun)
    have hfinish := List.getElem?_eq_getElem hended
    rw [h.later n _ time hfinish htime, hlast.ended_eq hbefore hfinish, ih hbefore, start_succ]

/-- A worker does not leave out a call that is to be repeated. -/
theorem Agrees.lt_calls {p : Pool} {phase : WorkerPhase} (h : d.Agrees p c) (hfate : c.fate = none)
    (hw : p.workers.get? c.worker = some phase)
    (hdesk : Desk p.plan.retries c.worker (some phase) [c]) (hlast : d.Lasts last)
    (hlength : n ≤ c.verdicts.length) (hlate : d.start p.plan.delay last n < p.now) :
  n < c.calls
  := by
  by_contra hcalls
  rw [Nat.not_lt] at hcalls
  have hholding := h.holding hfate
  have hasleep := h.asleep hfate
  rw [hw] at hholding hasleep
  generalize c.worker = w at hdesk
  cases hdesk with
  | holding n' =>
    obtain rfl : n = 0 := Nat.le_zero.1 hlength
    rw [start_zero, hholding _ rfl] at hlate
    exact absurd hlate (Nat.lt_irrefl _)
  | calling _ hattempt =>
    dsimp only at hcalls hlength
    omega
  | @asleep _ attempt due failures _ hattempt =>
    dsimp only at hcalls hlength
    obtain rfl : n = attempt + 1 := by omega
    obtain ⟨hdue, finish, hfinish, rfl⟩ := hasleep _ _ _ rfl
    have hbegun : attempt < d.begun.length := by
      rw [h.begun]
      exact Nat.lt_succ_self attempt
    have hbefore := List.getElem?_eq_getElem hbegun
    have hstart := h.eq_start (by dsimp only; omega) hlast hbefore
    rw [start_succ, ← hstart, ← hlast.ended_eq hbefore hfinish] at hlate
    exact absurd hlate (Nat.not_lt_of_le hdue)

end Diary

namespace Chronicle

variable {s t : Chronicle} {capacity : Nat} {plan : DeliveryPlan} {handler : Handler} {i : Nat}
  {c : Case} {d : Diary}

theorem TimelyRuns.isOrderly (h : (opened capacity plan handler).TimelyRuns s) :
  s.shop.IsOrderly
  := h.shop.runs.isOrderly

theorem TimelyRuns.faithful (h : (opened capacity plan handler).TimelyRuns s) :
  s.Faithful
  := by
  induction h with
  | refl => exact .opened
  | tail hruns hleads ih =>
    obtain ⟨m, htimely, hm⟩ := hleads
    exact ih.step (TimelyRuns.isOrderly hruns) htimely hm

/-- A closed case stays as it is, and so does its diary. -/
theorem TimelyRuns.closed (hs : s.shop.IsOrderly) (hc : s.shop.cases[i]? = some c)
    (hd : s.diaries[i]? = some d) (hfate : c.fate ≠ none) (h : s.TimelyRuns t) :
  t.shop.cases[i]? = some c ∧ t.diaries[i]? = some d
  := by
  induction h with
  | refl => exact ⟨hc, hd⟩
  | tail hruns hleads ih =>
    obtain ⟨m, -, hm⟩ := hleads
    obtain ⟨hcase, hdiary⟩ := ih
    obtain ⟨hshop, hdiaries⟩ := move_eq_some hm
    have horderly := ((TimelyRuns.shop hruns).runs.followed hs hc).1
    obtain ⟨c', hc', hfollows⟩ := Workshop.follows_of_move horderly hshop hcase
    obtain rfl := hfollows.isFollowedBy.closed hfate
    rw [hdiaries, Diary.getElem?_noteAll hcase hdiary hc', Diary.note_self]
    exact ⟨hc', rfl⟩

namespace Faithful

/-- As long as there is no shutdown, a call that is to be repeated is not left out. -/
theorem lt_calls (h : s.Faithful) (hs : s.shop.IsOrderly) (hc : s.shop.cases[i]? = some c)
    (hd : s.diaries[i]? = some d) {last n : Nat} (hlast : d.Lasts last)
    (hup : s.shop.pool.isShutDown = false) (hfate : c.fate ≠ some .duplicate)
    (hn : n ≤ s.shop.pool.plan.retries) (hlength : n ≤ c.verdicts.length)
    (hfailed : (c.verdicts.take n).all Verdict.isFailed)
    (hlate : d.start s.shop.pool.plan.delay last n < s.shop.pool.now) :
  n < c.calls
  := by
  have hmem := List.mem_of_getElem? hc
  cases hclosed : c.fate with
  | none =>
    obtain ⟨hdesk, phase, hw, -⟩ := hs.2.desk_eq hmem hclosed
    have hcase := hs.2.desks c.worker
    rw [hw, hdesk] at hcase
    exact (h.agrees i c d hc hd).lt_calls hclosed hw hcase hlast hlength hlate
  | some fate =>
    obtain ⟨hexplains, hverdicts⟩ := hs.2.closed c hmem fate hclosed
    by_contra hcalls
    rw [List.take_of_length_le (by omega)] at hfailed
    rcases hexplains.eq_of_failed hfailed (by omega) with rfl | rfl
    · exact hfate hclosed
    · have hdown := hs.2.abandoned c hmem hclosed
      rw [hup] at hdown
      cases hdown

theorem length_begun (h : s.Faithful) {entry : Case × Diary}
    (hentry : entry ∈ s.shop.cases.zip s.diaries) :
  entry.2.begun.length = entry.1.calls
  := by
  obtain ⟨i, hi⟩ := List.mem_iff_getElem?.1 hentry
  obtain ⟨hc, hd⟩ := List.getElem?_zip_eq_some.1 hi
  exact (h.agrees i _ _ hc hd).begun

/-- A case that was not tried has noted no call for its event. -/
theorem filter_eq_nil (h : s.Faithful) {entry : Case × Diary} {e : String}
    (hentry : entry ∈ s.shop.cases.zip s.diaries)
    (hcalls : entry.1.notice.event = e → entry.1.calls = 0) :
  ((entry.2.begun.map fun time => (entry.1.notice, time)).filter fun call => call.1.event == e)
    = []
  := by
  rw [List.filter_eq_nil_iff]
  intro call hcall hsame
  obtain ⟨time, htime, rfl⟩ := List.mem_map.1 hcall
  have hlength := (h.length_begun hentry).trans (hcalls (eq_of_beq hsame))
  rw [List.eq_nil_of_length_eq_zero hlength] at htime
  cases htime

/-- The calls for an event are those that the diary of its case has. -/
theorem calls_perm (h : s.Faithful) (hknown : s.shop.Known) (hc : s.shop.cases[i]? = some c)
    (hd : s.diaries[i]? = some d) (hevent : c.notice.event ≠ "") (hcalls : c.calls ≠ 0) :
  ((s.shop.pool.calls.filter fun call => call.notice.event == c.notice.event).map Call.time).Perm
    d.begun
  := by
  have hentry : (c, d) ∈ s.shop.cases.zip s.diaries :=
    List.mem_of_getElem? (List.getElem?_zip_eq_some.2 ⟨hc, hd⟩)
  obtain ⟨before, after, hzip⟩ := List.append_of_mem hentry
  have hcases : s.shop.cases = before.map Prod.fst ++ c :: after.map Prod.fst := by
    rw [← List.map_fst_zip (Nat.le_of_eq h.length.symm), hzip, List.map_append, List.map_cons]
  have hothers := (hknown.handledFor_eq hcases hevent hcalls).2
  rw [← List.map_append] at hothers
  have hnone : ∀ entry ∈ before ++ after,
      ((entry.2.begun.map fun time => (entry.1.notice, time)).filter
        fun call => call.1.event == c.notice.event) = [] := by
    intro entry hmem
    apply h.filter_eq_nil
    · rw [hzip]
      exact List.perm_middle.mem_iff.2 (List.mem_cons_of_mem _ hmem)
    · exact hothers entry.1 (List.mem_map_of_mem hmem)
  have hdiaries : ((Diary.calls s.shop.cases s.diaries).filter
      fun call => call.1.event == c.notice.event) = d.begun.map fun time => (c.notice, time) := by
    rw [Diary.calls, hzip, List.filter_flatMap, List.flatMap_append, List.flatMap_cons,
      List.flatMap_eq_nil_iff.2 fun entry hmem => hnone entry (List.mem_append_left _ hmem),
      List.flatMap_eq_nil_iff.2 fun entry hmem => hnone entry (List.mem_append_right _ hmem),
      List.nil_append, List.append_nil, List.filter_eq_self]
    intro call hcall
    obtain ⟨time, -, rfl⟩ := List.mem_map.1 hcall
    exact beq_self_eq_true _
  have hperm := (h.calls.filter fun call => call.1.event == c.notice.event).map Prod.snd
  rw [hdiaries, List.filter_map, List.map_map, List.map_map] at hperm
  simpa [Function.comp_def] using hperm

end Faithful

/-- As long as no worker is late, each call for a notice begins at its time, whatever the other
workers do, and the delays between calls double.  Unless the pool is shut down, no call is left out:
one that is to be repeated has begun once its time is over.  No call follows one that did not fail,
or the last one that the plan allows, and when a worker is done with a notice nothing more is called
for it.  What the diaries have are the calls of the handler. -/
theorem TimelyRuns.on_schedule (h : (opened capacity plan handler).TimelyRuns s) {base last : Nat}
    (hbase : 0 < base) (hdelay : plan.delay = .ofMillis base) (hc : s.shop.cases[i]? = some c)
    (hd : s.diaries[i]? = some d) (hlast : d.Lasts last) :
  (∀ n time, d.begun[n]? = some time → time = d.start plan.delay last n) ∧
  (∀ n ≤ 32, (∀ j < n, base * 2 ^ j ≤ Duration.longest.toMillis) →
    d.start plan.delay last n = d.taken + n * last + base * (2 ^ n - 1)) ∧
  (s.shop.pool.isShutDown = false → c.fate ≠ some .duplicate → ∀ n ≤ min plan.retries 64,
    n ≤ c.verdicts.length → (c.verdicts.take n).all Verdict.isFailed →
    d.start plan.delay last n < s.shop.pool.now →
    d.begun[n]? = some (d.start plan.delay last n)) ∧
  (d.begun.length = c.calls ∧ c.IsRetried (min plan.retries 64)) ∧
  (c.fate ≠ none → ∀ t, s.TimelyRuns t → t.shop.cases[i]? = some c ∧ t.diaries[i]? = some d) ∧
  (s.shop.pool.calls.map fun call => (call.notice, call.time)).Perm
    (Diary.calls s.shop.cases s.diaries) ∧
  (c.notice.event ≠ "" → 0 < c.calls →
    ((s.shop.pool.calls.filter fun call => call.notice.event == c.notice.event).map
      Call.time).Perm d.begun)
  := by
  have hs := h.isOrderly
  have hfaithful := h.faithful
  have hagrees := hfaithful.agrees i c d hc hd
  have hplan := h.shop.runs.settings.1
  have hpace : s.shop.pool.plan.delay = plan.delay := by
    rw [hplan, DeliveryPlan.normalized, hdelay]
    exact if_neg (Duration.ofMillis_ne_zero hbase)
  have hretries : s.shop.pool.plan.retries = min plan.retries 64 := by
    rw [hplan]
    rfl
  have hretried := hs.2.isRetried (List.mem_of_getElem? hc)
  have hstart : ∀ n time, d.begun[n]? = some time → time = d.start plan.delay last n := by
    intro n time htime
    rw [← hpace]
    exact hagrees.eq_start hretried.verdicts hlast htime
  refine ⟨hstart, fun n hn hfits => ?_, fun hup hfate n hn hlength hfailed hlate => ?_,
    ⟨hagrees.begun, hretries ▸ hretried⟩, fun hfate t => TimelyRuns.closed hs hc hd hfate,
    hfaithful.calls, fun hevent hcalls => ?_⟩
  · rw [hdelay]
    exact Diary.start_ofMillis hn hfits
  · rw [← hpace] at hlate
    rw [← hretries] at hn
    have hlt := hfaithful.lt_calls hs hc hd hlast hup hfate hn hlength hfailed hlate
    rw [← hagrees.begun] at hlt
    have hbegun := List.getElem?_eq_getElem hlt
    rw [hbegun, hstart n _ hbegun]
  · exact hfaithful.calls_perm h.shop.runs.known hc hd hevent (Nat.ne_of_gt hcalls)

/-! ### A notice that is tried in vain -/

/-- The handler refuses all notices, and takes its time. -/
def stubborn : Handler where
  verdict n _ := .failed (.unreconciled n.event "down")
  millis := 30

/-- There are two workers, and calls are repeated twice. -/
def steadyStart : Chronicle :=
  .opened 1 { workers := 2, retries := 2, delay := .ofMillis 100 } stubborn

/-- Two workers try one notice each, and the delays overlap. -/
def steadyMoves : List Workshop.Move :=
  [.start, .pass 5] ++ Workshop.publishing "a" ++ Workshop.taking 0 ++ [.pass 20] ++
    Workshop.publishing "b" ++ Workshop.taking 1 ++
    [.pass 10, .work (.conclude 0), .pass 20, .work (.conclude 1), .pass 80, .work (.retry 0),
      .pass 20, .work (.retry 1), .pass 10, .work (.conclude 0), .pass 20, .work (.conclude 1),
      .pass 180, .work (.retry 0), .pass 1]

/-- The chronicle in the end. -/
def steadyEnd : Chronicle :=
  (steadyMoves.foldlM timelyMove steadyStart).getD steadyStart

theorem runs_steady :
  steadyStart.TimelyRuns steadyEnd
  := by
  apply timelyRuns_of_isSome
  decide +kernel

theorem on_schedule_steady :
  steadyEnd.diaries.map Diary.begun = [[5, 135, 365], [25, 155]] ∧
  (∃ d, steadyEnd.diaries[0]? = some d ∧ d.taken = 5 ∧ d.Lasts 30 ∧
    d.begun[2]? = some (d.start (.ofMillis 100) 30 2) ∧
    d.start (.ofMillis 100) 30 2 = 5 + 2 * 30 + 100 * (2 ^ 2 - 1)) ∧
  ((steadyEnd.shop.pool.calls.filter fun call => call.notice.event == "a").map Call.time).Perm
    [5, 135, 365]
  := by
  have hc : steadyEnd.shop.cases[0]? = some
      { worker := 0, notice := Exchange.noticeOf "a", calls := 3,
        verdicts := List.replicate 2 (.failed (.unreconciled "a" "down")) } := by
    decide +kernel
  have hd : steadyEnd.diaries[0]? = some
      { taken := 5, begun := [5, 135, 365], ended := [35, 165] } := by
    decide +kernel
  have hlast : Diary.Lasts { taken := 5, begun := [5, 135, 365], ended := [35, 165] } 30 := by
    decide
  obtain ⟨-, hsum, hcall, -, -, -, hlog⟩ :=
    TimelyRuns.on_schedule runs_steady (Nat.succ_pos 99) rfl hc hd hlast
  refine ⟨by decide +kernel, ⟨_, hd, rfl, hlast, ?_, hsum 2 (by decide) (by decide)⟩,
    hlog (by decide) (by decide)⟩
  apply hcall
  · decide +kernel
  · decide +kernel
  · decide +kernel
  · decide +kernel
  · decide +kernel
  · decide +kernel

end Chronicle

end Reconciliation
