import Reconciliation.Proofs.Progress
import Reconciliation.Proofs.Wear

/-!
# No deadlock

As long as the bus is open, one of those who make up a run can go on: the usher, who takes the
inputs in, the keeper or the body of a task, or a worker (`Engine.exists_step`).  Nobody else is
under way, and whatever they do brings the end nearer.
-/

namespace Reconciliation.Engine

variable {settings : Settings} {ids : IdSource} {clock : Clock} {base : Service}
  {inputs : List Input} {e e' : Engine} {j : Journal} {party : Party}

/-- Those who make up a run. -/
inductive IsMember : Party → Prop where
  | usher : IsMember usher
  | keeper (task : Nat) : IsMember (.keeper task)
  | body (task : Nat) : IsMember (.body task)
  | worker (w : Nat) : IsMember (.worker w)

namespace Orderly

/-- Nobody else is at the runner. -/
theorem isMember_of_runner (h : e.Orderly base inputs j)
    (hparty : party ∈ e.processor.runner.waiting) :
  IsMember party
  := by
  simp only [Runner.waiting, List.mem_append, List.mem_map, h.awaits.line, h.awaits.waits, line,
    waits] at hparty
  rcases hparty with (⟨s, hs, rfl⟩ | ⟨task, -, rfl⟩) | ⟨w, hw, rfl⟩
  · split at hs
    · rw [List.mem_singleton.1 hs]
      exact .usher
    · cases hs
  · exact .keeper task
  · split at hw
    · rw [List.mem_singleton.1 hw]
      exact .usher
    · cases hw

/-- Nobody else is under way. -/
theorem isMember (h : e.Orderly base inputs j) (hnew : base.IsNew) (hparty : party ∈ e.parties) :
  IsMember party
  := by
  have hs := h.runs.sound hnew
  have hpaired := h.runs.paired hnew
  rcases List.mem_append.1 hparty with hparty | hpool
  · rcases List.mem_cons.1 hparty with rfl | hprocessor
    · exact .usher
    · rcases List.mem_append.1 (List.mem_filter.1 hprocessor).1 with hparty | hbody
      · rcases List.mem_append.1 hparty with hpublisher | hrunner
        · obtain ⟨o, ho, rfl⟩ := List.mem_map.1 hpublisher
          obtain ⟨task, id, reader, tally, n, hoffer, -⟩ :=
            Processor.exists_of_mem_waiting hs.keys (hpaired.offers.mem_iff.1 ho)
          rw [hoffer]
          exact .body task
        · exact h.isMember_of_runner hrunner
      · obtain ⟨task, -, rfl⟩ := List.mem_map.1 (List.mem_filter.1 hbody).1
        exact .body task
  · rcases List.mem_append.1 hpool with hstop | hworker
    · rw [h.prompt.stops] at hstop
      cases hstop
    · obtain ⟨w, -, rfl⟩ := List.mem_map.1 hworker
      exact .worker w.1

end Orderly

/-! ### The bus of a run -/

/-- No reply tells the usher that it has closed the bus. -/
theorem closed_of_hear {reply : Option Processor.Reply} (h : (e.hear reply).intake = .closed) :
  (e.hear reply).processor = e.processor ∧ e.intake = .closed
  := by
  unfold hear at h ⊢
  split at h
  · exact ⟨rfl, h⟩
  · split at h
    · cases h
    · exact ⟨rfl, h⟩
  · cases h

/-- The usher has closed the bus when it says so, and nobody opens a bus again. -/
theorem Orderly.isOpen_of_apply (h : e.Orderly base inputs j) (hnew : base.IsNew)
    (hclosed : e.intake = .closed → e.processor.bus.isOpen = false) {a : Action}
    (ha : e.apply a = some e') (hintake : e'.intake = .closed) :
  e'.processor.bus.isOpen = false
  := by
  cases a with
  | upload =>
    simp only [apply] at ha
    split at ha
    · split at ha
      all_goals
        cases ha
        cases hintake
    · cases ha
  | wait =>
    obtain ⟨-, rfl⟩ := apply_wait_eq_some ha
    cases hintake
  | close =>
    obtain ⟨-, rfl⟩ := apply_close_eq_some ha
    rfl
  | processor a =>
    obtain ⟨⟨q, reply⟩, hq, rfl⟩ := Option.map_eq_some_iff.1 ha
    have hmove : (e.service j).session.move (.act a)
        = some { processor := q, journal := j.after e.processor (.act a) } := by
      rw [Session.move_eq_some]
      refine ⟨?_, rfl⟩
      show (e.processor.apply a).map Prod.fst = some q
      rw [hq]
      rfl
    have hbus : ({ e with processor := q }.service (j.after e.processor (.act a))).bus.isOpen
        = (e.service j).bus.isOpen :=
      (h.runs.paired hnew).isOpen_deals (Session.deals_of_action (h.runs.sound hnew) hmove)
    obtain ⟨hprocessor, hsame⟩ := closed_of_hear hintake
    rw [hprocessor]
    exact hbus.trans (hclosed hsame)
  | pool a =>
    obtain ⟨⟨b, pool, answer⟩, hpool, rfl⟩ := Option.map_eq_some_iff.1 ha
    have hopen : b.isOpen = e.processor.bus.isOpen := by
      cases Pool.step_of_apply hpool with
      | ask | receive | dismiss | begin | conclude | retry | abandon | confirm | expire => rfl
    exact hopen.trans (hclosed hintake)

theorem isOpen_of_closed (hserves : ids.Serves (demand inputs))
    (h : system.Reachable (start settings ids clock inputs) e) (hintake : e.intake = .closed) :
  e.processor.bus.isOpen = false
  := by
  induction h with
  | refl => cases hintake
  | step a h ha ih =>
    obtain ⟨j, hj⟩ := exists_orderly hserves h
    exact hj.isOpen_of_apply (isNew_origin settings ids clock) ih ha hintake

/-! ### The next step -/

/-- A run has no deadlock: as long as the bus is open, the usher, the keeper or the body of a task,
or a worker can do something, and there is less to do afterwards. -/
theorem exists_step (settings : Settings) {ids : IdSource} (clock : Clock) {inputs : List Input}
    (hserves : ids.Serves (demand inputs)) {e : Engine}
    (h : system.Reachable (start settings ids clock inputs) e)
    (hopen : e.processor.bus.isOpen = true) :
  ∃ party ∈ e.parties, IsMember party ∧
    ∃ a ∈ options party, ∃ e', e.apply a = some e' ∧ system.work e' < system.work e
  := by
  obtain ⟨j, hj⟩ := exists_orderly hserves h
  have hnew := isNew_origin settings ids clock
  have hintake : e.intake ≠ .closed := by
    intro hintake
    cases (isOpen_of_closed hserves h hintake).symm.trans hopen
  obtain ⟨party, hparty, hcan⟩ := hj.exists_canAct hnew hserves hintake
  obtain ⟨a, ha, e', he'⟩ := System.exists_of_canAct hcan
  exact ⟨party, hparty, hj.isMember hnew hparty, a, ha, e', he',
    wears_start settings clock hserves e e' a h he'⟩

/-! ### A run in which everything is full -/

/-- A statement with three transactions that failed. -/
def failing : Statement :=
  { bytes := "1,a,DEBIT,5,FAILED,\n2,a,DEBIT,5,FAILED,\n3,a,DEBIT,5,FAILED,".toUTF8.toList }

/-- Two statements for one slot, one place on the bus, and one worker. -/
def tightStart : Engine :=
  start { runnerCapacity := 1, busCapacity := 1, consumer := { workers := 1 } } (.unique 0 0)
    (.frozen 7) [{ label := "a.csv", statement := failing },
      { label := "b.csv", statement := failing }]

/-- The worker holds a notice, another one is on the bus, the body waits with a third, and the
usher waits for the slot. -/
def tightActions : List Action :=
  [.upload, .processor (.enter usher), .upload, .processor (.start 0), .pool (.ask 0)] ++
    List.replicate 4 (.processor (.proceed 0)) ++
    [.processor (.accept 0), .pool (.receive 0)] ++
    List.replicate 3 (.processor (.proceed 0)) ++ [.processor (.accept 0)] ++
    List.replicate 3 (.processor (.proceed 0))

/-- The engine in that state. -/
def tightEnd : Engine :=
  (tightActions.foldlM apply tightStart).getD tightStart

theorem reachable_tight :
  system.Reachable tightStart tightEnd
  := by
  have hsome : (tightActions.foldlM apply tightStart).isSome := by decide +kernel
  obtain ⟨e, he⟩ := Option.isSome_iff_exists.1 hsome
  rw [tightEnd, he]
  exact System.reachable_of_foldlM .refl he

theorem exists_step_tight :
  tightEnd.processor.runner.free = 0 ∧
  tightEnd.processor.bus.queue.length = tightEnd.processor.bus.capacity ∧
  tightEnd.processor.bus.offers.length = 1 ∧
  ∃ party ∈ tightEnd.parties, ∃ a ∈ options party, ∃ e', tightEnd.apply a = some e'
  := by
  have hserves : (IdSource.unique 0 0).Serves (demand
      [{ label := "a.csv", statement := failing }, { label := "b.csv", statement := failing }]) :=
    ⟨by decide +kernel, by decide +kernel⟩
  have hstate : tightEnd.processor.bus.isOpen = true ∧ tightEnd.processor.runner.free = 0 ∧
      tightEnd.processor.bus.queue.length = tightEnd.processor.bus.capacity ∧
      tightEnd.processor.bus.offers.length = 1 := by
    decide +kernel
  obtain ⟨hopen, hfree, hqueue, hoffers⟩ := hstate
  obtain ⟨party, hparty, -, a, ha, e', he', -⟩ := exists_step _ _ hserves reachable_tight hopen
  exact ⟨hfree, hqueue, hoffers, party, hparty, a, ha, e', he'⟩

end Reconciliation.Engine
