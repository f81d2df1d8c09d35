import Reconciliation.Proofs.Answers
import Reconciliation.Proofs.Bodies
import Reconciliation.Proofs.Delivery
import Reconciliation.Proofs.Intake
import Reconciliation.Proofs.System

/-!
# No run gets stuck

As long as the bus is open somebody can act (`Engine.Orderly.exists_canAct`).  What a party waits
for is always up to another one: the usher waits for a task to give back its slot or to end, a
task that waits at the full bus waits for a worker to take a notice, and a worker waits for nobody
while there are notices.
-/

namespace Reconciliation

/-! ### Bodies at the bus -/

namespace Processor

variable {p : Processor} {task : Nat} {id : String}

/-- The first publisher at the bus goes on, if there is room. -/
theorem isSome_accept {o : Offer} {offers : List Offer} {reader : Reader} {tally : Tally}
    {n : Notice} (hoffers : p.bus.offers = o :: offers) (ho : o.publisher = .body task)
    (hroom : p.bus.queue.length < p.bus.capacity)
    (hjob : p.jobs.get? task
      = some { upload := id, stage := .publishing reader tally n }) :
  (p.apply (.accept task)).isSome
  := by
  have haccept : p.bus.accept? (.body task)
      = some { p.bus with offers, queue := p.bus.queue ++ [o.notice] } := by
    rw [Bus.accept?, hoffers]
    exact if_pos ⟨ho, hroom⟩
  simp only [apply, leaveBus, haccept, hjob]
  rfl

end Processor

/-! ### Workers that can go on -/

namespace Pool

variable {b : Bus} {p : Pool} {w : Nat} {phase : WorkerPhase}

/-- While there are notices, every worker that is not over goes on, or waits behind one that
does. -/
theorem exists_action (hclean : p.IsClean) (hprompt : p.IsPrompt)
    (hkeys : (p.workers.map Prod.fst).Nodup) (htakers : b.takers.Perm p.waiting)
    (hqueue : b.queue ≠ []) (hw : p.workers.get? w = some phase) (hphase : phase ≠ .ended) :
  ∃ k phase a, p.workers.get? k = some phase ∧ phase.isOver = false ∧
    a ∈ options (.worker k) ∧ (p.apply b a).isSome
  := by
  cases phase with
  | idle =>
    refine ⟨w, _, .ask w, hw, rfl, by simp [options], ?_⟩
    simp [apply, hw]
  | waiting =>
    have hmem : .worker w ∈ b.takers := by
      rw [htakers.mem_iff]
      exact List.mem_flatMap.2 ⟨_, Keyed.mem_of_get? hw, List.mem_singleton_self _⟩
    obtain ⟨first, takers, hfirst⟩ := List.exists_cons_of_ne_nil (List.ne_nil_of_mem hmem)
    have hwaiting : first ∈ p.waiting := by
      rw [← htakers.mem_iff, hfirst]
      exact List.mem_cons_self
    obtain ⟨⟨k, taker⟩, hk, htaker⟩ := List.mem_flatMap.1 hwaiting
    have htaker := Option.mem_toList.1 htaker
    obtain ⟨n, queue, hn⟩ := List.exists_cons_of_ne_nil hqueue
    cases taker with
    | waiting =>
      cases htaker
      refine ⟨k, _, .receive k, Keyed.get?_of_mem hkeys hk, rfl, by simp [options], ?_⟩
      simp [apply, Bus.take?, hfirst, hn]
    | idle | holding | calling | asleep | ended | crashed => cases htaker
  | holding n =>
    refine ⟨w, _, .begin w, hw, rfl, by simp [options], ?_⟩
    simp [apply, hw]
  | calling n attempt nth finish =>
    have hdue : finish ≤ p.now := hprompt.due w _ hw
    refine ⟨w, _, .conclude w, hw, rfl, by simp [options], ?_⟩
    simp [apply, hw, hdue]
  | asleep n attempt due => cases hclean.calm w _ hw
  | ended => exact absurd rfl hphase
  | crashed => cases hclean.calm w _ hw

end Pool

namespace Engine

variable {base : Service} {inputs : List Input} {e e' : Engine} {j : Journal} {party : Party}

/-! ### Parties -/

theorem canAct_of_processor {a : Processor.Action} (ha : a ∈ Processor.options party)
    (h : (e.processor.apply a).isSome) :
  system.canAct e party
  := by
  obtain ⟨⟨q, reply⟩, hq⟩ := Option.isSome_iff_exists.1 h
  apply System.canAct_of_mem (a := .processor a) (t := { e with processor := q }.hear reply)
  · simp [system, options, ha]
  · show Option.map _ (e.processor.apply a) = _
    rw [hq]
    rfl

theorem canAct_of_pool {a : Pool.Action} (ha : a ∈ Pool.options party)
    (h : (e.pool.apply e.processor.bus a).isSome) :
  system.canAct e party
  := by
  obtain ⟨⟨b, pool, answer⟩, hpool⟩ := Option.isSome_iff_exists.1 h
  apply System.canAct_of_mem (a := .pool a)
    (t := { e with processor := { e.processor with bus := b }, pool })
  · simp [system, options, ha]
  · show Option.map _ (e.pool.apply e.processor.bus a) = _
    rw [hpool]
    rfl

theorem canAct_usher {a : Action} (ha : a ∈ [Action.upload, .wait, .close])
    (h : e.apply a = some e') :
  system.canAct e usher
  := by
  apply System.canAct_of_mem (a := a) _ h
  exact List.mem_append_left _ (List.mem_append_left _ ha)

theorem usher_mem_parties (e : Engine) :
  usher ∈ e.parties
  := List.mem_cons_self

theorem mem_parties_of_processor (h : party ∈ e.processor.parties) (hne : party ≠ usher) :
  party ∈ e.parties
  := by
  apply List.mem_cons_of_mem
  apply List.mem_append_left
  rw [List.mem_filter]
  exact ⟨h, by simpa using hne⟩

theorem worker_mem_parties {w : Nat} {phase : WorkerPhase}
    (h : e.pool.workers.get? w = some phase) (hover : phase.isOver = false) :
  .worker w ∈ e.parties
  := by
  apply List.mem_cons_of_mem
  apply List.mem_append_right
  apply List.mem_append_right
  refine List.mem_map.2 ⟨(w, phase), List.mem_filter.2 ⟨Keyed.mem_of_get? h, ?_⟩, rfl⟩
  simp [hover]

theorem keeper_mem_parties {task : Nat} (h : task ∈ e.processor.runner.underWay) :
  .keeper task ∈ e.parties
  := by
  refine mem_parties_of_processor ?_ nofun
  simp only [Processor.parties, Runner.waiting, List.mem_append, List.mem_map]
  exact .inl (.inr (.inl (.inr ⟨task, h, rfl⟩)))

theorem body_mem_parties {task : Nat} (h : task ∈ e.processor.runner.underWay) :
  .body task ∈ e.parties
  := by
  refine mem_parties_of_processor ?_ nofun
  by_cases hpublisher : .body task ∈ e.processor.bus.offers.map Offer.publisher
  · exact List.mem_append_left _ (List.mem_append_left _ hpublisher)
  · apply List.mem_append_right
    rw [List.mem_filter]
    exact ⟨List.mem_map_of_mem h, by simpa using hpublisher⟩

theorem publisher_mem_parties {o : Offer} {task : Nat} (h : o ∈ e.processor.bus.offers)
    (ho : o.publisher = .body task) :
  .body task ∈ e.parties
  := by
  refine mem_parties_of_processor ?_ nofun
  apply List.mem_append_left
  apply List.mem_append_left
  exact List.mem_map.2 ⟨o, h, ho⟩

/-! ### Nobody is stuck -/

namespace Orderly

/-- No identity that was drawn came twice, and none is empty. -/
theorem isDistinct (h : e.Orderly base inputs j) (hnew : base.IsNew)
    (hserves : base.session.processor.ids.Serves (demand inputs)) :
  (e.service j).session.IsDistinct
  := by
  obtain ⟨hunique, hnodup⟩ := h.drawn hnew hserves
  exact ⟨hnodup, fun hmem => ne_empty_of_isUniqueId (hunique "" hmem) rfl⟩

/-- While the bus is open, a worker goes on if there are notices on it. -/
theorem exists_worker (h : e.Orderly base inputs j) (hnew : base.IsNew)
    (hserves : base.session.processor.ids.Serves (demand inputs))
    (hopen : e.processor.bus.isOpen) (hqueue : e.processor.bus.queue ≠ []) :
  ∃ party ∈ e.parties, system.canAct e party
  := by
  have hpaired := h.runs.paired hnew
  have hclean := (h.runs.delivers hnew (h.isDistinct hnew hserves)).clean
  obtain ⟨⟨w, phase⟩, hmem⟩ := List.exists_mem_of_ne_nil _ h.prompt.workers
  have hw : e.pool.workers.get? w = some phase := Keyed.get?_of_mem hpaired.keys hmem
  have hphase : phase ≠ .ended := by
    rintro rfl
    have hclosed : e.processor.bus.isOpen = false := (hpaired.ended w hw).1
    rw [hopen] at hclosed
    cases hclosed
  obtain ⟨k, other, a, hk, hover, ha, happly⟩ :=
    Pool.exists_action hclean h.prompt hpaired.keys hpaired.takers hqueue hw hphase
  exact ⟨.worker k, worker_mem_parties hk hover, canAct_of_pool ha happly⟩

/-- While the bus is open, somebody goes on if a task waits there. -/
theorem exists_publisher (h : e.Orderly base inputs j) (hnew : base.IsNew)
    (hserves : base.session.processor.ids.Serves (demand inputs))
    (hopen : e.processor.bus.isOpen) (hoffers : e.processor.bus.offers ≠ []) :
  ∃ party ∈ e.parties, system.canAct e party
  := by
  have hs := h.runs.sound hnew
  have hpaired := h.runs.paired hnew
  obtain ⟨o, offers, ho⟩ := List.exists_cons_of_ne_nil hoffers
  have hmem : o ∈ e.processor.bus.offers := by
    rw [ho]
    exact List.mem_cons_self
  obtain ⟨task, id, reader, tally, n, hoffer, hjob⟩ :=
    Processor.exists_of_mem_waiting hs.keys (hpaired.offers.mem_iff.1 hmem)
  have hpublisher : o.publisher = .body task := by
    rw [hoffer]
    rfl
  by_cases hroom : e.processor.bus.queue.length < e.processor.bus.capacity
  · refine ⟨.body task, publisher_mem_parties hmem hpublisher, ?_⟩
    apply canAct_of_processor (a := .accept task)
    · simp [Processor.options]
    · exact Processor.isSome_accept ho hpublisher hroom hjob
  · apply h.exists_worker hnew hserves hopen
    intro hqueue
    have hcapacity : 0 < e.processor.bus.capacity := hpaired.room
    rw [hqueue, List.length_nil] at hroom
    exact hroom hcapacity

/-- While the bus is open, somebody goes on if a task is not over. -/
theorem exists_of_phase (h : e.Orderly base inputs j) (hnew : base.IsNew)
    (hserves : base.session.processor.ids.Serves (demand inputs))
    (hopen : e.processor.bus.isOpen) {task : Nat} {phase : TaskPhase}
    (hphase : e.processor.runner.phase? task = some phase) (hover : phase.isOver = false) :
  ∃ party ∈ e.parties, system.canAct e party
  := by
  have hunderWay := Runner.mem_underWay hphase hover
  rcases h.runs.session.goesOn hnew.session hphase hover with
    ⟨job, hjob, hwaits⟩ | ⟨party, hparty, a, ha, happly⟩
  · apply h.exists_publisher hnew hserves hopen
    obtain ⟨o, ho⟩ := Option.isSome_iff_exists.1 hwaits
    have hmem : o ∈ (e.service j).session.processor.waiting :=
      List.mem_flatMap.2 ⟨_, Keyed.mem_of_get? hjob, Option.mem_toList.2 ho⟩
    have hoffers := (h.runs.paired hnew).offers.mem_iff.2 hmem
    exact List.ne_nil_of_mem hoffers
  · refine ⟨party, ?_, canAct_of_processor ha happly⟩
    rcases hparty with rfl | rfl
    · exact keeper_mem_parties hunderWay
    · exact body_mem_parties hunderWay

/-- Somebody can act as long as the bus is open. -/
theorem exists_canAct (h : e.Orderly base inputs j) (hnew : base.IsNew)
    (hserves : base.session.processor.ids.Serves (demand inputs))
    (hintake : e.intake ≠ .closed) :
  ∃ party ∈ e.parties, system.canAct e party
  := by
  have hs := h.runs.sound hnew
  have hopen := h.awaits.isOpen hintake
  cases hcase : e.intake with
  | ready rest =>
    cases rest with
    | nil =>
      have happly : (e.apply .wait).isSome := by
        simp only [apply, hcase]
        rfl
      obtain ⟨e', he'⟩ := Option.isSome_iff_exists.1 happly
      exact ⟨usher, usher_mem_parties e, canAct_usher (by simp) he'⟩
    | cons input rest =>
      have happly : (e.apply .upload).isSome := by
        simp only [apply, hcase]
        split
        · rfl
        · rfl
      obtain ⟨e', he'⟩ := Option.isSome_iff_exists.1 happly
      exact ⟨usher, usher_mem_parties e, canAct_usher (by simp) he'⟩
  | entering label rest =>
    by_cases hfree : 0 < e.processor.runner.free
    · refine ⟨usher, usher_mem_parties e, ?_⟩
      apply canAct_of_processor (a := .enter usher)
      · simp [Processor.options, usher]
      · have hline := h.awaits.line
        rw [line, hcase] at hline
        simp [Processor.apply, Runner.enter?, hline, hfree]
    · have hslots := h.awaits.steady.slots
      have hroom := h.awaits.steady.room
      obtain ⟨task, phase, hphase, hover⟩ :=
        Runner.exists_of_taken hs.numbered.keys (r := e.processor.runner) (by omega)
      exact h.exists_of_phase hnew hserves hopen hphase hover
  | waiting =>
    have hwaits := h.awaits.waits
    rw [waits, hcase] at hwaits
    by_cases hall : (e.processor.runner.tasks.map Prod.fst).all e.processor.runner.isOver
    · refine ⟨usher, usher_mem_parties e, ?_⟩
      apply canAct_of_processor (a := .report usher)
      · simp [Processor.options, usher]
      · simp only [Processor.apply, Runner.report?, hwaits, Option.isSome_map]
        simp only [List.find?_cons_of_pos, beq_self_eq_true, hall, if_true]
        rfl
    · rw [List.all_eq_true] at hall
      obtain ⟨task, hnot⟩ := Classical.not_forall.1 hall
      obtain ⟨htask, hover⟩ := Classical.not_imp.1 hnot
      obtain ⟨phase, hphase⟩ := Runner.exists_phase?_iff.2 htask
      rw [Runner.isOver, hphase] at hover
      exact h.exists_of_phase hnew hserves hopen hphase (Bool.not_eq_true _ ▸ hover)
  | processed =>
    have happly : (e.apply .close).isSome := by
      simp only [apply, hcase]
      rfl
    obtain ⟨e', he'⟩ := Option.isSome_iff_exists.1 happly
    exact ⟨usher, usher_mem_parties e, canAct_usher (by simp) he'⟩
  | closed => exact absurd hcase hintake
  | refused f => exact absurd hcase (h.awaits.unrefused f)

end Orderly

end Engine

end Reconciliation
