import Reconciliation.Proofs.Casework

/-!
# When there is no more to do

Workers, publishers that wait and callers who stop the pool go on when they can, some of them only
after some time.  Each of them leaves less to do (`Workshop.work`), so that they come to a state in
which nobody will go on any more (`Workshop.IsQuiet`).  Then every notice that was taken has met its
fate, and if there are workers that no panic has ended, every notice that was accepted was taken.
-/

namespace Reconciliation

namespace Exchange

variable {x y : Exchange}

theorem bus_after (x : Exchange) (a : Bus.Action) (bus : Bus) (reply : Option Bus.Reply) :
  (x.after a bus reply).bus = bus
  := by
  unfold after
  split
  · next reply _ =>
    cases reply with
    | _ => rfl
  · rfl

theorem bus_of_move {a : Bus.Action} {bus : Bus} {reply : Option Bus.Reply}
    (happly : x.bus.apply a = some (bus, reply)) (hmove : x.move a = some y) :
  y.bus = bus
  := by
  obtain ⟨-, bus', reply', happly', rfl⟩ := move_eq_some hmove
  cases happly.symm.trans happly'
  exact x.bus_after a bus reply

/-- The bus of the exchange is that of the workers. -/
theorem bus_of_follow {p p' : Pool} {a : Pool.Action} {bus : Bus}
    {answer : Option (Except Fault Unit)} (happly : p.apply x.bus a = some (bus, p', answer))
    (hfollow : x.follow a = some y) :
  y.bus = bus
  := by
  cases a with
  | ask w =>
    obtain ⟨-, rfl, -⟩ := Pool.apply_ask_eq_some happly
    exact bus_of_move rfl hfollow
  | receive w =>
    obtain ⟨⟨n, bus'⟩, htake, heq⟩ := Option.map_eq_some_iff.1 happly
    cases heq
    exact bus_of_move (by rw [Bus.apply, htake]; rfl) hfollow
  | dismiss w =>
    obtain ⟨bus', hfinish, heq⟩ := Option.map_eq_some_iff.1 happly
    cases heq
    exact bus_of_move (by rw [Bus.apply, hfinish]; rfl) hfollow
  | begin w =>
    obtain ⟨_, -, rfl, -⟩ := Pool.apply_begin_eq_some happly
    cases hfollow
    rfl
  | conclude w =>
    obtain ⟨_, _, _, _, -, -, rfl, -⟩ := Pool.apply_conclude_eq_some happly
    cases hfollow
    rfl
  | retry w =>
    obtain ⟨_, _, _, -, -, rfl, -⟩ := Pool.apply_retry_eq_some happly
    cases hfollow
    rfl
  | abandon w =>
    obtain ⟨_, _, _, -, -, rfl, -⟩ := Pool.apply_abandon_eq_some happly
    cases hfollow
    rfl
  | confirm caller =>
    obtain ⟨_, -, -, -, rfl, -⟩ := Pool.apply_confirm_eq_some happly
    cases hfollow
    rfl
  | expire caller =>
    obtain ⟨_, -, -, -, rfl, -⟩ := Pool.apply_expire_eq_some happly
    cases hfollow
    rfl

end Exchange

namespace Pool

variable {p : Pool}

theorem mem_waiting {w : Nat} (hw : p.workers.get? w = some .waiting) :
  .worker w ∈ p.waiting
  := List.mem_flatMap.2 ⟨(w, .waiting), Keyed.mem_of_get? hw, List.mem_singleton_self _⟩

/-- Only workers wait for notices. -/
theorem exists_of_mem_waiting {party : Party} (h : party ∈ p.waiting) :
  ∃ w, party = .worker w
  := by
  obtain ⟨⟨w, phase⟩, -, htaker⟩ := List.mem_flatMap.1 h
  have htaker := Option.mem_toList.1 htaker
  cases phase with
  | waiting =>
    cases htaker
    exact ⟨w, rfl⟩
  | idle | holding | calling | asleep | ended | crashed => cases htaker

end Pool

namespace Workshop

variable {s t : Workshop}

/-- The move is one of those who go on by themselves: workers, publishers that wait and callers who
stop the pool. -/
def Move.isOwn : Move → Bool
  | .work _ => true
  | .bus (.accept _) | .bus (.withdraw _) => true
  | .bus _ | .start | .shutDown | .stop _ _ | .pass _ => false

/-- The workshop after some time. -/
def passed (s : Workshop) (millis : Nat) : Workshop :=
  { s with pool := s.pool.passTo (s.pool.now + millis) }

/-- After some time one of those who can goes on. -/
def Proceeds (s t : Workshop) : Prop :=
  ∃ (millis : Nat) (m : Move), m.isOwn ∧ (s.passed millis).move m = some t

/-- Those who can go on, as often as they like. -/
def Settles : Workshop → Workshop → Prop :=
  Relation.ReflTransGen Proceeds

/-- Nobody will go on any more. -/
def IsQuiet (s : Workshop) : Prop :=
  ∀ t, ¬ s.Proceeds t

/-- One of those who can goes on at once. -/
def GoesOn (s t : Workshop) : Prop :=
  ∃ m : Move, m.isOwn ∧ s.move m = some t

/-- Nobody goes on before some time has passed or something is done from outside. -/
def IsStill (s : Workshop) : Prop :=
  ∀ t, ¬ s.GoesOn t

theorem GoesOn.proceeds (h : s.GoesOn t) :
  s.Proceeds t
  := by
  obtain ⟨m, hown, hm⟩ := h
  exact ⟨0, m, hown, hm⟩

theorem IsQuiet.isStill (h : s.IsQuiet) :
  s.IsStill
  := by
  intro t hgoes
  exact h t hgoes.proceeds

theorem Proceeds.runs (h : s.Proceeds t) :
  s.Runs t
  := by
  obtain ⟨millis, m, -, hm⟩ := h
  exact .tail (.single ⟨.pass millis, rfl⟩) ⟨m, hm⟩

theorem Settles.runs (h : s.Settles t) :
  s.Runs t
  := by
  induction h with
  | refl => exact .refl
  | tail _ hproceeds ih => exact ih.trans hproceeds.runs

/-! ### Less and less to do -/

/-- A bound on the number of moves that are left to those who can go on. -/
def work (s : Workshop) : Nat :=
  s.bus.offers.length + s.pool.work (s.bus.offers.length + s.bus.queue.length)

theorem Filed.isBounded (h : s.Filed) :
  s.pool.IsBounded
  := by
  intro w phase hw
  have hdesk := h.desks w
  rw [hw] at hdesk
  exact hdesk.isWithin

/-- Whoever goes on leaves less to do. -/
theorem Staffed.work_lt_of_move (h : s.Staffed) (hfiled : s.Filed) {m : Move} (hm : m.isOwn)
    (hmove : s.move m = some t) :
  t.work < s.work
  := by
  cases m with
  | start | shutDown | stop | pass => cases hm
  | work a =>
    obtain ⟨⟨bus, pool, answer⟩, happly, hmove⟩ := Option.bind_eq_some_iff.1 hmove
    obtain ⟨exchange, hfollow, hmove⟩ := Option.bind_eq_some_iff.1 hmove
    cases hmove
    have hbus := Exchange.bus_of_follow happly hfollow
    have hstep := Pool.step_of_apply happly
    have hlt := Pool.work_lt hstep hfiled.isBounded h.keys (fun w takers => h.get?_of_takers)
      s.bus.offers.length
    have hoffers : bus.offers = s.bus.offers := by
      cases hstep with
      | ask | receive | dismiss | begin | conclude | retry | abandon | confirm | expire => rfl
    show exchange.bus.offers.length + pool.work (exchange.bus.offers.length +
      exchange.bus.queue.length) < s.work
    rw [hbus, hoffers]
    exact Nat.add_lt_add_left hlt _
  | bus a =>
    cases a with
    | publish | next | take | finish | close | fire => cases hm
    | accept p =>
      obtain ⟨exchange, hexchange, rfl⟩ := Option.map_eq_some_iff.1 hmove
      obtain ⟨-, bus, reply, happly, rfl⟩ := Exchange.move_eq_some hexchange
      obtain ⟨bus', haccept, heq⟩ := Option.map_eq_some_iff.1 happly
      cases heq
      obtain ⟨o, offers, hoffers, -, -, rfl⟩ := Bus.accept?_eq_some haccept
      have hoffers : s.bus.offers = o :: offers := hoffers
      have hsum : offers.length + (s.bus.queue ++ [o.notice]).length
          = s.bus.offers.length + s.bus.queue.length := by
        simp only [hoffers, List.length_append, List.length_cons, List.length_nil]
        omega
      show offers.length + s.pool.work (offers.length + (s.bus.queue ++ [o.notice]).length)
        < s.work
      rw [hsum, work, hoffers, List.length_cons]
      exact Nat.add_lt_add_right (Nat.lt_succ_self _) _
    | withdraw p =>
      obtain ⟨exchange, hexchange, rfl⟩ := Option.map_eq_some_iff.1 hmove
      obtain ⟨-, bus, reply, happly, rfl⟩ := Exchange.move_eq_some hexchange
      obtain ⟨bus', hwithdraw, heq⟩ := Option.map_eq_some_iff.1 happly
      cases heq
      obtain ⟨o, ho, hp, -, rfl⟩ := Bus.withdraw?_eq_some hwithdraw
      have hlength := List.length_eraseP_of_mem (p := fun o => o.publisher == p) ho
        (by simpa using hp)
      have hpos := List.length_pos_of_mem ho
      have hlt : (s.bus.offers.eraseP (fun o => o.publisher == p)).length
          < s.bus.offers.length := by
        show (s.exchange.bus.offers.eraseP _).length < s.exchange.bus.offers.length
        omega
      have hmono := s.pool.work_mono (Nat.add_le_add_right (Nat.le_of_lt hlt) s.bus.queue.length)
      exact Nat.add_lt_add_of_lt_of_le hlt hmono

/-- Workers and cases are in order. -/
def IsOrderly (s : Workshop) : Prop :=
  s.Staffed ∧ s.Filed

theorem Runs.isOrderly {capacity : Nat} {plan : DeliveryPlan} {handler : Handler}
    (h : (opened capacity plan handler).Runs s) :
  s.IsOrderly
  := ⟨h.staffed, h.filed⟩

theorem IsOrderly.step (h : s.IsOrderly) (hstep : s.Step t) :
  t.IsOrderly
  := ⟨h.1.step hstep, h.2.step h.1 hstep⟩

theorem IsOrderly.passed (h : s.IsOrderly) (millis : Nat) :
  (s.passed millis).IsOrderly
  := h.step (.pass millis)

theorem IsOrderly.proceeds (h : s.IsOrderly) (hproceeds : s.Proceeds t) :
  t.IsOrderly
  := by
  obtain ⟨millis, m, -, hm⟩ := hproceeds
  exact (h.passed millis).step (step_of_move hm)

theorem IsOrderly.work_lt (h : s.IsOrderly) (hproceeds : s.Proceeds t) :
  t.work < s.work
  := by
  obtain ⟨millis, m, hown, hm⟩ := hproceeds
  obtain ⟨hstaffed, hfiled⟩ := h.passed millis
  exact hstaffed.work_lt_of_move hfiled hown hm

/-- Those who can go on come to a state in which nobody will. -/
theorem IsOrderly.exists_quiet (h : s.IsOrderly) :
  ∃ t, s.Settles t ∧ s.Runs t ∧ t.IsQuiet
  := by
  obtain ⟨t, hsettles, hquiet⟩ :=
    exists_rest work (fun _ _ hs => hs.proceeds) (fun _ _ hs => hs.work_lt) h
  exact ⟨t, hsettles, Settles.runs hsettles, hquiet⟩

/-- Those who can go on at once come to a state in which nobody can. -/
theorem IsOrderly.exists_still (h : s.IsOrderly) :
  ∃ t, Relation.ReflTransGen GoesOn s t ∧ t.IsStill
  := exists_rest work (fun _ _ hs hgoes => hs.proceeds hgoes.proceeds)
      (fun _ _ hs hgoes => hs.work_lt hgoes.proceeds) h

/-! ### Nothing is left undone -/

/-- What a worker can do, it can do at its bus. -/
theorem Staffed.exists_move (h : s.Staffed) {a : Pool.Action}
    (happly : (s.pool.apply s.bus a).isSome) :
  ∃ t, s.move (.work a) = some t
  := by
  obtain ⟨⟨bus, pool, answer⟩, happly⟩ := Option.isSome_iff_exists.1 happly
  have hfollow : ∃ exchange, s.exchange.follow a = some exchange := by
    cases a with
    | ask w =>
      obtain ⟨hw, -⟩ := Pool.apply_ask_eq_some happly
      have hidle : ∀ p ∈ (Bus.Action.next (.worker w)).caller?, p ∉ s.exchange.bus.waiting := by
        intro p hp
        cases hp
        exact h.notMem_waiting hw
      rw [Exchange.follow, Exchange.move, if_pos hidle]
      exact ⟨_, rfl⟩
    | receive w =>
      obtain ⟨⟨n, bus'⟩, htake, -⟩ := Option.map_eq_some_iff.1 happly
      have htake : s.exchange.bus.take? (.worker w) = some (n, bus') := htake
      rw [Exchange.follow, Exchange.move_of_caller? rfl, Bus.apply, htake]
      exact ⟨_, rfl⟩
    | dismiss w =>
      obtain ⟨bus', hfinish, -⟩ := Option.map_eq_some_iff.1 happly
      have hfinish : s.exchange.bus.finish? (.worker w) = some bus' := hfinish
      rw [Exchange.follow, Exchange.move_of_caller? rfl, Bus.apply, hfinish]
      exact ⟨_, rfl⟩
    | begin | conclude | retry | abandon | confirm | expire => exact ⟨_, rfl⟩
  obtain ⟨exchange, hfollow⟩ := hfollow
  rw [move, happly, Option.bind_eq_bind, Option.bind_some, hfollow]
  exact ⟨_, rfl⟩

/-- In the end nobody can do anything, however much time passes. -/
theorem IsQuiet.apply_eq_none (h : s.IsQuiet) (hs : s.IsOrderly) (a : Pool.Action)
    (millis : Nat) :
  (s.passed millis).pool.apply s.bus a = none
  := by
  by_contra hsome
  obtain ⟨t, ht⟩ := (hs.passed millis).1.exists_move (Option.isSome_iff_ne_none.2 hsome)
  exact h t ⟨millis, .work a, rfl, ht⟩

/-- In the end a worker waits for a notice, or it has ended. -/
theorem IsQuiet.phase (h : s.IsQuiet) (hs : s.IsOrderly) {w : Nat} {phase : WorkerPhase}
    (hw : s.pool.workers.get? w = some phase) :
  phase = .waiting ∨ phase.isOver = true
  := by
  have hnow : ∀ millis, (s.passed millis).pool.workers.get? w = some phase := fun _ => hw
  cases phase with
  | waiting => exact .inl rfl
  | ended | crashed => exact .inr rfl
  | idle =>
    have hnone := h.apply_eq_none hs (.ask w) 0
    simp [Pool.apply, hnow] at hnone
  | holding n =>
    have hnone := h.apply_eq_none hs (.begin w) 0
    simp [Pool.apply, hnow] at hnone
  | calling n attempt nth finish =>
    have hnone := h.apply_eq_none hs (.conclude w) finish
    simp only [Pool.apply, hnow] at hnone
    have hfinish : finish ≤ (s.passed finish).pool.now := Nat.le_add_left finish s.pool.now
    rw [if_pos hfinish] at hnone
    cases hnone
  | asleep n attempt due =>
    have hnone := h.apply_eq_none hs (.retry w) due
    simp only [Pool.apply, hnow] at hnone
    have hdue : due ≤ (s.passed due).pool.now := Nat.le_add_left due s.pool.now
    rw [if_pos hdue] at hnone
    cases hnone

theorem IsQuiet.isFree (h : s.IsQuiet) (hs : s.IsOrderly) (w : Nat) (phase : WorkerPhase)
    (hw : s.pool.workers.get? w = some phase) :
  phase.isFree
  := by
  rcases h.phase hs hw with rfl | hover
  · rfl
  · cases phase with
    | idle | waiting | ended | crashed => rfl
    | holding | calling | asleep => cases hover

/-- While a worker waits for a notice, some worker is the first to get one. -/
theorem Staffed.exists_first (h : s.Staffed) {w : Nat}
    (hw : s.pool.workers.get? w = some .waiting) :
  ∃ k takers, s.bus.takers = .worker k :: takers
  := by
  have hmem : .worker w ∈ s.bus.takers := h.takers.mem_iff.2 (Pool.mem_waiting hw)
  obtain ⟨first, takers, htakers⟩ := List.exists_cons_of_ne_nil (List.ne_nil_of_mem hmem)
  have hfirst : first ∈ s.pool.waiting := by
    rw [← h.takers.mem_iff, htakers]
    exact List.mem_cons_self
  obtain ⟨k, rfl⟩ := Pool.exists_of_mem_waiting hfirst
  exact ⟨k, takers, htakers⟩

theorem IsStill.apply_eq_none (h : s.IsStill) (hs : s.Staffed) (a : Pool.Action) :
  s.pool.apply s.bus a = none
  := by
  by_contra hsome
  obtain ⟨t, ht⟩ := hs.exists_move (Option.isSome_iff_ne_none.2 hsome)
  exact h t ⟨.work a, rfl, ht⟩

/-- When nobody can go on at once, a worker waits only at an empty bus. -/
theorem IsStill.queue_of_waiting (h : s.IsStill) (hs : s.Staffed) {w : Nat}
    (hw : s.pool.workers.get? w = some .waiting) :
  s.bus.queue = []
  := by
  obtain ⟨k, takers, htakers⟩ := hs.exists_first hw
  cases hqueue : s.bus.queue with
  | nil => rfl
  | cons n queue =>
    have hnone := h.apply_eq_none hs (.receive k)
    simp [Pool.apply, Bus.take?, htakers, hqueue] at hnone

/-- In the end nothing is queued and nobody waits to publish, if there is a worker that no panic has
ended. -/
theorem IsQuiet.drained (h : s.IsQuiet) (hs : s.IsOrderly) (hroom : 0 < s.bus.capacity) {w : Nat}
    {phase : WorkerPhase} (hw : s.pool.workers.get? w = some phase) (hphase : phase ≠ .crashed) :
  s.bus.queue = [] ∧ s.exchange.waiting = []
  := by
  have hqueue : s.bus.queue = [] := by
    rcases h.phase hs hw with rfl | hover
    · exact h.isStill.queue_of_waiting hs.1 hw
    · cases phase with
      | idle | waiting | holding | calling | asleep => cases hover
      | crashed => exact absurd rfl hphase
      | ended => exact (Bus.hasEnded_iff.1 (hs.1.ended w hw)).2.2
  refine ⟨hqueue, ?_⟩
  cases hwaiting : s.exchange.waiting with
  | nil => rfl
  | cons c waiting =>
    have hoffers : s.exchange.bus.offers = c.offer :: waiting.map Publication.offer := by
      rw [← hs.1.exchange.offers, hwaiting, List.map_cons]
    have hroom' : s.exchange.bus.queue.length < s.exchange.bus.capacity := by
      have hempty : s.exchange.bus.queue = [] := hqueue
      rw [hempty]
      exact hroom
    have hmove : ∃ t, s.exchange.move (.accept c.offer.publisher) = some t := by
      rw [Exchange.move_of_caller? rfl, Bus.apply, Bus.accept?, hoffers]
      simp [hroom']
    obtain ⟨exchange, hmove⟩ := hmove
    refine absurd ⟨0, .bus (.accept c.offer.publisher), rfl, ?_⟩ (h { s with exchange })
    show (s.exchange.move (.accept c.offer.publisher)).map _ = _
    rw [hmove]
    rfl

/-- When no worker has a notice in its hands, every notice that was taken has met its fate. -/
theorem Filed.exists_fate (h : s.Filed)
    (hfree : ∀ w phase, s.pool.workers.get? w = some phase → phase.isFree) {c : Case}
    (hc : c ∈ s.cases) :
  ∃ fate, c.fate = some fate
  := by
  cases hfate : c.fate with
  | some fate => exact ⟨fate, rfl⟩
  | none =>
    have hmem := mem_desk hc hfate
    have hdesk := h.desks c.worker
    cases hphase : s.pool.workers.get? c.worker with
    | none =>
      rw [hphase] at hdesk
      generalize s.desk c.worker = l at hmem hdesk
      cases hdesk with
      | absent => cases hmem
    | some phase =>
      rw [hphase] at hdesk
      rw [hdesk.eq_nil (hfree _ _ hphase)] at hmem
      cases hmem

/-- The notices that were taken are those of the cases. -/
theorem Filed.delivered (h : s.Filed) :
  s.exchange.delivered = s.cases.map Case.notice
  := by
  have htaken := congrArg (List.map Prod.snd) h.taken
  rw [List.map_map, List.map_filterMap] at htaken
  rw [Exchange.delivered, Exchange.answers, List.filterMap_map]
  refine Eq.trans ?_ htaken
  refine List.filterMap_congr fun entry _ => ?_
  obtain ⟨_, answer⟩ := entry
  cases answer with
  | none => rfl
  | some n => rfl

/-- What the bus accepted was taken, or is queued. -/
theorem IsOrderly.flow (h : s.IsOrderly) :
  s.cases.map Case.notice ++ s.bus.queue = s.exchange.accepted.map Publication.notice
  := by
  rw [← h.2.delivered]
  exact h.1.exchange.flow

/-- Once nothing is queued, the notices that were accepted are those that were taken. -/
theorem IsOrderly.accepted_of_drained (h : s.IsOrderly) (hqueue : s.bus.queue = []) :
  s.cases.map Case.notice = s.exchange.accepted.map Publication.notice
  := by
  rw [← h.flow, hqueue, List.append_nil]

end Workshop

end Reconciliation
