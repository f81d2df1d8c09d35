import Reconciliation.Proofs.Busy
import Reconciliation.Proofs.Intake
import Reconciliation.Proofs.Occupancy

/-!
# The equipment of a run

Slots, room on the bus, workers and the plan by which these deliver are what a run is given at its
start, and nothing that happens in it changes any of them
(`Engine.isEquippedLike_of_reachable`).
-/

namespace Reconciliation

namespace Processor

variable {p q : Processor} {task : Nat}

/-- Writing to the store has nothing to do with the bus. -/
theorem bus_of_write {answer : Except StoreFault Store} {go : Processor → Option Processor}
    (hgo : ∀ store, go { p with store } = some q → q.bus = p.bus)
    (h : p.write task answer go = some q) :
  q.bus = p.bus
  := by
  cases answer with
  | ok store => exact hgo store h
  | error f => exact (reaches_of_finish h).bus

theorem busCapacity_offer (p : Processor) (task : Nat) (r : Reader) (tally : Tally) (n : Notice) :
  (p.offer task r tally n).bus.capacity = p.bus.capacity
  := by
  rw [offer, Bus.publish]
  split
  · next hpublish =>
    split at hpublish
    · cases hpublish
      rfl
    · cases hpublish
  · next hpublish =>
    split at hpublish
    · cases hpublish
    · cases hpublish
      rfl

theorem busCapacity_of_proceed (h : p.proceed task = some q) :
  q.bus.capacity = p.bus.capacity
  := by
  obtain ⟨hphase, ⟨id, stage⟩, hjob⟩ := exists_of_proceed h
  rw [proceed_of_job hphase hjob] at h
  cases stage with
  | fresh s =>
    have hbegin : p.begin task id s = some q := h
    rw [begin] at hbegin
    refine congrArg Bus.capacity (bus_of_write (fun store hgo => ?_) hbegin)
    cases hgo
    rfl
  | reading r tally =>
    obtain ⟨stage, hbus, -⟩ := goesOn_of_read hphase h
    rw [hbus]
  | announcing r tally t =>
    cases h
    rfl
  | offering r tally n =>
    cases h
    exact busCapacity_offer p task r tally n
  | publishing => cases h
  | saving tally fatal =>
    refine congrArg Bus.capacity (bus_of_write (fun store hgo => ?_) h)
    cases hgo
    rfl
  | closing tally fatal =>
    refine congrArg Bus.capacity (bus_of_write (fun store hgo => ?_) h)
    exact (reaches_of_finish (p := { p with store }) hgo).bus
  | ended => cases h

theorem busCapacity_of_leaveBus {bus : Option Bus} {fault : Option Fault}
    (hbus : ∀ b, bus = some b → b.capacity = p.bus.capacity)
    (h : p.leaveBus task bus fault = some q) :
  q.bus.capacity = p.bus.capacity
  := by
  obtain ⟨b, id, r, tally, n, hb, -, rfl⟩ := leaveBus_eq_some h
  obtain ⟨log, hpublished⟩ := published_eq { p with bus := b } task r tally n fault
  rw [hpublished]
  exact hbus b hb

/-- No action makes more or less room on the bus. -/
theorem busCapacity_of_apply {a : Action} {reply : Option Reply} (h : p.apply a = some (q, reply)) :
  q.bus.capacity = p.bus.capacity
  := by
  cases a with
  | enter | drop | report =>
    obtain ⟨⟨_, _⟩, -, heq⟩ := Option.map_eq_some_iff.1 h
    cases heq
    rfl
  | skip | start =>
    obtain ⟨_, -, heq⟩ := Option.map_eq_some_iff.1 h
    cases heq
    rfl
  | collect =>
    obtain ⟨⟨outcome, _⟩, -, heq⟩ := Option.map_eq_some_iff.1 h
    cases outcome with
    | succeeded | failed | panicked =>
      cases heq
      rfl
  | proceed =>
    obtain ⟨q', hproceed, heq⟩ := Option.map_eq_some_iff.1 h
    cases heq
    exact busCapacity_of_proceed hproceed
  | accept =>
    obtain ⟨q', hleave, heq⟩ := Option.map_eq_some_iff.1 h
    cases heq
    refine busCapacity_of_leaveBus (fun b hb => ?_) hleave
    obtain ⟨_, _, -, -, -, rfl⟩ := Bus.accept?_eq_some hb
    rfl
  | withdraw =>
    obtain ⟨q', hleave, heq⟩ := Option.map_eq_some_iff.1 h
    cases heq
    refine busCapacity_of_leaveBus (fun b hb => ?_) hleave
    obtain ⟨_, -, -, -, rfl⟩ := Bus.withdraw?_eq_some hb
    rfl

end Processor

namespace Engine

variable {e e' start : Engine}

/-- Two engines have as many slots, as much room on the bus and as many workers, and the same plan
for them. -/
structure IsEquippedLike (e e' : Engine) : Prop where
  slots : e'.processor.runner.capacity = e.processor.runner.capacity
  room : e'.processor.bus.capacity = e.processor.bus.capacity
  plan : e'.pool.plan = e.pool.plan
  workers : e'.pool.workers.length = e.pool.workers.length

theorem IsEquippedLike.refl (e : Engine) :
  e.IsEquippedLike e
  := ⟨rfl, rfl, rfl, rfl⟩

theorem IsEquippedLike.trans {e'' : Engine} (h : e.IsEquippedLike e') (h' : e'.IsEquippedLike e'') :
  e.IsEquippedLike e''
  where
    slots := h'.slots.trans h.slots
    room := h'.room.trans h.room
    plan := h'.plan.trans h.plan
    workers := h'.workers.trans h.workers

theorem processor_hear (e : Engine) (reply : Option Processor.Reply) :
  (e.hear reply).processor = e.processor
  := congrArg (fun s => s.session.processor) (service_hear e reply {})

theorem isEquippedLike_of_upload (ha : e.apply .upload = some e') :
  e.IsEquippedLike e'
  := by
  obtain ⟨input, rest, hintake⟩ := exists_of_apply_upload ha
  simp only [apply, hintake] at ha
  rcases e.processor.upload_cases usher input.statement with
    ⟨part, -, -, hup⟩ | ⟨-, hup⟩ | ⟨-, store, -, hup⟩
  all_goals
    rw [hup] at ha
    cases ha
    exact ⟨rfl, rfl, rfl, rfl⟩

/-- No action changes the equipment of an engine. -/
theorem isEquippedLike_of_apply {a : Action} (ha : e.apply a = some e') :
  e.IsEquippedLike e'
  := by
  cases a with
  | upload => exact isEquippedLike_of_upload ha
  | wait =>
    obtain ⟨-, rfl⟩ := apply_wait_eq_some ha
    exact ⟨rfl, rfl, rfl, rfl⟩
  | close =>
    obtain ⟨-, rfl⟩ := apply_close_eq_some ha
    exact ⟨rfl, rfl, rfl, rfl⟩
  | processor a =>
    obtain ⟨⟨q, reply⟩, hq, rfl⟩ := Option.map_eq_some_iff.1 ha
    have hprocessor := processor_hear { e with processor := q } reply
    have hpool := pool_hear { e with processor := q } reply
    refine ⟨?_, ?_, congrArg Pool.plan hpool, congrArg (fun p => p.workers.length) hpool⟩
    · dsimp only
      rw [hprocessor]
      exact (Processor.follows_of_apply hq).capacity
    · dsimp only
      rw [hprocessor]
      exact Processor.busCapacity_of_apply hq
  | pool a =>
    obtain ⟨⟨b, pool, answer⟩, hpool, rfl⟩ := Option.map_eq_some_iff.1 ha
    have hstep := Pool.step_of_apply hpool
    refine ⟨rfl, ?_, hstep.isLikeNow.plan, hstep.length_workers⟩
    cases hstep with
    | ask | receive | dismiss | begin | conclude | retry | abandon | confirm | expire => rfl

theorem isEquippedLike_of_reachable (he : system.Reachable start e) :
  start.IsEquippedLike e
  := by
  induction he with
  | refl => exact .refl start
  | step a _ ha ih => exact ih.trans (isEquippedLike_of_apply ha)

end Engine

end Reconciliation
