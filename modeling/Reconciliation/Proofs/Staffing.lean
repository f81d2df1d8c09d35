import Reconciliation.Proofs.Pairing
import Reconciliation.Proofs.Settlement
import Reconciliation.Proofs.Workshop

/-!
# Workers at their bus

`Workshop.Staffed` is what holds between the bus and the workers of a workshop after any number of
moves: those who wait for notices are the workers that wait, and a worker ends only with the bus.
-/

namespace Reconciliation

/-! ### Bus and workers -/

namespace Exchange

variable {x y : Exchange}

/-- What is done from outside brings no notice to a taker, and no offer by a worker. -/
theorem move_of_isOutside {a : Bus.Action} (ha : a.isOutside) (hmove : x.move a = some y) :
  y.bus.takers = x.bus.takers ∧ y.told = x.told ∧
    ∀ o ∈ y.bus.offers, o ∈ x.bus.offers ∨ ∀ w, o.publisher ≠ .worker w
  := by
  obtain ⟨-, bus, reply, happly, rfl⟩ := move_eq_some hmove
  cases a with
  | next | take | finish => cases ha
  | publish p token notice =>
    have hp : ∀ w, p ≠ .worker w := by
      rintro w rfl
      cases ha
    have hpublish : x.bus.publish p token notice = (bus, reply) := Option.some.inj happly
    rw [Bus.publish] at hpublish
    split at hpublish
    · cases hpublish
      refine ⟨rfl, rfl, fun o ho => ?_⟩
      rcases List.mem_append.1 ho with ho | ho
      · exact .inl ho
      · rw [List.mem_singleton.1 ho]
        exact .inr hp
    · cases hpublish
      exact ⟨rfl, rfl, fun o ho => .inl ho⟩
  | accept p =>
    obtain ⟨bus, haccept, heq⟩ := Option.map_eq_some_iff.1 happly
    cases heq
    obtain ⟨o, offers, hoffers, -, -, rfl⟩ := Bus.accept?_eq_some haccept
    refine ⟨rfl, rfl, fun o' ho => .inl ?_⟩
    rw [hoffers]
    exact List.mem_cons_of_mem o ho
  | withdraw p =>
    obtain ⟨bus, hwithdraw, heq⟩ := Option.map_eq_some_iff.1 happly
    cases heq
    obtain ⟨o, -, -, -, rfl⟩ := Bus.withdraw?_eq_some hwithdraw
    exact ⟨rfl, rfl, fun o' ho => .inl (List.mem_of_mem_eraseP ho)⟩
  | close | fire =>
    cases happly
    exact ⟨rfl, rfl, fun o ho => .inl ho⟩

end Exchange

namespace Pool

theorem keys_setPhase (p : Pool) (w : Nat) (new : WorkerPhase) :
  (p.setPhase w new).workers.map Prod.fst = p.workers.map Prod.fst
  := Keyed.keys_modify p.workers w (fun _ => new)

/-- One who has a notice in hand neither waits for another, nor has it ended with the bus. -/
theorem Treats.isUp {p : Pool} {n : Notice} {old new : WorkerPhase} {change : Case → Case}
    {seen : List String} {calls : List Call} (h : p.Treats n old new change seen calls) :
  old.isUp ∧ new.isUp
  := by
  cases h with
  | _ => exact ⟨rfl, rfl⟩

theorem Advances.turns {p p' : Pool} {w : Nat} {n : Notice} {old new : WorkerPhase}
    {change : Case → Case} {seen : List String} {calls : List Call}
    (h : p.Advances w new seen calls p') (hw : p.workers.get? w = some old)
    (htreats : p.Treats n old new change seen calls) :
  p.Turns p'
  := ⟨w, old, new, hw, htreats.isUp.1, htreats.isUp.2, h.workers⟩

end Pool

namespace Workshop

variable {s t : Workshop} {capacity : Nat} {plan : DeliveryPlan} {handler : Handler}

/-- Those who wait for notices are the workers that wait, and a worker ends only with the bus. -/
structure Staffed (s : Workshop) : Prop where
  exchange : s.exchange.Sound
  takers : s.bus.takers.Perm s.pool.waiting
  numbers : s.pool.workers.map Prod.fst = List.range s.pool.workers.length
  outsiders : ∀ o ∈ s.bus.offers, ∀ w, o.publisher ≠ .worker w
  ended : ∀ w, s.pool.workers.get? w = some .ended → s.bus.hasEnded

namespace Staffed

theorem keys (h : s.Staffed) :
  (s.pool.workers.map Prod.fst).Nodup
  := by
  rw [h.numbers]
  exact List.nodup_range

/-- A worker that is idle waits for nothing at the bus. -/
theorem notMem_waiting (h : s.Staffed) {w : Nat} (hw : s.pool.workers.get? w = some .idle) :
  .worker w ∉ s.bus.waiting
  := by
  intro hmem
  rcases List.mem_append.1 hmem with hmem | hmem
  · obtain ⟨o, ho, heq⟩ := List.mem_map.1 hmem
    exact h.outsiders o ho w heq
  · rw [h.takers.mem_iff] at hmem
    cases hw.symm.trans (Pool.get?_of_mem_waiting h.keys hmem)

/-- The first who waits for a notice is a worker that waits. -/
theorem get?_of_takers (h : s.Staffed) {w : Nat} {takers : List Party}
    (htakers : s.bus.takers = .worker w :: takers) :
  s.pool.workers.get? w = some .waiting
  := (Pool.takers_of_first h.keys h.takers htakers .idle rfl).1

theorem numbers_of_keys (h : s.Staffed) {pool : Pool}
    (hkeys : pool.workers.map Prod.fst = s.pool.workers.map Prod.fst) :
  pool.workers.map Prod.fst = List.range pool.workers.length
  := by
  have hlength := congrArg List.length hkeys
  rw [List.length_map, List.length_map] at hlength
  rw [hkeys, hlength]
  exact h.numbers

theorem opened :
  (opened capacity plan handler).Staffed
  where
    exchange := Exchange.sound_opened capacity
    takers := .nil
    numbers := rfl
    outsiders := nofun
    ended := nofun

/-- The workers are what they were, and so is the bus. -/
theorem of_workers (h : s.Staffed) (hexchange : t.exchange = s.exchange)
    (hworkers : t.pool.workers = s.pool.workers) :
  t.Staffed
  := by
  have hbus : t.bus = s.bus := congrArg Exchange.bus hexchange
  constructor
  · rw [hexchange]
    exact h.exchange
  · rw [hbus, Pool.waiting, hworkers]
    exact h.takers
  · rw [hworkers]
    exact h.numbers
  · rw [hbus]
    exact h.outsiders
  · rw [hbus, hworkers]
    exact h.ended

theorem outside (h : s.Staffed) {a : Bus.Action} {exchange : Exchange} (ha : a.isOutside)
    (hmove : s.exchange.move a = some exchange) :
  Staffed { s with exchange }
  := by
  have hstep := h.exchange.step_of_move hmove
  obtain ⟨htakers, -, hoffers⟩ := Exchange.move_of_isOutside ha hmove
  constructor
  · exact h.exchange.step hstep
  · exact htakers ▸ h.takers
  · exact h.numbers
  · intro o ho
    rcases hoffers o ho with ho | ho
    · exact h.outsiders o ho
    · exact ho
  · intro w hw
    exact (h.exchange.ended_step (h.ended w hw) hstep).1

theorem ask (h : s.Staffed) {w : Nat} (hw : s.pool.workers.get? w = some .idle)
    (hidle : .worker w ∉ s.bus.waiting) :
  Staffed { s with
    exchange := { s.exchange with
      bus := s.bus.next (.worker w)
      asked := s.exchange.asked ++ [.worker w] }
    pool := s.pool.setPhase w .waiting }
  where
    exchange := h.exchange.ask hidle
    takers := Pool.takers_next h.keys h.takers hw
    numbers := h.numbers_of_keys (s.pool.keys_setPhase w _)
    outsiders := h.outsiders
    ended k hk := by
      have hk : (s.pool.workers.modify w (fun _ => .waiting)).get? k = some .ended := hk
      rw [Keyed.get?_modify hw] at hk
      split at hk
      · cases hk
      · exact h.ended k hk

theorem take (h : s.Staffed) {w : Nat} {takers : List Party} {n : Notice} {queue : List Notice}
    (htakers : s.bus.takers = .worker w :: takers) (hqueue : s.bus.queue = n :: queue)
    (cases : List Case) :
  Staffed { s with
    exchange := { s.exchange with
      bus := { s.bus with takers, queue }
      told := s.exchange.told ++ [(.worker w, some n)] }
    pool := s.pool.setPhase w (.holding n)
    cases }
  := by
  obtain ⟨hw, hperm⟩ := Pool.takers_of_first h.keys h.takers htakers (.holding n) rfl
  exact {
    exchange := h.exchange.take htakers hqueue
    takers := hperm
    numbers := h.numbers_of_keys (s.pool.keys_setPhase w _)
    outsiders := h.outsiders
    ended := by
      intro k hk
      have hk : (s.pool.workers.modify w (fun _ => .holding n)).get? k = some .ended := hk
      rw [Keyed.get?_modify hw] at hk
      split at hk
      · cases hk
      · have hnil := (Bus.hasEnded_iff.1 (h.ended k hk)).2.2
        rw [hqueue] at hnil
        cases hnil }

theorem leave (h : s.Staffed) {w : Nat} {takers : List Party}
    (htakers : s.bus.takers = .worker w :: takers) (hended : s.bus.hasEnded) :
  Staffed { s with
    exchange := { s.exchange with
      bus := { s.bus with takers }
      told := s.exchange.told ++ [(.worker w, none)] }
    pool := s.pool.setPhase w .ended }
  := by
  obtain ⟨hw, hperm⟩ := Pool.takers_of_first h.keys h.takers htakers .ended rfl
  exact {
    exchange := h.exchange.finish htakers hended
    takers := hperm
    numbers := h.numbers_of_keys (s.pool.keys_setPhase w _)
    outsiders := h.outsiders
    ended := fun _ _ => hended }

theorem turns (h : s.Staffed) {pool : Pool} (hturns : s.pool.Turns pool) (cases : List Case) :
  Staffed { s with pool, cases }
  where
    exchange := h.exchange
    takers := h.takers.trans (hturns.waiting h.keys).symm
    numbers := h.numbers_of_keys hturns.keys
    outsiders := h.outsiders
    ended k hk := h.ended k (hturns.ended hk)

theorem start (h : s.Staffed) :
  Staffed { s with pool := s.pool.start }
  where
    exchange := h.exchange
    takers := h.takers.trans (by rw [Pool.waiting_start])
    numbers := Pool.numbers_start h.numbers
    outsiders := h.outsiders
    ended k hk := by
      rcases s.pool.get?_start k with heq | ⟨-, hidle, -⟩
      · exact h.ended k (heq.symm.trans hk)
      · cases hidle.symm.trans hk

theorem stop (h : s.Staffed) (caller : Party) (timeout : Nat) :
  Staffed { s with
    exchange := { s.exchange with bus := s.bus.close, isClosed := true }
    pool := s.pool.stop caller timeout }
  where
    exchange := h.exchange.close
    takers := h.takers
    numbers := h.numbers
    outsiders := h.outsiders
    ended w hw := (h.exchange.ended_step (h.ended w hw) .close).1

theorem step (h : s.Staffed) (hstep : s.Step t) :
  t.Staffed
  := by
  cases hstep with
  | outside ha hmove => exact h.outside ha hmove
  | ask hw hidle => exact h.ask hw hidle
  | take htakers hqueue => exact h.take htakers hqueue _
  | leave htakers hended => exact h.leave htakers hended
  | treat hw htreats hpool => exact h.turns (hpool.turns hw htreats) _
  | start => exact h.start
  | stop hidle => exact h.stop _ _
  | confirm | expire | shutDown | pass => exact h.of_workers rfl rfl

/-- A worker that has ended by itself leaves nothing behind at the bus. -/
theorem nothing_left (h : s.Staffed) {w : Nat} (hw : s.pool.workers.get? w = some .ended) :
  s.bus.queue = [] ∧ s.exchange.waiting = [] ∧ s.exchange.isClosed = true
  := by
  have hended : s.exchange.bus.hasEnded := h.ended w hw
  obtain ⟨hopen, hoffers, hqueue⟩ := Bus.hasEnded_iff.1 hended
  rw [← h.exchange.offers, List.map_eq_nil_iff] at hoffers
  rw [h.exchange.isOpen, Bool.not_eq_false'] at hopen
  exact ⟨hqueue, hoffers, hopen⟩

end Staffed

theorem Runs.staffed (h : (Workshop.opened capacity plan handler).Runs s) :
  s.Staffed
  := by
  induction h with
  | refl => exact .opened
  | tail _ hleads ih =>
    obtain ⟨m, hm⟩ := hleads
    exact ih.step (step_of_move hm)

end Workshop

end Reconciliation
