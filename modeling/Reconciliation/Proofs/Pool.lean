import Reconciliation.Proofs.Bus
import Reconciliation.Proofs.Keyed
import Reconciliation.Pool

/-!
# What workers do

`Pool.Step` lists the steps of the workers of a pool at a bus, and of the callers who wait for
them, each with what must be the case before it.  What each action takes, and what it comes to, is
said by one lemma for the action (`Pool.apply_ask_eq_some` and so on).
-/

namespace Reconciliation.Pool

/-- The steps of workers and callers. -/
inductive Step (b : Bus) (p : Pool) : Bus → Pool → Prop where
  | ask {w : Nat} (hw : p.workers.get? w = some .idle) :
      Step b p (b.next (.worker w)) (p.setPhase w .waiting)
  | receive {w : Nat} {takers : List Party} {n : Notice} {queue : List Notice}
      (htakers : b.takers = .worker w :: takers) (hqueue : b.queue = n :: queue) :
      Step b p { b with takers, queue } (p.setPhase w (.holding n))
  | dismiss {w : Nat} {takers : List Party} (htakers : b.takers = .worker w :: takers)
      (hended : b.hasEnded) :
      Step b p { b with takers } (p.setPhase w .ended)
  | begin {w : Nat} {n : Notice} (hw : p.workers.get? w = some (.holding n)) :
      Step b p b (p.process w n)
  | conclude {w : Nat} {n : Notice} {attempt nth finish : Nat}
      (hw : p.workers.get? w = some (.calling n attempt nth finish)) (hfinish : finish ≤ p.now) :
      Step b p b (p.settleCall w n attempt (p.handler.verdict n nth))
  | retry {w : Nat} {n : Notice} {attempt due : Nat}
      (hw : p.workers.get? w = some (.asleep n attempt due)) (hdue : due ≤ p.now) :
      Step b p b (p.call w n (attempt + 1))
  | abandon {w : Nat} {n : Notice} {attempt due : Nat}
      (hw : p.workers.get? w = some (.asleep n attempt due)) (hdown : p.isShutDown) :
      Step b p b ((p.setPhase w .idle).note (.retryAbandoned n))
  | confirm {s : Stop} (hs : p.stop? s.caller = some s) (hover : s.workers.all p.isOver) :
      Step b p b { p.forget s.caller with log := p.log ++ p.crashes s.workers }
  | expire {s : Stop} (hs : p.stop? s.caller = some s) (hdeadline : s.deadline ≤ p.now) :
      Step b p b (p.forget s.caller)

variable {b b' : Bus} {p p' : Pool}

theorem caller_of_stop? {caller : Party} {s : Stop} (h : p.stop? caller = some s) :
  s.caller = caller
  := by
  have hcaller := List.find?_some h
  simpa using hcaller

/-! ### What an action needs -/

variable {w : Nat} {caller : Party} {answer : Option (Except Fault Unit)}

theorem apply_ask_eq_some (h : p.apply b (.ask w) = some (b', p', answer)) :
  p.workers.get? w = some .idle ∧ b' = b.next (.worker w) ∧ p' = p.setPhase w .waiting ∧
    answer = none
  := by
  simp only [apply] at h
  split at h
  · next hw =>
    cases h
    exact ⟨hw, rfl, rfl, rfl⟩
  · cases h

theorem apply_receive_eq_some (h : p.apply b (.receive w) = some (b', p', answer)) :
  ∃ takers n queue, b.takers = .worker w :: takers ∧ b.queue = n :: queue ∧
    b' = { b with takers, queue } ∧ p' = p.setPhase w (.holding n) ∧ answer = none
  := by
  obtain ⟨⟨n, b₁⟩, htake, heq⟩ := Option.map_eq_some_iff.1 h
  cases heq
  obtain ⟨takers, queue, htakers, hqueue, rfl⟩ := Bus.take?_eq_some htake
  exact ⟨takers, n, queue, htakers, hqueue, rfl, rfl, rfl⟩

theorem apply_dismiss_eq_some (h : p.apply b (.dismiss w) = some (b', p', answer)) :
  ∃ takers, b.takers = .worker w :: takers ∧ b.hasEnded ∧ b' = { b with takers } ∧
    p' = p.setPhase w .ended ∧ answer = none
  := by
  obtain ⟨b₁, hfinish, heq⟩ := Option.map_eq_some_iff.1 h
  cases heq
  obtain ⟨takers, htakers, hended, rfl⟩ := Bus.finish?_eq_some hfinish
  exact ⟨takers, htakers, hended, rfl, rfl, rfl⟩

theorem apply_begin_eq_some (h : p.apply b (.begin w) = some (b', p', answer)) :
  ∃ n, p.workers.get? w = some (.holding n) ∧ b' = b ∧ p' = p.process w n ∧ answer = none
  := by
  simp only [apply] at h
  split at h
  · next n hw =>
    cases h
    exact ⟨n, hw, rfl, rfl, rfl⟩
  · cases h

theorem apply_conclude_eq_some (h : p.apply b (.conclude w) = some (b', p', answer)) :
  ∃ n attempt nth finish, p.workers.get? w = some (.calling n attempt nth finish) ∧
    finish ≤ p.now ∧ b' = b ∧ p' = p.settleCall w n attempt (p.handler.verdict n nth) ∧
    answer = none
  := by
  simp only [apply] at h
  split at h
  · next n attempt nth finish hw =>
    split at h
    · next hfinish =>
      cases h
      exact ⟨n, attempt, nth, finish, hw, hfinish, rfl, rfl, rfl⟩
    · cases h
  · cases h

theorem apply_retry_eq_some (h : p.apply b (.retry w) = some (b', p', answer)) :
  ∃ n attempt due, p.workers.get? w = some (.asleep n attempt due) ∧ due ≤ p.now ∧ b' = b ∧
    p' = p.call w n (attempt + 1) ∧ answer = none
  := by
  simp only [apply] at h
  split at h
  · next n attempt due hw =>
    split at h
    · next hdue =>
      cases h
      exact ⟨n, attempt, due, hw, hdue, rfl, rfl, rfl⟩
    · cases h
  · cases h

theorem apply_abandon_eq_some (h : p.apply b (.abandon w) = some (b', p', answer)) :
  ∃ n attempt due, p.workers.get? w = some (.asleep n attempt due) ∧ p.isShutDown ∧ b' = b ∧
    p' = (p.setPhase w .idle).note (.retryAbandoned n) ∧ answer = none
  := by
  simp only [apply] at h
  split at h
  · next n attempt due hw =>
    split at h
    · next hdown =>
      cases h
      exact ⟨n, attempt, due, hw, hdown, rfl, rfl, rfl⟩
    · cases h
  · cases h

theorem apply_confirm_eq_some (h : p.apply b (.confirm caller) = some (b', p', answer)) :
  ∃ s, p.stop? caller = some s ∧ s.caller = caller ∧ s.workers.all p.isOver ∧ b' = b ∧
    p' = { p.forget caller with log := p.log ++ p.crashes s.workers } ∧ answer = some (.ok ())
  := by
  obtain ⟨s, hs, h⟩ := Option.bind_eq_some_iff.1 h
  split at h
  · next hover =>
    cases h
    exact ⟨s, hs, caller_of_stop? hs, hover, rfl, rfl, rfl⟩
  · cases h

theorem apply_expire_eq_some (h : p.apply b (.expire caller) = some (b', p', answer)) :
  ∃ s, p.stop? caller = some s ∧ s.caller = caller ∧ s.deadline ≤ p.now ∧ b' = b ∧
    p' = p.forget caller ∧ answer = some (.error (.timeout draining (s.timeout % 2 ^ 64)))
  := by
  obtain ⟨s, hs, h⟩ := Option.bind_eq_some_iff.1 h
  split at h
  · next hdeadline =>
    cases h
    exact ⟨s, hs, caller_of_stop? hs, hdeadline, rfl, rfl, rfl⟩
  · cases h

/-- Every action is one of the steps. -/
theorem step_of_apply {a : Action} (h : p.apply b a = some (b', p', answer)) :
  Step b p b' p'
  := by
  cases a with
  | ask w =>
    obtain ⟨hw, rfl, rfl, -⟩ := apply_ask_eq_some h
    exact .ask hw
  | receive w =>
    obtain ⟨takers, n, queue, htakers, hqueue, rfl, rfl, -⟩ := apply_receive_eq_some h
    exact .receive htakers hqueue
  | dismiss w =>
    obtain ⟨takers, htakers, hended, rfl, rfl, -⟩ := apply_dismiss_eq_some h
    exact .dismiss htakers hended
  | begin w =>
    obtain ⟨n, hw, rfl, rfl, -⟩ := apply_begin_eq_some h
    exact .begin hw
  | conclude w =>
    obtain ⟨n, attempt, nth, finish, hw, hfinish, rfl, rfl, -⟩ := apply_conclude_eq_some h
    exact .conclude hw hfinish
  | retry w =>
    obtain ⟨n, attempt, due, hw, hdue, rfl, rfl, -⟩ := apply_retry_eq_some h
    exact .retry hw hdue
  | abandon w =>
    obtain ⟨n, attempt, due, hw, hdown, rfl, rfl, -⟩ := apply_abandon_eq_some h
    exact .abandon hw hdown
  | confirm caller =>
    obtain ⟨s, hs, rfl, hover, rfl, rfl, -⟩ := apply_confirm_eq_some h
    exact .confirm hs hover
  | expire caller =>
    obtain ⟨s, hs, rfl, hdeadline, rfl, rfl, -⟩ := apply_expire_eq_some h
    exact .expire hs hdeadline

end Reconciliation.Pool
