import Mathlib.Logic.Relation
import Reconciliation.System

/-!
# Runs that come to an end

Moves that follow one another make a run (`reflTransGen_of_isSome`), and one comes to rest where
each step leaves less to do (`exists_rest`).  A system in which every action lowers the work that is
left comes to a point at which nobody can act, whatever the order of the actions.  `System.settle`
takes it there: those who can act are in the queue at all times, so nobody can act once the queue is
empty (`System.canAct_settle`).
-/

namespace Reconciliation

/-- Moves that follow one another lead from the first state to the last. -/
theorem reflTransGen_of_foldlM {σ α : Type} {move : σ → α → Option σ} {s t : σ} {ms : List α}
    (h : ms.foldlM move s = some t) :
  Relation.ReflTransGen (fun s t => ∃ m, move s m = some t) s t
  := by
  induction ms generalizing s with
  | nil =>
    cases h
    exact .refl
  | cons m ms ih =>
    obtain ⟨u, hu, ht⟩ := Option.bind_eq_some_iff.1 h
    exact (ih ht).head ⟨m, hu⟩

/-- Moves that are possible one after the other make a run. -/
theorem reflTransGen_of_isSome {σ α : Type} {move : σ → α → Option σ} {s : σ} {ms : List α}
    (h : (ms.foldlM move s).isSome) :
  Relation.ReflTransGen (fun s t => ∃ m, move s m = some t) s ((ms.foldlM move s).getD s)
  := by
  obtain ⟨t, ht⟩ := Option.isSome_iff_exists.1 h
  rw [ht]
  exact reflTransGen_of_foldlM ht

/-- Where every step lowers a measure, steps lead to a state that no step leads on from. -/
theorem exists_rest {σ : Type} {step : σ → σ → Prop} {P : σ → Prop} (measure : σ → Nat)
    (hkeeps : ∀ s t, P s → step s t → P t) (hlt : ∀ s t, P s → step s t → measure t < measure s)
    {s : σ} (hs : P s) :
  ∃ t, Relation.ReflTransGen step s t ∧ ∀ u, ¬ step t u
  := by
  induction hmeasure : measure s using Nat.strongRecOn generalizing s with
  | ind m ih =>
    by_cases hstep : ∃ u, step s u
    · obtain ⟨u, hu⟩ := hstep
      have hless := hlt s u hs hu
      rw [hmeasure] at hless
      obtain ⟨t, ht, hrest⟩ := ih _ hless (hkeeps s u hs hu) rfl
      exact ⟨t, ht.head hu, hrest⟩
    · exact ⟨s, .refl, fun u hu => hstep ⟨u, hu⟩⟩

namespace System

variable {σ α : Type} {sys : System σ α} {s t : σ}

/-- Actions that follow one another lead to a reachable state. -/
theorem reachable_of_foldlM {start : σ} {actions : List α} (hs : sys.Reachable start s)
    (h : actions.foldlM sys.apply s = some t) :
  sys.Reachable start t
  := by
  induction actions generalizing s with
  | nil =>
    cases h
    exact hs
  | cons a actions ih =>
    obtain ⟨u, hu, ht⟩ := Option.bind_eq_some_iff.1 h
    exact ih (hs.step a hu) ht

/-- One who can act has an action that is possible. -/
theorem exists_of_canAct {p : Party} (h : sys.canAct s p) :
  ∃ a ∈ sys.options s p, ∃ t, sys.apply s a = some t
  := by
  rw [canAct, act, List.findSome?_isSome_iff] at h
  obtain ⟨a, ha, hsome⟩ := h
  exact ⟨a, ha, Option.isSome_iff_exists.1 hsome⟩

/-- Every action that is possible in a reachable state lowers the work. -/
def Wears (sys : System σ α) (start : σ) : Prop :=
  ∀ s t a, sys.Reachable start s → sys.apply s a = some t → sys.work t < sys.work s

/-- Everybody who can act is in the queue. -/
def Queues (sys : System σ α) (s : σ) (ready : List Party) : Prop :=
  ∀ p ∈ sys.parties s, sys.canAct s p → p ∈ ready

theorem queues_woken (s : σ) (ready : List Party) :
  sys.Queues s (ready ++ sys.woken ready s)
  := by
  intro p hp hact
  by_cases hmem : p ∈ ready
  · exact List.mem_append_left _ hmem
  · apply List.mem_append_right
    rw [woken, List.mem_filter]
    exact ⟨hp, by simp [hmem, hact]⟩

/-- One who cannot act may leave the queue. -/
theorem Queues.tail {p : Party} {rest : List Party} (h : sys.Queues s (p :: rest))
    (hact : sys.act s p = none) :
  sys.Queues s rest
  := by
  intro q hq hcan
  rcases List.mem_cons.1 (h q hq hcan) with rfl | hmem
  · rw [canAct, hact] at hcan
    cases hcan
  · exact hmem

/-- Acting in the order of a queue goes on until nobody can act, if there is fuel for the work that
is left. -/
theorem canAct_run {start : σ} (hwears : sys.Wears start) {fuel : Nat} {ready : List Party}
    (hs : sys.Reachable start s) (hfuel : sys.work s ≤ fuel) (hqueues : sys.Queues s ready) :
  ∀ p ∈ sys.parties (sys.run fuel ready s), sys.canAct (sys.run fuel ready s) p = false
  := by
  fun_induction run sys fuel ready s with
  | case1 =>
    intro p hp
    rw [← Bool.not_eq_true]
    intro hact
    cases hqueues p hp hact
  | case2 _ _ _ _ hact ih => exact ih hs hfuel (hqueues.tail hact)
  | case3 _ _ _ _ hact =>
    obtain ⟨a, ha⟩ := exists_apply_of_act hact
    have hlt := hwears _ _ a hs ha
    omega
  | case4 _ _ _ _ hact _ ih =>
    obtain ⟨a, ha⟩ := exists_apply_of_act hact
    have hlt := hwears _ _ a hs ha
    exact ih (hs.step a ha) (by omega) (queues_woken _ _)

/-- In the end nobody can act. -/
theorem canAct_settle (hwears : sys.Wears s) :
  ∀ p ∈ sys.parties (sys.settle s), sys.canAct (sys.settle s) p = false
  := canAct_run hwears .refl (Nat.le_refl _) (queues_woken s [])

/-- One of whose options is possible can act. -/
theorem canAct_of_mem {p : Party} {a : α} (ha : a ∈ sys.options s p)
    (happly : sys.apply s a = some t) :
  sys.canAct s p
  := by
  rw [canAct, act, List.findSome?_isSome_iff]
  exact ⟨a, ha, by rw [happly]; rfl⟩

end System

end Reconciliation
