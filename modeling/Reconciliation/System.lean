import Reconciliation.Party

/-!
# Systems of parties

In a `System` parties act on a common state, one atomic action at a time.  Which party acts
next is open: whatever holds of all runs holds whatever the order.  `System.settle` fixes one
order, in which a party goes on until it can do no more, and parties that become able to act
queue up behind it; it stops when nobody can act.
-/

namespace Reconciliation

/-- A state on which parties act. -/
structure System (σ α : Type) where
  /-- The state after an action, if the action is possible. -/
  apply : σ → α → Option σ
  /-- The parties that are under way, in the order in which they began to wait. -/
  parties : σ → List Party
  /-- What a party may do next, in the order of its preference. -/
  options : σ → Party → List α
  /-- A bound on the number of actions that are left. -/
  work : σ → Nat

namespace System

variable {σ α : Type}

/-- The state after the first possible action of a party. -/
def act (sys : System σ α) (s : σ) (p : Party) : Option σ :=
  (sys.options s p).findSome? (sys.apply s)

/-- A party that can act. -/
def canAct (sys : System σ α) (s : σ) (p : Party) : Bool :=
  (sys.act s p).isSome

/-- The parties that can act and do not queue yet. -/
def woken (sys : System σ α) (ready : List Party) (s : σ) : List Party :=
  (sys.parties s).filter (fun p => !ready.contains p && sys.canAct s p)

/-- Acting in the order of a queue, `fuel` actions at most. -/
def run (sys : System σ α) (fuel : Nat) (ready : List Party) (s : σ) : σ :=
  match ready with
  | [] => s
  | p :: rest =>
    match sys.act s p with
    | none => sys.run fuel rest s
    | some s =>
      match fuel with
      | 0 => s
      | fuel + 1 => sys.run fuel (p :: rest ++ sys.woken (p :: rest) s) s
termination_by (fuel, ready.length)

/-- The state once nobody can act. -/
def settle (sys : System σ α) (s : σ) : σ :=
  sys.run (sys.work s) (sys.woken [] s) s

/-- The states that actions in any order lead to. -/
inductive Reachable (sys : System σ α) (start : σ) : σ → Prop where
  | refl : Reachable sys start start
  | step {s t : σ} (a : α) (h : Reachable sys start s) (ha : sys.apply s a = some t) :
      Reachable sys start t

/-- What a party does is one of the actions of the system. -/
theorem exists_apply_of_act {sys : System σ α} {s t : σ} {p : Party}
    (h : sys.act s p = some t) :
  ∃ a, sys.apply s a = some t
  := by
  obtain ⟨a, _, ha⟩ := List.exists_of_findSome?_eq_some h
  exact ⟨a, ha⟩

/-- Acting in the order of a queue stays within the reachable states. -/
theorem reachable_run (sys : System σ α) {start s : σ} (fuel : Nat) (ready : List Party)
    (h : Reachable sys start s) :
  Reachable sys start (sys.run fuel ready s)
  := by
  fun_induction run sys fuel ready s with
  | case1 => exact h
  | case2 _ _ _ _ _ ih => exact ih h
  | case3 _ _ _ _ hact =>
    obtain ⟨a, ha⟩ := exists_apply_of_act hact
    exact h.step a ha
  | case4 _ _ _ _ hact _ ih =>
    obtain ⟨a, ha⟩ := exists_apply_of_act hact
    exact ih (h.step a ha)

theorem reachable_settle (sys : System σ α) (s : σ) :
  Reachable sys s (sys.settle s)
  := sys.reachable_run _ _ .refl

end System

end Reconciliation
