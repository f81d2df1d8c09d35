import Reconciliation.Proofs.Runner

/-!
# The slots of a runner

A slot is free, or an admitted task holds it until it is over.  `Runner.IsSteady` says this of a
runner none of whose tokens has fired: such a runner neither drops a task nor skips one, so every
task that was submitted is in line or admitted.  `Runner.Turns` is what a keeper or a body does
to the runner; it concerns the phase of one task, and the slot that the task may give back.
-/

namespace Reconciliation

/-- The number of slots that a task in this phase holds. -/
def TaskPhase.slots (phase : TaskPhase) : Nat :=
  if phase.isOver then 0 else 1

namespace Runner

variable {r r' : Runner} {caller : Party} {task : Nat}

/-- The number of slots that admitted tasks hold. -/
def taken (r : Runner) : Nat :=
  Keyed.total (fun t => t.phase.slots) r.tasks

/-- A task that goes to another phase gives back the slots that it held, and takes others. -/
theorem taken_setPhase (hkeys : (r.tasks.map Prod.fst).Nodup) {old : TaskPhase}
    (h : r.phase? task = some old) (new : TaskPhase) :
  (r.setPhase task new).taken + old.slots = r.taken + new.slots
  := by
  obtain ⟨t, ht, rfl⟩ := exists_of_phase? h
  exact Keyed.total_modify (fun t => t.phase.slots) hkeys ht (fun t => { t with phase := new })

theorem mem_underWay {phase : TaskPhase} (h : r.phase? task = some phase)
    (hover : phase.isOver = false) :
  task ∈ r.underWay
  := by
  obtain ⟨t, ht, rfl⟩ := exists_of_phase? h
  refine List.mem_map.2 ⟨(task, t), List.mem_filter.2 ⟨Keyed.mem_of_get? ht, ?_⟩, rfl⟩
  simp [hover]

/-- Every task that is under way holds one slot. -/
theorem length_underWay (r : Runner) :
  r.underWay.length = r.taken
  := by
  rw [underWay, List.length_map, taken]
  generalize r.tasks = tasks
  induction tasks with
  | nil => rfl
  | cons entry tasks ih =>
    rw [Keyed.total_cons, List.filter_cons, TaskPhase.slots]
    cases hover : entry.2.phase.isOver with
    | true => simpa using ih
    | false => simp [ih, Nat.add_comm]

/-- Every slot is accounted for, and so is every task. -/
structure IsSteady (r : Runner) : Prop where
  room : 0 < r.capacity
  slots : r.free + r.taken = r.capacity
  fired : r.fired = []
  all : ∀ k < r.submitted, k ∈ r.numbers
  unskipped : ∀ k, r.phase? k ≠ some .skipped

theorem isSteady_ofCapacity (n : Nat) :
  (ofCapacity n).IsSteady
  where
    room := by
      rw [ofCapacity]
      dsimp only
      split
      · exact Nat.zero_lt_succ 9
      · next h => exact Nat.pos_of_ne_zero h
    slots := rfl
    fired := rfl
    all := nofun
    unskipped := nofun

/-- If slots are taken, there is a task under way. -/
theorem exists_of_taken (hkeys : (r.tasks.map Prod.fst).Nodup) (h : 0 < r.taken) :
  ∃ k phase, r.phase? k = some phase ∧ phase.isOver = false
  := by
  obtain ⟨⟨k, t⟩, hmem, hpos⟩ := Keyed.exists_of_total_pos h
  refine ⟨k, t.phase, phase?_of_get? (Keyed.get?_of_mem hkeys hmem), ?_⟩
  by_contra hover
  rw [Bool.not_eq_false] at hover
  rw [TaskPhase.slots, if_pos hover] at hpos
  cases hpos

/-! ### Keepers and bodies -/

/-- What keepers and bodies do: tasks go on, and give back their slots when they are over. -/
structure Turns (r r' : Runner) : Prop where
  capacity : r'.capacity = r.capacity
  line : r'.line = r.line
  keys : r'.tasks.map Prod.fst = r.tasks.map Prod.fst
  current : r'.current = r.current
  waits : r'.waits = r.waits
  submitted : r'.submitted = r.submitted
  fired : r'.fired = r.fired
  slots : r'.free + r'.taken = r.free + r.taken
  settled : ∀ k phase, r.phase? k = some phase → phase.isOver → r'.phase? k = some phase
  unskipped : ∀ k, r'.phase? k = some .skipped → r.phase? k = some .skipped

theorem Turns.refl (r : Runner) :
  r.Turns r
  := ⟨rfl, rfl, rfl, rfl, rfl, rfl, rfl, rfl, fun _ _ h _ => h, fun _ h => h⟩

/-- A task that is under way goes on to another phase. -/
theorem turns_setPhase (hkeys : (r.tasks.map Prod.fst).Nodup) {old new : TaskPhase}
    (h : r.phase? task = some old) (hold : old.isOver = false) (hnew : new ≠ .skipped)
    (free : Nat) (errors : List Fault) (hfree : free + new.slots = r.free + old.slots) :
  r.Turns { r.setPhase task new with free, errors }
  where
    capacity := rfl
    line := rfl
    keys := keys_setPhase r task new
    current := rfl
    waits := rfl
    submitted := rfl
    fired := rfl
    slots := by
      have htaken := taken_setPhase hkeys h new
      show free + (r.setPhase task new).taken = r.free + r.taken
      omega
    settled k phase hk hover := by
      show (r.setPhase task new).phase? k = some phase
      rw [phase?_setPhase h, if_neg]
      · exact hk
      · rintro rfl
        cases hk.symm.trans h
        rw [hover] at hold
        cases hold
    unskipped k hk := by
      have hk' : (r.setPhase task new).phase? k = some .skipped := hk
      rw [phase?_setPhase h] at hk'
      split at hk'
      · exact absurd (Option.some.inj hk') hnew
      · exact hk'

theorem turns_of_start (hkeys : (r.tasks.map Prod.fst).Nodup) (h : r.start? task = some r') :
  r.Turns r'
  := by
  obtain ⟨t, ht, hadmitted, -, rfl⟩ := start?_eq_some h
  have hphase := phase?_of_get? ht
  rw [hadmitted] at hphase
  have hnew : TaskPhase.running ≠ .skipped := nofun
  exact turns_setPhase hkeys hphase rfl hnew r.free r.errors rfl

theorem turns_of_finish (hkeys : (r.tasks.map Prod.fst).Nodup) {outcome : TaskOutcome}
    (h : r.finish? task outcome = some r') :
  r.Turns r'
  := by
  obtain ⟨hphase, rfl⟩ := finish?_eq_some.1 h
  have hnew : TaskPhase.returned outcome ≠ .skipped := nofun
  exact turns_setPhase hkeys hphase rfl hnew r.free r.errors rfl

theorem turns_of_collect (hkeys : (r.tasks.map Prod.fst).Nodup) {outcome : TaskOutcome}
    (h : r.collect? task = some (outcome, r')) :
  r.Turns r'
  := by
  obtain ⟨hphase, rfl⟩ := collect?_eq_some h
  have hnew : TaskPhase.ended outcome ≠ .skipped := nofun
  exact turns_setPhase hkeys hphase rfl hnew _ _ rfl

/-! ### Steadiness -/

namespace IsSteady

theorem turns (h : r.IsSteady) (hturns : r.Turns r') :
  r'.IsSteady
  where
    room := by
      rw [hturns.capacity]
      exact h.room
    slots := by
      rw [hturns.slots, hturns.capacity]
      exact h.slots
    fired := by
      rw [hturns.fired]
      exact h.fired
    all k hk := by
      rw [hturns.submitted] at hk
      rw [numbers, hturns.line, hturns.keys]
      exact h.all k hk
    unskipped k hk := h.unskipped k (hturns.unskipped k hk)

theorem submit (h : r.IsSteady) (caller : Party) (token : Token) :
  (r.submit caller token).IsSteady
  where
    room := h.room
    slots := h.slots
    fired := h.fired
    all k hk := by
      rw [(numbers_submit r caller token).mem_iff]
      rcases Nat.lt_succ_iff_lt_or_eq.1 hk with hlt | rfl
      · exact List.mem_cons_of_mem _ (h.all k hlt)
      · exact List.mem_cons_self
    unskipped := h.unskipped

theorem enter (h : r.IsSteady) (hnumbered : r.Numbered)
    (henter : r.enter? caller = some (task, r')) :
  r'.IsSteady
  := by
  have hnumbers := numbers_of_enter henter
  obtain ⟨s, line, hline, -, rfl, hfree, rfl⟩ := enter?_eq_some henter
  constructor
  · exact h.room
  · have htotal := Keyed.total_add (fun t => t.phase.slots) r.tasks s.task { token := s.token }
    have hslots := h.slots
    simp only [taken] at hslots ⊢
    rw [htotal]
    show r.free - 1 + (_ + 1) = r.capacity
    omega
  · exact h.fired
  · intro k hk
    rw [hnumbers.mem_iff]
    exact h.all k hk
  · intro k hk
    have hnone := hnumbered.phase?_of_mem_line (s := s) (by rw [hline]; exact List.mem_cons_self)
    have hadd := phase?_add hnone { token := s.token } k
    have hk' := hadd.symm.trans hk
    split at hk'
    · cases hk'
    · exact h.unskipped k hk'

/-- Nobody leaves the line without a slot. -/
theorem drop?_eq_none (h : r.IsSteady) (caller : Party) :
  r.drop? caller = none
  := by
  rw [Option.eq_none_iff_forall_ne_some]
  intro ⟨k, r'⟩ hdrop
  obtain ⟨s, -, -, -, hfired, -⟩ := drop?_eq_some hdrop
  rw [h.fired] at hfired
  cases hfired

theorem skip?_eq_none (h : r.IsSteady) (task : Nat) :
  r.skip? task = none
  := by
  rw [Option.eq_none_iff_forall_ne_some]
  intro r' hskip
  obtain ⟨t, -, -, hfired, -⟩ := skip?_eq_some hskip
  rw [h.fired] at hfired
  cases hfired

end IsSteady

end Runner

end Reconciliation
