import Mathlib.Data.List.Perm.Subperm
import Reconciliation.Proofs.Agreement
import Reconciliation.Proofs.Effort
import Reconciliation.Proofs.Tasks

/-!
# Uploads in processing

Whatever a processor does, its runner stays in order (`Session.Runs.accounts`): a move is at most
one call, or one step of those at the runner (`Runner.Follows`).  An upload is in processing while
its task runs, so there are never more of them than slots (`Session.Runs.length_processing_le`).
But a task that its statement brings down gives back its slot, and leaves its upload as it is.
-/

namespace Reconciliation

/-! ### The runner of a session -/

namespace Processor

/-- A caller begins to wait. -/
def Move.isWait : Move → Bool
  | .wait _ => true
  | .upload _ _ => false
  | .cancel => false
  | .act _ => false
  | .answer _ _ => false
  | .exchange _ => false
  | .tick _ => false

/-- A caller uploads a statement, or begins to wait. -/
def Move.isCall : Move → Bool
  | .wait _ => true
  | .upload _ _ => true
  | .cancel => false
  | .act _ => false
  | .answer _ _ => false
  | .exchange _ => false
  | .tick _ => false

end Processor

/-- What a move of a processor does to the runner. -/
inductive Runner.Follows (r : Runner) : Processor.Move → Runner → Prop where
  | still (m : Processor.Move) (h : ∀ caller, m ≠ .wait caller) : Follows r m r
  | submit (caller : Party) (statement : Statement) :
    Follows r (.upload caller statement) (r.submit caller Processor.root)
  | wait (caller : Party) : Follows r (.wait caller) (r.wait caller)
  | cancel : Follows r .cancel (r.fire Processor.root)
  | shift {a : Processor.Action} {r' : Runner} (h : r.Shift r') : Follows r (.act a) r'

namespace Processor

variable {p q : Processor}

theorem follows_of_apply {a : Action} {reply : Option Reply} (h : p.apply a = some (q, reply)) :
  p.runner.Follows (.act a) q.runner
  := by
  cases acts_of_apply h with
  | enter henter => exact .shift (.enter henter)
  | drop hdrop => exact .shift (.drop hdrop)
  | report hreport => exact .shift (.report hreport)
  | skip hskip => exact .shift (Runner.shift_of_skip hskip)
  | start hstart => exact .shift (Runner.shift_of_start hstart)
  | collect hcollect => exact .shift (Runner.shift_of_collect hcollect)
  | body hadvances =>
    rcases hadvances.runner with hsame | ⟨o, hfinish⟩
    · rw [hsame]
      exact .still _ nofun
    · exact .shift (Runner.shift_of_finish hfinish)

theorem runner_of_answer {task : Nat} {fault : Option Fault} (h : p.answer? task fault = some q) :
  q.runner = p.runner
  := by
  rw [answer?] at h
  split at h
  · next id reader tally notice _ _ =>
    cases h
    obtain ⟨log, hpublished⟩ := published_eq p task reader tally notice fault
    rw [hpublished]
    rfl
  · cases h

theorem follows_of_move {m : Move} (h : p.move m = some q) :
  p.runner.Follows m q.runner
  := by
  cases m with
  | upload caller statement =>
    cases h
    rcases p.upload_cases caller statement with ⟨part, -, -, hup⟩ | ⟨-, hup⟩ | ⟨-, store, -, hup⟩
    · rw [hup]
      exact .still _ nofun
    · rw [hup]
      exact .still _ nofun
    · rw [hup]
      exact .submit caller statement
  | wait caller =>
    cases h
    exact .wait caller
  | cancel =>
    cases h
    exact .cancel
  | act a =>
    obtain ⟨⟨q, reply⟩, hq, rfl⟩ := Option.map_eq_some_iff.1 h
    exact follows_of_apply hq
  | answer task fault =>
    rw [runner_of_answer h]
    exact .still _ nofun
  | exchange | tick =>
    cases h
    exact .still _ nofun

end Processor

namespace Runner

variable {r r' : Runner} {m : Processor.Move}

theorem Follows.accounts (h : r.Follows m r') (hr : r.Accounts) :
  r'.Accounts
  := by
  cases h with
  | still => exact hr
  | submit caller => exact hr.submit caller Processor.root
  | wait caller => exact hr.wait caller
  | cancel => exact hr.fire Processor.root
  | shift h => exact hr.shift h

theorem Follows.capacity (h : r.Follows m r') :
  r'.capacity = r.capacity
  := by
  cases h with
  | still | submit | wait | cancel => rfl
  | shift h => exact h.constant.1

theorem Follows.isUnwaited (h : r.Follows m r') (hm : m.isWait = false) (hr : r.IsUnwaited) :
  r'.IsUnwaited
  := by
  cases h with
  | still => exact hr
  | submit caller => exact hr.submit caller Processor.root
  | wait => cases hm
  | cancel => exact hr.fire Processor.root
  | shift h => exact hr.shift h

theorem Follows.hasWaiters (h : r.Follows m r') (hm : m.isCall = false) (hr : r.HasWaiters) :
  r'.HasWaiters
  := by
  cases h with
  | still => exact hr
  | submit | wait => cases hm
  | cancel => exact hr.fire Processor.root
  | shift h => exact hr.shift h

/-- No token fires but that of the processor. -/
theorem Follows.fired (h : r.Follows m r') (hr : ∀ token ∈ r.fired, token = Processor.root) :
  ∀ token ∈ r'.fired, token = Processor.root
  := by
  cases h with
  | still | submit | wait => exact hr
  | cancel =>
    intro token htoken
    rcases List.mem_cons.1 htoken with rfl | hmem
    · rfl
    · exact hr token hmem
  | shift h =>
    rw [h.constant.2]
    exact hr

end Runner

namespace Session

variable {start s t : Session} {caller : Party} {task : Nat} {id : String}
  {statement : Statement}

/-- Moves of a kind, in any number and order, lead from one session to the other. -/
def RunsBy (allowed : Processor.Move → Bool) : Session → Session → Prop :=
  Relation.ReflTransGen fun s t => ∃ m, allowed m = true ∧ s.move m = some t

theorem RunsBy.runs {allowed : Processor.Move → Bool} (h : s.RunsBy allowed t) :
  s.Runs t
  := by
  induction h with
  | refl => exact .refl
  | tail _ hleads ih =>
    obtain ⟨m, -, hm⟩ := hleads
    exact ih.tail ⟨m, hm⟩

/-- What moves of a kind keep of a runner holds after any number of them. -/
theorem RunsBy.keeps {allowed : Processor.Move → Bool} {P : Runner → Prop}
    (hP : ∀ {r r' m}, allowed m = true → r.Follows m r' → P r → P r')
    (hs : P s.processor.runner) (h : s.RunsBy allowed t) :
  P t.processor.runner
  := by
  induction h with
  | refl => exact hs
  | tail _ hleads ih =>
    obtain ⟨m, hallowed, hm⟩ := hleads
    exact hP hallowed (Processor.follows_of_move (move_eq_some.1 hm).1) ih

/-- What every move keeps of a runner holds after any number of them. -/
theorem Runs.keeps {P : Runner → Prop} (hP : ∀ {r r' m}, r.Follows m r' → P r → P r')
    (hs : P s.processor.runner) (h : s.Runs t) :
  P t.processor.runner
  := by
  induction h with
  | refl => exact hs
  | tail _ hleads ih =>
    obtain ⟨m, hm⟩ := hleads
    exact hP (Processor.follows_of_move (move_eq_some.1 hm).1) ih

theorem Runs.accounts (hnew : start.IsNew) (h : start.Runs s) :
  s.processor.runner.Accounts
  := by
  obtain ⟨n, hrunner⟩ := hnew.processor.runner
  apply h.keeps Runner.Follows.accounts
  rw [hrunner]
  exact Runner.accounts_ofCapacity n

theorem Runs.capacity (h : start.Runs s) :
  s.processor.runner.capacity = start.processor.runner.capacity
  := h.keeps (P := fun r => r.capacity = start.processor.runner.capacity)
      (fun hfollows hr => hfollows.capacity.trans hr) rfl

theorem Runs.fired (hnew : start.IsNew) (h : start.Runs s) :
  ∀ token ∈ s.processor.runner.fired, token = Processor.root
  := by
  obtain ⟨n, hrunner⟩ := hnew.processor.runner
  apply h.keeps Runner.Follows.fired
  rw [hrunner]
  exact nofun

/-! ### Uploads that are being processed -/

/-- The record of an upload, by its number. -/
def record? (s : Session) (task : Nat) : Option UploadRecord :=
  s.journal.accepted[task]?.bind fun upload => s.processor.store.get? upload.1

/-- The numbers of the uploads that are being processed. -/
def processing (s : Session) : List Nat :=
  (List.range s.journal.accepted.length).filter fun task =>
    (s.record? task).any (fun r => r.upload.stage == .processing)

/-- The task of an upload was brought down. -/
def isBroken (s : Session) (task : Nat) : Bool :=
  match (s.processor.runner.phase? task).bind TaskPhase.outcome? with
  | some (.panicked _) => true
  | some .succeeded => false
  | some (.failed _) => false
  | none => false

end Session

/-- Only the body of a running task, or one that was brought down, has its upload in processing. -/
theorem Course.Agrees.phase_of_processing {missing : List Part} {id : String} {st : Statement}
    {c : Course} (h : c.Agrees missing id st) (hstage : c.record.upload.stage = .processing) :
  c.phase = some .running ∨ ∃ payload, c.outcome? = some (.panicked payload)
  := by
  rcases h.stage_cases with ⟨-, -, hrecord, -⟩ | ⟨-, hphase, -⟩ | ⟨_, -, hphase, -⟩ |
    ⟨-, -, hclosed⟩
  · rw [hrecord] at hstage
    cases hstage
  · exact .inl hphase
  · exact .inl hphase
  · cases hclosed with
    | finished _ begin close hrecord =>
      rw [hrecord] at hstage
      simp only [Processor.closed, Processor.concluded] at hstage
      split at hstage
      · cases hstage
      · cases hstage
    | panicked _ _ _ m houtcome => exact .inr ⟨_, houtcome⟩

namespace Session

variable {start s t u : Session} {caller : Party} {task : Nat} {id : String}
  {statement : Statement}

theorem record?_of_accepted (haccepted : s.journal.accepted[task]? = some (id, statement)) :
  s.record? task = s.processor.store.get? id
  := by
  rw [record?, haccepted]
  rfl

/-- The task of an upload that is being processed is under way, unless it was brought down. -/
theorem Runs.mem_underWay (hnew : start.IsNew) (h : start.Runs s) (htask : task ∈ s.processing)
    (hbroken : s.isBroken task = false) :
  task ∈ s.processor.runner.underWay
  := by
  obtain ⟨hrange, hany⟩ := List.mem_filter.1 htask
  have haccepted := List.getElem?_eq_getElem (List.mem_range.1 hrange)
  obtain ⟨c, hc, hagrees⟩ := h.agrees hnew haccepted
  rw [record?_of_accepted haccepted, hc.record, Option.any_some, beq_iff_eq] at hany
  rcases hagrees.phase_of_processing hany with hrunning | ⟨payload, houtcome⟩
  · exact Runner.mem_underWay (hc.phase.trans hrunning) rfl
  · rw [Course.outcome?, ← hc.phase] at houtcome
    rw [isBroken, houtcome] at hbroken
    cases hbroken

/-- There are never more uploads in processing than there are slots, but for those whose tasks
were brought down. -/
theorem Runs.length_processing_le (hnew : start.IsNew) (h : start.Runs s) :
  (s.processing.filter (fun task => !s.isBroken task)).length ≤ start.processor.runner.capacity
  := by
  have hnodup : (s.processing.filter (fun task => !s.isBroken task)).Nodup :=
    (List.nodup_range.filter _).filter _
  have hsubset : s.processing.filter (fun task => !s.isBroken task)
      ⊆ s.processor.runner.underWay := by
    intro task htask
    obtain ⟨hprocessing, hbroken⟩ := List.mem_filter.1 htask
    exact h.mem_underWay hnew hprocessing (by simpa using hbroken)
  rw [← h.capacity]
  exact (hnodup.subperm hsubset).length_le.trans (h.accounts hnew).length_underWay_le

end Session

end Reconciliation
