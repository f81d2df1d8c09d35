import Reconciliation.Proofs.Pool
import Reconciliation.Proofs.Traffic

/-!
# Services

A `Service` is a processor whose publisher is its bus, and a pool of workers that takes the
notices from that bus.  `Service.Move` lists what can happen to it, in any order, as long as no
token fires, and the bus is closed only when all jobs have ended.  `Service.Change` sorts the
moves by what they do to the two sides of the bus.
-/

namespace Reconciliation

/-- A processor with a record of what it has done, and the pool that takes its notices. -/
structure Service where
  session : Session
  pool : Pool

namespace Service

/-- The bus of a service. -/
def bus (s : Service) : Bus := s.session.processor.bus

/-- The service with another bus. -/
def withBus (s : Service) (bus : Bus) : Service :=
  { s with session := { s.session with processor := { s.session.processor with bus } } }

/-- The service with another session. -/
def withSession (s : Service) (session : Session) : Service :=
  { s with session }

/-- All jobs have ended. -/
def isDone (s : Service) : Bool :=
  s.session.processor.jobs.all (fun entry => entry.2.stage == .ended)

/-- What can happen to a service. -/
inductive Move where
  | upload (caller : Party) (statement : Statement)
  | wait (caller : Party)
  | act (action : Processor.Action)
  | work (action : Pool.Action)
  /-- The workers of the plan are started, once more if need be. -/
  | start
  | close
  /-- The bus is closed, and a caller waits for the workers. -/
  | stop (caller : Party) (timeout : Nat)
  | pass (time : Nat)
  | tick (clock : Clock)

/-- The service after a move. -/
def move (s : Service) : Move → Option Service
  | .upload caller statement =>
    if s.bus.isOpen then (s.session.move (.upload caller statement)).map s.withSession else none
  | .wait caller => (s.session.move (.wait caller)).map s.withSession
  | .act action => (s.session.move (.act action)).map s.withSession
  | .work action =>
    (s.pool.apply s.bus action).map fun (bus, pool, _) => { s.withBus bus with pool }
  | .start => some { s with pool := s.pool.start }
  | .close => if s.isDone then some (s.withBus s.bus.close) else none
  | .stop caller timeout =>
    if s.isDone then some { s.withBus s.bus.close with pool := s.pool.stop caller timeout }
    else none
  | .pass time => some { s with pool := s.pool.passTo time }
  | .tick clock => (s.session.move (.tick clock)).map s.withSession

/-- A move leads from one service to the other. -/
def Leads (s t : Service) : Prop :=
  ∃ m, s.move m = some t

/-- Moves, in any number and order, lead from one service to the other. -/
def Runs : Service → Service → Prop :=
  Relation.ReflTransGen Leads

/-- Nothing has happened yet, and the handler of the pool announces what it reconciles. -/
structure IsNew (s : Service) : Prop where
  session : s.session.IsNew
  bus : ∃ n, s.bus = .ofCapacity n
  pool : ∃ plan millis, s.pool = .ofPlan plan (.announcing millis)

variable {s t : Service}

/-- What happens to the session of a service can happen to a session. -/
theorem Leads.session (h : s.Leads t) :
  s.session.Runs t.session
  := by
  obtain ⟨m, hm⟩ := h
  cases m with
  | upload caller statement =>
    simp only [move] at hm
    split at hm
    · obtain ⟨session, hsession, rfl⟩ := Option.map_eq_some_iff.1 hm
      exact .single ⟨_, hsession⟩
    · cases hm
  | wait | act | tick =>
    simp only [move] at hm
    obtain ⟨session, hsession, rfl⟩ := Option.map_eq_some_iff.1 hm
    exact .single ⟨_, hsession⟩
  | work action =>
    obtain ⟨⟨bus, pool, _⟩, -, rfl⟩ := Option.map_eq_some_iff.1 hm
    exact .single ⟨.exchange bus, rfl⟩
  | start | pass =>
    cases hm
    exact .refl
  | close | stop =>
    simp only [move] at hm
    split at hm
    · cases hm
      exact .single ⟨.exchange s.bus.close, rfl⟩
    · cases hm

theorem Runs.session (h : s.Runs t) :
  s.session.Runs t.session
  := by
  induction h with
  | refl => exact .refl
  | tail _ hleads ih => exact ih.trans (Leads.session hleads)

end Service

/-! ### What a move changes -/

/-- Two pools differ in their time and in the callers who wait for them. -/
def Pool.IsLike (p q : Pool) : Prop :=
  ∃ stops handles now, q = { p with stops, handles, now }

namespace Service

variable {s t : Service}

/-- What a move does to the two sides of the bus. -/
inductive Change (s t : Service) : Prop where
  | uploads (hopen : s.bus.isOpen) (hbus : t.bus = s.bus) (hpool : t.pool = s.pool)
      (hpublished : t.session.journal.published = s.session.journal.published)
      (hwaiting : t.session.processor.waiting = s.session.processor.waiting)
  | deals (h : s.session.Deals t.session) (hpool : t.pool = s.pool)
      (haccepted : t.session.journal.accepted = s.session.journal.accepted)
  | works (h : Pool.Step s.bus s.pool t.bus t.pool) (hsession : t = { s.withBus t.bus with
      pool := t.pool })
  | starts (h : t = { s with pool := s.pool.start })
  | closes (hdone : s.isDone) (h : t = { s.withBus s.bus.close with pool := t.pool })
      (hpool : s.pool.IsLike t.pool)
  | passes (h : t = { s with pool := t.pool }) (hpool : s.pool.IsLike t.pool)

theorem change_of_move {m : Move} (hs : s.session.Sound) (h : s.move m = some t) :
  s.Change t
  := by
  cases m with
  | upload caller statement =>
    simp only [move] at h
    split at h
    · next hopen =>
      obtain ⟨session, hsession, rfl⟩ := Option.map_eq_some_iff.1 h
      obtain ⟨hbus, hpublished, hwaiting⟩ := Session.deals_of_upload hsession
      exact .uploads hopen hbus rfl hpublished hwaiting
    · cases h
  | wait | tick =>
    simp only [move] at h
    obtain ⟨session, hsession, rfl⟩ := Option.map_eq_some_iff.1 h
    cases hsession
    exact .deals (.still rfl rfl .rfl) rfl rfl
  | act a =>
    obtain ⟨session, hsession, rfl⟩ := Option.map_eq_some_iff.1 h
    refine .deals (Session.deals_of_action hs hsession) rfl ?_
    obtain ⟨-, hjournal⟩ := Session.move_eq_some.1 hsession
    rw [withSession, hjournal, Journal.accepted_after_act]
  | work a =>
    obtain ⟨⟨bus, pool, answer⟩, hstep, rfl⟩ := Option.map_eq_some_iff.1 h
    exact .works (Pool.step_of_apply hstep) rfl
  | start =>
    cases h
    exact .starts rfl
  | close =>
    simp only [move] at h
    split at h
    · next hdone =>
      cases h
      exact .closes hdone rfl ⟨_, _, _, rfl⟩
    · cases h
  | stop caller timeout =>
    simp only [move] at h
    split at h
    · next hdone =>
      cases h
      exact .closes hdone rfl ⟨_, _, _, rfl⟩
    · cases h
  | pass time =>
    cases h
    exact .passes rfl ⟨_, _, _, rfl⟩

/-! ### A service with one upload -/

/-- A processor for the small statement, and a worker for its notice. -/
def smallStart : Service :=
  { session := { processor := {
      ids := .labelled "n"
      clock := .frozen 7
      runner := .ofCapacity 1
      bus := .ofCapacity 1 } }
    pool := .ofPlan { workers := 1, retries := 0, delay := .zero } (.announcing 0) }

theorem isNew_smallStart :
  smallStart.IsNew
  where
    session := ⟨⟨rfl, rfl, 1, rfl⟩, rfl⟩
    bus := ⟨1, rfl⟩
    pool := ⟨_, _, rfl⟩

/-- The statement is processed, its notice is reconciled, and the service comes to its end. -/
def smallMoves : List Move :=
  [.start, .upload (.caller 0) Session.small, .act (.enter (.caller 0)), .act (.start 0),
    .act (.proceed 0), .act (.proceed 0), .act (.proceed 0), .act (.proceed 0),
    .act (.accept 0), .work (.ask 0), .work (.receive 0), .act (.proceed 0), .work (.begin 0),
    .act (.proceed 0), .act (.proceed 0), .act (.proceed 0), .close, .work (.conclude 0),
    .work (.ask 0), .work (.dismiss 0)]

/-- The service in the end. -/
def smallEnd : Service :=
  (smallMoves.foldlM move smallStart).getD smallStart

theorem runs_small :
  smallStart.Runs smallEnd
  := by
  apply reflTransGen_of_isSome
  decide +kernel

end Service

end Reconciliation
