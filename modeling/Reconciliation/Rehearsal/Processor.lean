import Reconciliation.Processor
import Reconciliation.Rehearsal.Outcome
import Reconciliation.System

/-!
# Rehearsals of the statement processor

Scripted runs of a processor whose notices are taken only when the script says so.
-/

namespace Reconciliation.Rehearsal

/-- The answers to steps. -/
inductive ProcessorAnswer where
  | done
  | accepted (upload : String)
  | refused (fault : Fault)
  | waited (errors : List Fault)
  | balance (view : BalanceView)
  | status (upload : Upload)
  | issues (view : IssuesView)
  /-- The notices taken, and whether the bus has ended. -/
  | drained (notices : List Notice) (ended : Bool)
  | created (result : Except StoreFault Unit)

/-- A processor on stage, and the answers given during the current step. -/
structure ProcessorScene where
  processor : Processor
  answers : List (Nat × ProcessorAnswer) := []

/-- The steps of a script for the processor. -/
inductive ProcessorStep where
  | upload (statement : Statement)
  | wait
  | balance (id : String)
  | status (id : String)
  | issues (id : String) (page : Page) (outcomes directions : Option String)
  | drain (limit : Nat)
  | closeBus
  | cancel
  | create (id : String)
  deriving DecidableEq, Repr

/-- What a step of a script for the processor shows. -/
structure ProcessorOutcome where
  calls : Outcome ProcessorAnswer
  /-- The number of uploads in the store. -/
  uploads : Nat
  freeSlots : Nat
  log : List LogEntry

namespace ProcessorScene

/-- The answer that a reply of the processor makes. -/
def ofReply : Processor.Reply → ProcessorAnswer
  | .accepted upload => .accepted upload
  | .waited errors => .waited errors

/-- The scene after an action. -/
def apply (s : ProcessorScene) (action : Processor.Action) : Option ProcessorScene :=
  (s.processor.apply action).map fun (processor, reply) =>
    let answers := match action.caller?, reply with
      | some p, some r => answerTo p (ofReply r)
      | _, _ => []
    { processor, answers := s.answers ++ answers }

/-- The processor and its callers. -/
def system : System ProcessorScene Processor.Action where
  apply := apply
  parties s := s.processor.parties
  options _ p := Processor.options p
  work s := s.processor.work

/-- The scene with an answer at once. -/
def answer (s : ProcessorScene) (position : Nat) (a : ProcessorAnswer) : ProcessorScene :=
  { s with answers := s.answers ++ [(position, a)] }

/-- The answer to a question. -/
def ofAnswer {α : Type} (f : α → ProcessorAnswer) : Except Fault α → ProcessorAnswer
  | .ok a => f a
  | .error fault => .refused fault

/-- Taking notices one at a time, with everybody acting before each, as long as there is one. -/
def drain (position : Nat) : Nat → List Notice → ProcessorScene → ProcessorScene
  | 0, taken, s => s.answer position (.drained taken.reverse false)
  | limit + 1, taken, s =>
    let s := system.settle s
    match s.processor.takeNotice? (.caller position) with
    | some (n, processor) => drain position limit (n :: taken) { s with processor }
    | none => s.answer position (.drained taken.reverse s.processor.bus.hasEnded)

/-- The beginning of a step. -/
def opening (s : ProcessorScene) (position : Nat) : ProcessorStep → ProcessorScene
  | .upload statement =>
    match s.processor.upload (.caller position) statement with
    | (processor, .ok _) => { s with processor }
    | (processor, .error f) => { s with processor }.answer position (.refused f)
  | .wait => { s with processor := s.processor.wait (.caller position) }
  | .balance id => s.answer position (ofAnswer .balance (s.processor.balance id))
  | .status id =>
    s.answer position (ofAnswer (fun view => .status view.2) (s.processor.status id))
  | .issues id page outcomes directions =>
    s.answer position (ofAnswer .issues (do
      let filter ← IssueFilter.parse outcomes directions
      s.processor.issues id filter page))
  | .drain limit => drain position limit [] s
  | .closeBus =>
    { s with processor := { s.processor with bus := s.processor.bus.close } }.answer position
      .done
  | .cancel => { s with processor := s.processor.cancel }.answer position .done
  | .create id =>
    match s.processor.store.create (.accepted id) with
    | .ok store =>
      { s with processor := { s.processor with store } }.answer position (.created (.ok ()))
    | .error f => s.answer position (.created (.error f))

/-- Doing one step and letting everybody act. -/
def step (s : ProcessorScene) (position : Nat) (t : ProcessorStep) :
    ProcessorScene × ProcessorOutcome :=
  let s := { s with processor := { s.processor with log := [] }, answers := [] }
  let s := system.settle (s.opening position t)
  (s, {
    calls := Outcome.ofAnswers position s.answers
    uploads := s.processor.store.size
    freeSlots := s.processor.runner.free
    log := s.processor.log })

end ProcessorScene

/-- What the steps of a script show with a new processor. -/
def playProcessor (processor : Processor) (steps : List ProcessorStep) :
    List ProcessorOutcome :=
  play ProcessorScene.step { processor } steps

end Reconciliation.Rehearsal
