import Mathlib.Data.List.FinRange
import Mathlib.Data.List.Perm.Basic
import Reconciliation.Processor
import Reconciliation.Proofs.System

/-!
# Sessions of a processor

A `Session` is a processor together with a journal of what it has done: which statements it
accepted, which notices its tasks asked to have published, and which identities it drew.  A
`Move` is anything that can happen to the processor: callers upload statements and wait, its
parties act, and the surroundings change as they like.  The publisher need not be the bus; a
call for a notice may be answered with any fault, or with none.

`Session.Leads` is one move and `Session.Runs` any number of them, in any order.
-/

namespace Reconciliation

/-! ### Lists by number -/

/-- A function that brings one element at one place, and nothing elsewhere. -/
theorem flatMap_single {ι β : Type} [DecidableEq ι] {is : List ι} (h : is.Nodup) {i : ι}
    (hi : i ∈ is) (x : β) :
  is.flatMap (fun j => if j = i then [x] else []) = [x]
  := by
  induction is with
  | nil => cases hi
  | cons j is ih =>
    rw [List.nodup_cons] at h
    rw [List.flatMap_cons]
    by_cases hj : j = i
    · subst hj
      have hnil : is.flatMap (fun k => if k = j then [x] else []) = [] := by
        apply List.flatMap_eq_nil_iff.2
        intro k hk
        apply if_neg
        rintro rfl
        exact h.1 hk
      rw [hnil, if_pos rfl, List.append_nil]
    · rw [if_neg hj, List.nil_append]
      exact ih h.2 ((List.mem_cons.1 hi).resolve_left (Ne.symm hj))

/-- Numbered elements are those of all numbers. -/
theorem map_snd_perm {β : Type} {l : List (Nat × β)} {n : Nat} (h : ∀ entry ∈ l, entry.1 < n) :
  (l.map Prod.snd).Perm ((List.finRange n).flatMap fun k =>
    (l.filter (fun entry => entry.1 == k.1)).map Prod.snd)
  := by
  induction l with
  | nil =>
    apply List.Perm.of_eq
    symm
    apply List.flatMap_eq_nil_iff.2
    intro k _
    rfl
  | cons entry l ih =>
    rw [List.forall_mem_cons] at h
    have hcons : ∀ k : Fin n, ((entry :: l).filter (fun e => e.1 == k.1)).map Prod.snd
        = (if k = ⟨entry.1, h.1⟩ then [entry.2] else []) ++
          (l.filter (fun e => e.1 == k.1)).map Prod.snd := by
      intro k
      rw [List.filter_cons]
      by_cases hk : k = ⟨entry.1, h.1⟩
      · simp [hk]
      · have hne : (entry.1 == k.1) = false := by
          rw [beq_eq_false_iff_ne]
          intro heq
          exact hk (Fin.ext heq.symm)
        simp [hk, hne]
    simp only [hcons]
    refine List.Perm.trans ?_ (List.flatMap_append_perm _ _ _)
    rw [flatMap_single (List.nodup_finRange n) (List.mem_finRange _), List.map_cons]
    exact (ih h.2).cons _

/-- What the elements of a list bring is what their numbers bring. -/
theorem flatMap_finRange {α β : Type} (l : List α) (f : α → List β)
    {g : Fin l.length → List β} (h : ∀ k, g k = f l[k]) :
  (List.finRange l.length).flatMap g = l.flatMap f
  := by
  obtain rfl : g = fun k => f (l.get k) := funext h
  conv_rhs => rw [← List.map_get_finRange l, List.flatMap_map]

namespace Processor

/-- What can happen to a processor. -/
inductive Move where
  | upload (caller : Party) (statement : Statement)
  | wait (caller : Party)
  /-- The root token fires. -/
  | cancel
  | act (action : Action)
  /-- A publisher other than the bus answers the call of a task. -/
  | answer (task : Nat) (fault : Option Fault)
  /-- Others use the bus. -/
  | exchange (bus : Bus)
  | tick (clock : Clock)

/-- The processor once the call of a task for its notice is answered. -/
def answer? (p : Processor) (task : Nat) (fault : Option Fault) : Option Processor :=
  match p.runner.phase? task, p.jobs.get? task with
  | some .running, some { stage := .offering reader tally notice, .. } =>
    some (p.published task reader tally notice fault)
  | _, _ => none

/-- The processor after a move. -/
def move (p : Processor) : Move → Option Processor
  | .upload caller statement => some (p.upload caller statement).1
  | .wait caller => some (p.wait caller)
  | .cancel => some p.cancel
  | .act action => (p.apply action).map Prod.fst
  | .answer task fault => p.answer? task fault
  | .exchange bus => some { p with bus }
  | .tick clock => some { p with clock }

/-- A processor that has not been used. -/
structure IsNew (p : Processor) : Prop where
  store : p.store = {}
  jobs : p.jobs = []
  runner : ∃ n, p.runner = .ofCapacity n

end Processor

/-- What a processor has done. -/
structure Journal where
  /-- The identities and the statements of the uploads, in the order of their acceptance. -/
  accepted : List (String × Statement) := []
  /-- The notices that the publisher was called for, each with the task that called. -/
  published : List (Nat × Notice) := []
  /-- The identities drawn. -/
  drawn : List String := []
  /-- The identities drawn for uploads that were refused because an upload had them already. -/
  lost : List String := []
  deriving DecidableEq

namespace Journal

/-- The notices that a task called the publisher for. -/
def publishedBy (j : Journal) (task : Nat) : List Notice :=
  (j.published.filter (fun call => call.1 == task)).map Prod.snd

/-- The journal after an upload was asked for, with the answer. -/
def afterUpload (j : Journal) (statement : Statement) : Except Fault String → Journal
  | .ok id =>
    { j with accepted := j.accepted ++ [(id, statement)], drawn := j.drawn ++ [id] }
  | .error (.uploadConflict id) =>
    { j with drawn := j.drawn ++ [id], lost := j.lost ++ [id] }
  | .error _ => j

/-- The journal after a task has called the publisher. -/
def afterCall (j : Journal) (task : Nat) (notice : Notice) : Journal :=
  { j with published := j.published ++ [(task, notice)] }

/-- The notices are those of all tasks. -/
theorem published_perm (j : Journal) {n : Nat} (h : ∀ call ∈ j.published, call.1 < n) :
  (j.published.map Prod.snd).Perm ((List.finRange n).flatMap fun k => j.publishedBy k.1)
  := map_snd_perm h

/-- The journal after the body of a task has gone on, with the identity that came next. -/
def afterProceed (j : Journal) (task : Nat) (id : String) : JobStage → Journal
  | .announcing _ _ _ => { j with drawn := j.drawn ++ [id] }
  | .offering _ _ notice => j.afterCall task notice
  | _ => j

/-- The journal after a processor has made a move. -/
def after (j : Journal) (p : Processor) : Processor.Move → Journal
  | .upload caller statement => j.afterUpload statement (p.upload caller statement).2
  | .act (.proceed task) =>
    match p.jobs.get? task with
    | some job => j.afterProceed task p.ids.peek job.stage
    | none => j
  | .answer task _ =>
    match p.jobs.get? task with
    | some { stage := .offering _ _ notice, .. } => j.afterCall task notice
    | _ => j
  | _ => j

end Journal

/-- A processor, and what it has done so far. -/
structure Session where
  processor : Processor
  journal : Journal := {}
  deriving DecidableEq

namespace Session

/-- The session after a move. -/
def move (s : Session) (m : Processor.Move) : Option Session :=
  (s.processor.move m).map fun processor =>
    { processor, journal := s.journal.after s.processor m }

/-- A move leads from one session to the other. -/
def Leads (s t : Session) : Prop :=
  ∃ m, s.move m = some t

/-- Moves, in any number and order, lead from one session to the other. -/
def Runs : Session → Session → Prop :=
  Relation.ReflTransGen Leads

theorem move_eq_some {s t : Session} {m : Processor.Move} :
  s.move m = some t
    ↔ s.processor.move m = some t.processor ∧ t.journal = s.journal.after s.processor m
  := by
  unfold move
  rw [Option.map_eq_some_iff]
  constructor
  · rintro ⟨p, hp, rfl⟩
    exact ⟨hp, rfl⟩
  · rintro ⟨hp, hj⟩
    exact ⟨t.processor, hp, by rw [← hj]⟩

/-! ### A session with one upload -/

/-- A statement with a transaction that failed and a line that is no transaction. -/
def small : Statement :=
  { bytes := "1,ann,DEBIT,5,FAILED,rent\nrent".toUTF8.toList }

/-- A processor for the statement. -/
def smallStart : Session :=
  { processor := {
      ids := .listed ["u", "e"]
      clock := .frozen 7
      runner := .ofCapacity 1
      bus := .ofCapacity 1 } }

/-- The statement is accepted and read, its notice refused, and its results saved. -/
def smallMoves : List Processor.Move :=
  [.upload (.caller 0) small, .act (.enter (.caller 0)), .act (.start 0), .act (.proceed 0),
    .act (.proceed 0), .act (.proceed 0), .answer 0 (some .busClosed), .act (.proceed 0),
    .act (.proceed 0), .act (.proceed 0), .act (.proceed 0)]

/-- The session in the end. -/
def smallEnd : Session :=
  (smallMoves.foldlM move smallStart).getD smallStart

theorem runs_small :
  smallStart.Runs smallEnd
  := by
  apply reflTransGen_of_isSome
  decide +kernel

end Session

end Reconciliation
