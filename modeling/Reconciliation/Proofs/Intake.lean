import Reconciliation.Engine
import Reconciliation.Proofs.Demand
import Reconciliation.Proofs.Effort
import Reconciliation.Proofs.Pairing
import Reconciliation.Proofs.Slots
import Reconciliation.Proofs.Workers

/-!
# Taking in the inputs

An engine is a service with an usher, who uploads the inputs one after the other, waits for all
of them to be processed, and closes the bus.  `Engine.Orderly` says how far the usher has come:
the accepted statements are those of the first inputs, in their order; at the runner there waits
nobody but the usher; and when the usher's waiting is over, so are all tasks.  Whatever the
others do in between, every engine that a run comes to is orderly (`Engine.exists_orderly`), if
the source of identities serves the demand of the inputs.
-/

namespace Reconciliation

namespace Intake

/-- Inputs can still be taken in. -/
def isTaking : Intake → Bool
  | .ready _ => true
  | .entering _ _ => true
  | .waiting => false
  | .processed => false
  | .closed => false
  | .refused _ => false

/-- All inputs are processed. -/
def isOver : Intake → Bool
  | .ready _ => false
  | .entering _ _ => false
  | .waiting => false
  | .processed => true
  | .closed => true
  | .refused _ => false

/-- The label of the input whose upload waits to be admitted. -/
def label? : Intake → Option String
  | .entering label _ => some label
  | .ready _ => none
  | .waiting => none
  | .processed => none
  | .closed => none
  | .refused _ => none

end Intake

namespace Engine

/-- The number of identities that the uploads of the inputs need. -/
def demand (inputs : List Input) : Nat :=
  (inputs.map fun i => i.statement.demand).sum

/-- The service that an engine runs, with what its processor has done. -/
def service (e : Engine) (j : Journal) : Service :=
  { session := { processor := e.processor, journal := j }, pool := e.pool }

/-- The service that a run begins with, before the workers are started. -/
def origin (settings : Settings) (ids : IdSource) (clock : Clock) : Service :=
  { session := { processor := (start settings ids clock []).processor }
    pool := .ofPlan settings.normalized.plan (.announcing 0) }

theorem isNew_origin (settings : Settings) (ids : IdSource) (clock : Clock) :
  (origin settings ids clock).IsNew
  where
    session := ⟨⟨rfl, rfl, _, rfl⟩, rfl⟩
    bus := ⟨_, rfl⟩
    pool := ⟨_, _, rfl⟩

/-! ### Where the usher stands -/

/-- The submissions that wait for a slot. -/
def line (e : Engine) : List Submission :=
  match e.intake with
  | .entering _ _ => [{ caller := usher, task := e.uploads.length, token := Processor.root }]
  | _ => []

/-- Those who wait for tasks to end. -/
def waits (e : Engine) : List Wait :=
  match e.intake with
  | .waiting => [{ caller := usher, tasks := e.processor.runner.tasks.map Prod.fst }]
  | _ => []

/-- The accepted statements, and the labels and identities of the uploads, are those of the
inputs, as far as they have been taken in. -/
structure Matches (inputs : List Input) (e : Engine) (accepted : List (String × Statement)) :
    Prop where
  statements : inputs.map Input.statement
    = accepted.map Prod.snd ++ (remaining e.intake).map Input.statement
  labels : inputs.map Input.label
    = e.uploads.map Prod.fst ++ (e.intake.label?.toList ++
        (remaining e.intake).map Input.label)
  ids : e.uploads.map Prod.snd <+: accepted.map Prod.fst

/-- Nobody waits at the runner but the usher. -/
structure Awaits (e : Engine) : Prop where
  steady : e.processor.runner.IsSteady
  line : e.processor.runner.line = e.line
  waits : e.processor.runner.waits = e.waits
  current : e.intake.isTaking →
    e.processor.runner.current = e.processor.runner.tasks.map Prod.fst
  settled : e.intake.isOver → ∀ k phase, e.processor.runner.phase? k = some phase → phase.isOver
  isOpen : e.intake ≠ .closed → e.processor.bus.isOpen
  unrefused : ∀ f, e.intake ≠ .refused f

/-- The engine has come from its base in good order. -/
structure Orderly (base : Service) (inputs : List Input) (e : Engine) (j : Journal) : Prop where
  runs : base.Runs (e.service j)
  lost : j.lost = []
  fits : e.Matches inputs j.accepted
  awaits : e.Awaits
  bounded : e.pool.IsBounded
  prompt : e.pool.IsPrompt

variable {base : Service} {inputs rest : List Input} {e e' : Engine} {j : Journal}
  {input : Input}

/-- All accepted uploads are listed but for the one that waits to be admitted. -/
theorem Matches.length {accepted : List (String × Statement)} (h : e.Matches inputs accepted) :
  accepted.length = e.uploads.length + e.intake.label?.toList.length
  := by
  have hstatements := congrArg List.length h.statements
  have hlabels := congrArg List.length h.labels
  simp only [List.length_map, List.length_append] at hstatements hlabels
  omega

theorem orderly_start (settings : Settings) (ids : IdSource) (clock : Clock)
    (inputs : List Input) :
  (start settings ids clock inputs).Orderly (origin settings ids clock) inputs {}
  where
    runs := .single ⟨.start, rfl⟩
    lost := rfl
    fits := ⟨rfl, rfl, List.prefix_rfl⟩
    awaits := ⟨Runner.isSteady_ofCapacity _, rfl, rfl, fun _ => rfl, nofun, fun _ => rfl, nofun⟩
    bounded := Pool.isBounded_start _ _
    prompt := Pool.isPrompt_start _

/-! ### What the usher does -/

theorem exists_of_apply_upload (ha : e.apply .upload = some e') :
  ∃ input rest, e.intake = .ready (input :: rest)
  := by
  simp only [apply] at ha
  split at ha
  · next input rest hintake => exact ⟨input, rest, hintake⟩
  · cases ha

theorem apply_wait_eq_some (ha : e.apply .wait = some e') :
  e.intake = .ready [] ∧ e' = { e with processor := e.processor.wait usher, intake := .waiting }
  := by
  simp only [apply] at ha
  split at ha
  · next hintake => exact ⟨hintake, (Option.some.inj ha).symm⟩
  · cases ha

theorem apply_close_eq_some (ha : e.apply .close = some e') :
  e.intake = .processed ∧ e' = { e with
    processor := { e.processor with bus := e.processor.bus.close }
    intake := .closed }
  := by
  simp only [apply] at ha
  split at ha
  · next hintake => exact ⟨hintake, (Option.some.inj ha).symm⟩
  · cases ha

/-! ### Uploads -/

namespace Orderly

/-- What was drawn is drawn from the source, and the next identity after it. -/
theorem drawn_peek (h : e.Orderly base inputs j) (hnew : base.IsNew) :
  j.drawn ++ [e.processor.ids.peek]
    = base.session.processor.ids.drawMany (j.drawn.length + 1)
  := by
  obtain ⟨ds, hids, hdrawn⟩ := h.runs.session.draws hnew.session.sound
  have hdrawn : j.drawn = base.session.journal.drawn ++ ds := hdrawn
  rw [hnew.session.journal, List.nil_append] at hdrawn
  have hmore := (hids.append (IdSource.draws_one _)).eq_drawMany
  rw [List.length_append, List.length_singleton] at hmore
  rw [hdrawn]
  exact hmore

/-- The inputs that are taken in and those that remain have need of what all of them have need
of. -/
theorem demand_eq (h : e.Orderly base inputs j) :
  demand inputs
    = (j.accepted.map (fun upload => upload.2.demand)).sum + demand (remaining e.intake)
  := by
  have hstatements := congrArg (fun l => (l.map Statement.demand).sum) h.fits.statements
  simp only [List.map_append, List.map_map, List.sum_append] at hstatements
  exact hstatements

theorem length_drawn_le (h : e.Orderly base inputs j) (hnew : base.IsNew) :
  j.drawn.length + demand (remaining e.intake) ≤ demand inputs
  := by
  have hdrawn : j.drawn.length
      ≤ (j.accepted.map (fun upload => upload.2.demand)).sum + j.lost.length :=
    h.runs.session.length_drawn_le hnew.session
  rw [h.lost, List.length_nil] at hdrawn
  have hdemand := h.demand_eq
  omega

/-- The identities that were drawn are universally unique identifiers, and none came twice. -/
theorem drawn (h : e.Orderly base inputs j) (hnew : base.IsNew)
    (hserves : base.session.processor.ids.Serves (demand inputs)) :
  (∀ id ∈ j.drawn, isUniqueId id) ∧ j.drawn.Nodup
  := by
  have hlength := h.length_drawn_le hnew
  obtain ⟨hunique, hnodup⟩ := hserves.of_le (m := j.drawn.length) (by omega)
  have hdrawn : j.drawn = base.session.processor.ids.drawMany j.drawn.length :=
    h.runs.session.drawn_eq hnew.session
  rw [← hdrawn] at hunique hnodup
  exact ⟨hunique, hnodup⟩

/-- The identity of an upload was drawn. -/
theorem mem_drawn (h : e.Orderly base inputs j) (hnew : base.IsNew) {id : String}
    (hid : id ∈ j.accepted.map Prod.fst) :
  id ∈ j.drawn
  := by
  have hbalanced : Session.Balanced { processor := e.processor, journal := j } :=
    h.runs.session.balanced hnew.session
  rw [hbalanced.mem_iff]
  simp only [List.mem_append]
  exact .inl (.inl (.inl hid))

/-- The identity that is drawn for the next input is free. -/
theorem get?_peek (h : e.Orderly base inputs j) (hnew : base.IsNew)
    (hserves : base.session.processor.ids.Serves (demand inputs))
    (hintake : e.intake = .ready (input :: rest)) :
  e.processor.store.get? e.processor.ids.peek = none
  := by
  have hlength := h.length_drawn_le hnew
  have hpos : 1 ≤ demand (remaining e.intake) := by
    rw [hintake, remaining, demand, List.map_cons, List.sum_cons, Statement.demand]
    omega
  have hnodup := (hserves.of_le (m := j.drawn.length + 1) (by omega)).nodup
  rw [← h.drawn_peek hnew] at hnodup
  by_contra hsome
  have hs : Session.Sound { processor := e.processor, journal := j } := h.runs.sound hnew
  have haccepted : e.processor.ids.peek ∈ j.accepted.map Prod.fst :=
    (hs.stored _).1 (Option.isSome_iff_ne_none.2 hsome)
  have hdrawn := h.mem_drawn hnew haccepted
  exact (List.nodup_append.1 hnodup).2.2 _ hdrawn _ (List.mem_singleton_self _) rfl

/-- The next input is accepted. -/
theorem exists_upload (h : e.Orderly base inputs j) (hnew : base.IsNew)
    (hmissing : base.session.processor.missing = [])
    (hserves : base.session.processor.ids.Serves (demand inputs))
    (hintake : e.intake = .ready (input :: rest)) :
  ∃ store, e.processor.upload usher input.statement
      = (e.processor.accepting usher input.statement store, .ok e.processor.ids.peek) ∧
    e.apply .upload = some { e with
      processor := e.processor.accepting usher input.statement store
      intake := .entering input.label rest }
  := by
  have hfree := h.get?_peek hnew hserves hintake
  have hnone : e.processor.missing = [] :=
    (h.runs.session.missing hnew.session.sound).trans hmissing
  rcases e.processor.upload_cases usher input.statement with
    ⟨part, -, hmem, -⟩ | ⟨htaken, -⟩ | ⟨-, store, -, hup⟩
  · rw [hnone] at hmem
    cases hmem
  · exact absurd hfree htaken
  · refine ⟨store, hup, ?_⟩
    simp only [apply, hintake, hup]

theorem upload (h : e.Orderly base inputs j) (hnew : base.IsNew)
    (hmissing : base.session.processor.missing = [])
    (hserves : base.session.processor.ids.Serves (demand inputs))
    (hintake : e.intake = .ready (input :: rest)) (ha : e.apply .upload = some e') :
  ∃ j', e'.Orderly base inputs j'
  := by
  obtain ⟨store, hup, happly⟩ := h.exists_upload hnew hmissing hserves hintake
  cases happly.symm.trans ha
  have hopen : e.processor.bus.isOpen := h.awaits.isOpen (by simp [hintake])
  have hlength : j.accepted.length = e.uploads.length := by
    rw [h.fits.length, hintake]
    rfl
  have hsubmitted : e.processor.runner.submitted = e.uploads.length :=
    (h.runs.sound hnew).submitted.trans hlength
  refine ⟨j.afterUpload input.statement (.ok e.processor.ids.peek), ?_, ?_, ?_, ?_, ?_, ?_⟩
  · refine h.runs.tail ⟨.upload usher input.statement, ?_⟩
    simp only [Service.move, Service.bus, service, hopen, Session.move, Processor.move,
      Journal.after, hup]
    rfl
  · exact h.lost
  · constructor
    · rw [h.fits.statements, hintake, Journal.afterUpload]
      simp only [remaining, List.map_append, List.map_cons, List.map_nil, List.append_assoc,
        List.singleton_append]
    · rw [h.fits.labels, hintake]
      rfl
    · rw [Journal.afterUpload, List.map_append]
      exact h.fits.ids.trans (List.prefix_append _ _)
  · constructor
    · exact h.awaits.steady.submit usher Processor.root
    · show e.processor.runner.line ++ [_] = [_]
      rw [h.awaits.line, line, hintake, hsubmitted]
      rfl
    · show e.processor.runner.waits = []
      rw [h.awaits.waits, waits, hintake]
    · intro _
      exact h.awaits.current (by rw [hintake]; rfl)
    · intro hover
      cases hover
    · exact fun _ => hopen
    · intro f hrefused
      cases hrefused
  · exact h.bounded
  · exact h.prompt

/-- The usher begins to wait. -/
theorem wait (h : e.Orderly base inputs j) (ha : e.apply .wait = some e') :
  ∃ j', e'.Orderly base inputs j'
  := by
  obtain ⟨hintake, rfl⟩ := apply_wait_eq_some ha
  have hopen : e.processor.bus.isOpen := h.awaits.isOpen (by rw [hintake]; exact nofun)
  refine ⟨j, h.runs.tail ⟨.wait usher, rfl⟩, h.lost, ?_, ?_, h.bounded, h.prompt⟩
  · constructor
    · rw [h.fits.statements, hintake]
      rfl
    · rw [h.fits.labels, hintake]
      rfl
    · exact h.fits.ids
  · obtain ⟨hroom, hslots, hfired, hall, hunskipped⟩ := h.awaits.steady
    constructor
    · exact ⟨hroom, hslots, hfired, hall, hunskipped⟩
    · show e.processor.runner.line = []
      rw [h.awaits.line, line, hintake]
    · show e.processor.runner.waits ++ [_] = [_]
      rw [h.awaits.waits, waits, hintake, h.awaits.current (by rw [hintake]; rfl)]
      rfl
    · exact nofun
    · exact nofun
    · exact fun _ => hopen
    · exact nofun

/-- When the inputs are processed, the task of every upload has ended. -/
theorem exists_outcome (h : e.Orderly base inputs j) (hnew : base.IsNew)
    (hover : e.intake.isOver) {task : Nat} {id : String} {statement : Statement}
    (haccepted : j.accepted[task]? = some (id, statement)) :
  ∃ c o, (e.service j).session.Shows task id c ∧
    c.Agrees base.session.processor.missing id statement ∧ c.outcome? = some o
  := by
  obtain ⟨c, hc, hagrees⟩ := h.runs.session.agrees hnew.session haccepted
  have hs := h.runs.sound hnew
  have hline : e.processor.runner.line = [] := by
    rw [h.awaits.line, line]
    cases hintake : e.intake with
    | ready | waiting | processed | closed | refused => rfl
    | entering =>
      rw [hintake] at hover
      cases hover
  have hlt : task < e.processor.runner.submitted := by
    rw [show e.processor.runner.submitted = j.accepted.length from hs.submitted]
    exact (List.getElem?_eq_some_iff.1 haccepted).1
  have hmem := h.awaits.steady.all task hlt
  rw [Runner.numbers, hline, List.map_nil, List.nil_append] at hmem
  obtain ⟨phase, hphase⟩ := Runner.exists_phase?_iff.2 hmem
  have hphaseOver := h.awaits.settled hover task phase hphase
  have hcphase : c.phase = some phase := hc.phase.symm.trans hphase
  cases phase with
  | ended o => exact ⟨c, o, hc, hagrees, by rw [Course.outcome?, hcphase]; rfl⟩
  | skipped => exact absurd hphase (h.awaits.steady.unskipped task)
  | admitted | running | returned => cases hphaseOver

/-- When the inputs are processed, all jobs have ended. -/
theorem isDone (h : e.Orderly base inputs j) (hnew : base.IsNew) (hover : e.intake.isOver) :
  (e.service j).isDone
  := by
  have hs := h.runs.sound hnew
  rw [Service.isDone, List.all_eq_true]
  intro ⟨k, id, stage⟩ hmem
  obtain ⟨c, hc, hstage⟩ := hs.exists_shows_of_job (Keyed.get?_of_mem hs.keys hmem)
  have hlt := hs.lt_of_shows hc
  obtain ⟨c', o, hc', hagrees, houtcome⟩ :=
    h.exists_outcome hnew hover (List.getElem?_eq_getElem hlt)
  obtain ⟨-, rfl⟩ := hc.unique hc'
  obtain ⟨hended, -⟩ := hagrees.ended_of_outcome? houtcome
  rw [← hstage, hended]
  rfl

/-- The bus is closed when all inputs are processed. -/
theorem close (h : e.Orderly base inputs j) (hnew : base.IsNew) (ha : e.apply .close = some e') :
  ∃ j', e'.Orderly base inputs j'
  := by
  obtain ⟨hintake, rfl⟩ := apply_close_eq_some ha
  have hdone := h.isDone hnew (by rw [hintake]; rfl)
  refine ⟨j, ?_, h.lost, ?_, ?_, h.bounded, h.prompt⟩
  · refine h.runs.tail ⟨.close, ?_⟩
    rw [Service.move, if_pos hdone]
    rfl
  · constructor
    · rw [h.fits.statements, hintake]
      rfl
    · rw [h.fits.labels, hintake]
      rfl
    · exact h.fits.ids
  · constructor
    · exact h.awaits.steady
    · show e.processor.runner.line = []
      rw [h.awaits.line, line, hintake]
    · show e.processor.runner.waits = []
      rw [h.awaits.waits, waits, hintake]
    · intro htaking
      cases htaking
    · intro _
      exact h.awaits.settled (by rw [hintake]; rfl)
    · exact fun hopen => absurd rfl hopen
    · intro f hrefused
      cases hrefused

end Orderly

/-! ### The runner -/

namespace Awaits

/-- Only the usher is ever in line. -/
theorem entering_of_line (h : e.Awaits) {sub : Submission} {line : List Submission}
    (hline : e.processor.runner.line = sub :: line) :
  ∃ label rest, e.intake = .entering label rest ∧ line = [] ∧
    sub = { caller := usher, task := e.uploads.length, token := Processor.root }
  := by
  rw [h.line, Engine.line] at hline
  cases hintake : e.intake with
  | entering label rest =>
    rw [hintake] at hline
    cases hline
    exact ⟨label, rest, rfl, rfl, rfl⟩
  | ready | waiting | processed | closed | refused =>
    rw [hintake] at hline
    cases hline

/-- Only the usher ever waits for tasks to end, and waits for all of them. -/
theorem waiting_of_mem (h : e.Awaits) {w : Wait} (hw : w ∈ e.processor.runner.waits) :
  e.intake = .waiting ∧
    w = { caller := usher, tasks := e.processor.runner.tasks.map Prod.fst } ∧
    e.processor.runner.waits = [w]
  := by
  have hwaits := h.waits
  rw [Engine.waits] at hwaits
  cases hintake : e.intake with
  | waiting =>
    rw [hintake] at hwaits
    have hmem := hw
    rw [hwaits, List.mem_singleton] at hmem
    exact ⟨rfl, hmem, by rw [hwaits, hmem]⟩
  | ready | entering | processed | closed | refused =>
    rw [hintake] at hwaits
    rw [hwaits] at hw
    cases hw

/-- Keepers and bodies leave the usher in place. -/
theorem turns (h : e.Awaits) {q : Processor} (hturns : e.processor.runner.Turns q.runner)
    (hbus : q.bus.isOpen = e.processor.bus.isOpen) :
  { e with processor := q }.Awaits
  where
    steady := h.steady.turns hturns
    line := by
      show q.runner.line = e.line
      rw [hturns.line, h.line]
    waits := by
      show q.runner.waits = { e with processor := q }.waits
      rw [hturns.waits, h.waits, Engine.waits, Engine.waits]
      dsimp only
      rw [hturns.keys]
    current htaking := by
      show q.runner.current = q.runner.tasks.map Prod.fst
      rw [hturns.current, hturns.keys]
      exact h.current htaking
    settled hover k phase hphase := by
      have hmem : k ∈ e.processor.runner.tasks.map Prod.fst := by
        rw [← hturns.keys]
        exact Runner.exists_phase?_iff.1 ⟨phase, hphase⟩
      obtain ⟨old, hold⟩ := Runner.exists_phase?_iff.2 hmem
      have hisOver := h.settled hover k old hold
      cases (hturns.settled k old hold hisOver).symm.trans hphase
      exact hisOver
    isOpen hclosed := by
      show q.bus.isOpen
      rw [hbus]
      exact h.isOpen hclosed
    unrefused := h.unrefused

end Awaits

/-! ### Actions of the others -/

theorem service_hear (e : Engine) (reply : Option Processor.Reply) (j : Journal) :
  (e.hear reply).service j = e.service j
  := by
  cases reply with
  | none => rfl
  | some reply =>
    cases reply with
    | waited errors => rfl
    | accepted id =>
      rw [hear]
      split
      · rfl
      · rfl

theorem pool_hear (e : Engine) (reply : Option Processor.Reply) :
  (e.hear reply).pool = e.pool
  := congrArg Service.pool (service_hear e reply {})

/-- The usher hears that the upload is admitted. -/
theorem hear_admitted {label : String} (hintake : e.intake = .entering label rest)
    (p : Processor) (id : String) :
  { e with processor := p }.hear (some (.accepted id)) = { e with
    processor := p
    intake := .ready rest
    uploads := e.uploads ++ [(label, id)] }
  := by
  simp only [hear, hintake]

namespace Orderly

/-- The upload in line is admitted. -/
theorem enter (h : e.Orderly base inputs j) (hnew : base.IsNew) {caller : Party} {task : Nat}
    {runner : Runner} (henter : e.processor.runner.enter? caller = some (task, runner)) :
  let e' := { e with processor := { e.processor with runner } }.hear (e.processor.accepted task)
  e'.Matches inputs j.accepted ∧ e'.Awaits
  := by
  have hs := h.runs.sound hnew
  have hsteady := h.awaits.steady.enter hs.numbered henter
  obtain ⟨sub, line, hline, -, rfl, -, rfl⟩ := Runner.enter?_eq_some henter
  obtain ⟨label, rest, hintake, rfl, rfl⟩ := h.awaits.entering_of_line hline
  have hlength : j.accepted.length = e.uploads.length + 1 := by
    rw [h.fits.length, hintake]
    rfl
  have hlt : e.uploads.length < j.accepted.length := by omega
  have howner : (e.processor.jobs.get? e.uploads.length).map Job.upload
      = some j.accepted[e.uploads.length].1 := by
    refine (hs.owner e.uploads.length).trans ?_
    rw [show (e.service j).session.journal.accepted = j.accepted from rfl,
      List.getElem?_eq_getElem hlt]
    rfl
  obtain ⟨job, hjob, hupload⟩ := Option.map_eq_some_iff.1 howner
  rw [Processor.accepted, hjob, Option.map_some, hupload]
  dsimp only
  rw [hear_admitted hintake]
  constructor
  · constructor
    · rw [h.fits.statements, hintake]
      rfl
    · rw [h.fits.labels, hintake, List.map_append, List.append_assoc]
      rfl
    · have hids : e.uploads.map Prod.snd = (j.accepted.map Prod.fst).take e.uploads.length := by
        have htake := List.prefix_iff_eq_take.1 h.fits.ids
        rw [List.length_map] at htake
        exact htake
      have htake := List.take_prefix (e.uploads.length + 1) (j.accepted.map Prod.fst)
      rw [List.take_succ_eq_append_getElem (by rw [List.length_map]; exact hlt),
        List.getElem_map, ← hids] at htake
      rw [List.map_append]
      exact htake
  · constructor
    · exact hsteady
    · rfl
    · show e.processor.runner.waits = []
      rw [h.awaits.waits, waits, hintake]
    · intro _
      show e.processor.runner.current ++ [_] = (e.processor.runner.tasks.add _ _).map Prod.fst
      rw [Keyed.keys_add, h.awaits.current (by rw [hintake]; rfl)]
    · exact nofun
    · intro _
      exact h.awaits.isOpen (by rw [hintake]; exact nofun)
    · exact nofun

/-- The usher hears that all tasks are over. -/
theorem report (h : e.Orderly base inputs j) {caller : Party} {errors : List Fault}
    {runner : Runner} (hreport : e.processor.runner.report? caller = some (errors, runner)) :
  let e' := { e with processor := { e.processor with runner } }.hear (some (.waited errors))
  e'.Matches inputs j.accepted ∧ e'.Awaits
  := by
  obtain ⟨w, hw, hcaller, hover, -, rfl⟩ := Runner.report?_eq_some hreport
  obtain ⟨hintake, rfl, hwaits⟩ := h.awaits.waiting_of_mem hw
  obtain ⟨hroom, hslots, hfired, hall, hunskipped⟩ := h.awaits.steady
  constructor
  · constructor
    · rw [h.fits.statements, hintake]
      rfl
    · rw [h.fits.labels, hintake]
      rfl
    · exact h.fits.ids
  · constructor
    · exact ⟨hroom, hslots, hfired, hall, hunskipped⟩
    · show e.processor.runner.line = []
      rw [h.awaits.line, line, hintake]
    · show e.processor.runner.waits.eraseP _ = []
      rw [hwaits, List.eraseP_cons_of_pos (by simpa using hcaller)]
    · exact nofun
    · intro _ k phase hphase
      have hphase : e.processor.runner.phase? k = some phase := hphase
      have hmem := Runner.exists_phase?_iff.1 ⟨phase, hphase⟩
      have hisOver := List.all_eq_true.1 hover k hmem
      rw [Runner.isOver, hphase] at hisOver
      exact hisOver
    · intro _
      exact h.awaits.isOpen (by rw [hintake]; exact nofun)
    · exact nofun

/-- An action of the processor. -/
theorem act (h : e.Orderly base inputs j) (hnew : base.IsNew) {a : Processor.Action}
    (ha : e.apply (.processor a) = some e') :
  ∃ j', e'.Orderly base inputs j'
  := by
  obtain ⟨⟨q, reply⟩, hq, rfl⟩ := Option.map_eq_some_iff.1 ha
  have hs := h.runs.sound hnew
  have hmove : (e.service j).session.move (.act a)
      = some { processor := q, journal := j.after e.processor (.act a) } := by
    have hprocessor : e.processor.move (.act a) = some q := by
      rw [Processor.move, hq]
      rfl
    exact Session.move_eq_some.2 ⟨hprocessor, rfl⟩
  have hruns : base.Runs ({ e with processor := q }.service (j.after e.processor (.act a))) := by
    refine h.runs.tail ⟨.act a, ?_⟩
    rw [Service.move, hmove]
    rfl
  have hbus : ({ e with processor := q }.service (j.after e.processor (.act a))).bus.isOpen
      = (e.service j).bus.isOpen :=
    (h.runs.paired hnew).isOpen_deals (Session.deals_of_action hs hmove)
  have hturns : e.processor.runner.Turns q.runner →
      { e with processor := q }.Matches inputs j.accepted ∧ { e with processor := q }.Awaits :=
    fun hturns => ⟨⟨h.fits.statements, h.fits.labels, h.fits.ids⟩, h.awaits.turns hturns hbus⟩
  have hintake : ({ e with processor := q }.hear reply).Matches inputs j.accepted ∧
      ({ e with processor := q }.hear reply).Awaits := by
    cases Processor.acts_of_apply hq with
    | enter henter => exact h.enter hnew henter
    | @drop caller _ _ hdrop =>
      rw [h.awaits.steady.drop?_eq_none caller] at hdrop
      cases hdrop
    | report hreport => exact h.report hreport
    | @skip task _ hskip =>
      rw [h.awaits.steady.skip?_eq_none task] at hskip
      cases hskip
    | start hstart => exact hturns (Runner.turns_of_start hs.numbered.keys hstart)
    | collect hcollect => exact hturns (Runner.turns_of_collect hs.numbered.keys hcollect)
    | body hadvances =>
      rcases hadvances.runner with hsame | ⟨o, hfinish⟩
      · exact hturns (hsame ▸ .refl _)
      · exact hturns (Runner.turns_of_finish hs.numbered.keys hfinish)
  refine ⟨j.after e.processor (.act a), ?_, ?_, ?_, hintake.2, ?_, ?_⟩
  · rw [service_hear]
    exact hruns
  · rw [Journal.lost_after_act]
    exact h.lost
  · rw [Journal.accepted_after_act]
    exact hintake.1
  · rw [pool_hear]
    exact h.bounded
  · rw [pool_hear]
    exact h.prompt

/-- A step of a worker. -/
theorem work (h : e.Orderly base inputs j) (hnew : base.IsNew) {a : Pool.Action}
    (ha : e.apply (.pool a) = some e') :
  ∃ j', e'.Orderly base inputs j'
  := by
  obtain ⟨⟨b, pool, answer⟩, hpool, rfl⟩ := Option.map_eq_some_iff.1 ha
  have hpaired := h.runs.paired hnew
  have htakers : ∀ w takers, e.processor.bus.takers = .worker w :: takers →
      e.pool.workers.get? w = some .waiting :=
    fun w takers htaker => (Pool.takers_of_first hpaired.keys hpaired.takers htaker .idle rfl).1
  have hstep := Pool.step_of_apply hpool
  have hopen : b.isOpen = e.processor.bus.isOpen := by
    cases hstep with
    | ask | receive | dismiss | begin | conclude | retry | abandon | confirm | expire => rfl
  refine ⟨j, ?_, h.lost, ⟨h.fits.statements, h.fits.labels, h.fits.ids⟩, ?_,
    h.bounded.step hstep htakers, h.prompt.step hstep htakers⟩
  · refine h.runs.tail ⟨.work a, ?_⟩
    show Option.map _ (e.pool.apply e.processor.bus a) = _
    rw [hpool]
    rfl
  · obtain ⟨hsteady, hline, hwaits, hcurrent, hover, hisOpen, hunrefused⟩ := h.awaits
    exact ⟨hsteady, hline, hwaits, hcurrent, hover, fun hclosed => hopen.trans (hisOpen hclosed),
      hunrefused⟩

/-- Whatever happens, the engine stays in good order. -/
theorem step (h : e.Orderly base inputs j) (hnew : base.IsNew)
    (hmissing : base.session.processor.missing = [])
    (hserves : base.session.processor.ids.Serves (demand inputs)) {a : Action}
    (ha : e.apply a = some e') :
  ∃ j', e'.Orderly base inputs j'
  := by
  cases a with
  | upload =>
    obtain ⟨input, rest, hintake⟩ := exists_of_apply_upload ha
    exact h.upload hnew hmissing hserves hintake ha
  | wait => exact h.wait ha
  | close => exact h.close hnew ha
  | processor a => exact h.act hnew ha
  | pool a => exact h.work hnew ha

end Orderly

/-- Every engine that a run can come to is in good order. -/
theorem exists_orderly {settings : Settings} {ids : IdSource} {clock : Clock}
    (hserves : ids.Serves (demand inputs))
    (h : system.Reachable (start settings ids clock inputs) e) :
  ∃ j, e.Orderly (origin settings ids clock) inputs j
  := by
  induction h with
  | refl => exact ⟨{}, orderly_start settings ids clock inputs⟩
  | step a _ ha ih =>
    obtain ⟨j, hj⟩ := ih
    exact hj.step (isNew_origin settings ids clock) rfl hserves ha

end Engine

end Reconciliation
