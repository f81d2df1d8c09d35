import Reconciliation.Proofs.Delays
import Reconciliation.Proofs.Drain
import Reconciliation.Proofs.Timely

/-!
# What a shutdown puts an end to

Once a pool is shut down, a call is repeated only if the delay before it was over before the worker
went on: it was over at the shutdown, or it ended later while the worker, who could have let go of
the notice, had not yet done so (`Workshop.Overslept`).  Where no worker is late only the first can
be (`Workshop.not_overslept`).  But the workers go on to take notices and call the handler for them
until the bus has ended (`Workshop.Runs.winds_up`).
-/

namespace Reconciliation

/-- There is some time before a call is repeated. -/
theorem DeliveryPlan.normalized_delay_ne_zero (plan : DeliveryPlan) :
  plan.normalized.delay ≠ .zero
  := by
  rw [normalized]
  dsimp only
  split
  · decide
  · assumption

theorem WorkerPhase.eq_ended {phase : WorkerPhase} (hover : phase.isOver)
    (hphase : phase ≠ .crashed) :
  phase = .ended
  := by
  cases phase with
  | ended => rfl
  | crashed => exact absurd rfl hphase
  | idle | waiting | holding | calling | asleep => cases hover

namespace Workshop

variable {s t u : Workshop} {capacity : Nat} {plan : DeliveryPlan} {handler : Handler}

/-- The workshop once its pool is shut down. -/
def closedDown (s : Workshop) : Workshop :=
  { s with pool := s.pool.shutDown }

/-- The worker of a case sleeps until then, before it repeats the call for the notice. -/
def Sleeps (s : Workshop) (i : Nat) (c : Case) (due : Nat) : Prop :=
  s.cases[i]? = some c ∧ c.fate = none ∧
    ∃ n attempt, s.pool.workers.get? c.worker = some (.asleep n attempt due)

/-- The delay before the next call for the notice is over. -/
def MayRepeat (s : Workshop) (i : Nat) (c : Case) : Prop :=
  ∃ due, due ≤ s.pool.now ∧ s.Sleeps i c due

/-- The delay of a worker has ended on the way, after a shutdown and before the worker went on. -/
def Overslept (R : Workshop → Workshop → Prop) (s t : Workshop) (i : Nat) (c : Case) (due : Nat) :
    Prop :=
  ∃ u v, Relation.ReflTransGen R s u ∧ R u v ∧ Relation.ReflTransGen R v t ∧
    u.pool.isShutDown ∧ u.Sleeps i c due ∧ u.pool.now < due ∧ due ≤ v.pool.now

/-- The worker of a case was late after a shutdown. -/
def Late (R : Workshop → Workshop → Prop) (s t : Workshop) (i : Nat) : Prop :=
  ∃ c due, Overslept R s t i c due

/-! ### The moves of a worker that sleeps -/

/-- A worker that sleeps has slept before the move, or it has just begun to. -/
theorem Leads.sleeps (h : t.Leads u) (ht : t.IsOrderly) (hdelay : t.pool.plan.delay ≠ .zero)
    {i : Nat} {d : Case} {due : Nat} (hsleeps : u.Sleeps i d due) :
  u.pool.now < due ∨ t.Sleeps i d due
  := by
  obtain ⟨m, hmove⟩ := h
  obtain ⟨hd, hfate, n, attempt, hw⟩ := hsleeps
  cases hc : t.cases[i]? with
  | none =>
    obtain ⟨w, n, rfl, hw', -⟩ := appears_of_move ht hmove hd hc
    cases hw'.symm.trans hw
  | some c =>
    obtain ⟨d', hd', hfollows⟩ := follows_of_move ht hmove hc
    cases hd.symm.trans hd'
    cases hfollows with
    | rests hphase =>
      rw [hphase hfate] at hw
      exact .inr ⟨hc, hfate, n, attempt, hw⟩
    | treat hworker _ _ _ hw' _ htreats hpaces hnow =>
      rw [(htreats.keeps c).1, hworker] at hw
      cases hw.symm.trans hw'
      cases htreats with
      | postpone _ _ _ =>
        rw [hnow, hpaces.postponed rfl rfl]
        exact .inl (Nat.lt_add_of_pos_right (Duration.toMillisCeil_backoff_pos hdelay _))

/-- A call for a notice is the first, or a worker has slept before it until the delay was over. -/
theorem Leads.calls (h : t.Leads u) (ht : t.IsOrderly) {i : Nat} {c d : Case}
    (hc : t.cases[i]? = some c) (hd : u.cases[i]? = some d) :
  d.calls = c.calls ∨ c.calls = 0 ∧ d.calls = 1 ∨
    d.calls = c.calls + 1 ∧ ∃ due, due ≤ t.pool.now ∧ t.Sleeps i c due
  := by
  obtain ⟨m, hmove⟩ := h
  obtain ⟨d', hd', hfollows⟩ := follows_of_move ht hmove hc
  cases hd.symm.trans hd'
  cases hfollows with
  | rests => exact .inl rfl
  | treat hworker _ hfate hw _ hdesk htreats hpaces _ =>
    cases htreats with
    | skip | reconcile | postpone | exhaust | crash | abandon => exact .inl rfl
    | begin =>
      cases hdesk with
      | holding => exact .inr (.inl ⟨rfl, rfl⟩)
    | retry =>
      rw [← hworker] at hw
      exact .inr (.inr ⟨rfl, _, hpaces.repeated rfl rfl, hc, hfate, _, _, hw⟩)

theorem Leads.isShutDown (h : t.Leads u) (hdown : t.pool.isShutDown) :
  u.pool.isShutDown
  := by
  obtain ⟨m, hmove⟩ := h
  by_contra hup
  rw [Bool.not_eq_true] at hup
  cases hdown.symm.trans ((step_of_move hmove).grows.2 hup)

/-! ### After the shutdown -/

variable {R : Workshop → Workshop → Prop}

theorem Overslept.tail {i : Nat} {c : Case} {due : Nat} (h : Overslept R s t i c due)
    (hstep : R t u) :
  Overslept R s u i c due
  := by
  obtain ⟨v, w, hbefore, hlate, hafter, hasleep⟩ := h
  exact ⟨v, w, hbefore, hlate, hafter.tail hstep, hasleep⟩

theorem Late.tail {i : Nat} (h : Late R s t i) (hstep : R t u) :
  Late R s u i
  := by
  obtain ⟨c, due, hoverslept⟩ := h
  exact ⟨c, due, hoverslept.tail hstep⟩

/-- Nobody oversleeps where no worker is late. -/
theorem not_overslept (h : (opened capacity plan handler).Runs s) {i : Nat} {c : Case} {due : Nat} :
  ¬ Overslept TimelyLeads s t i c due
  := by
  rintro ⟨u, v, hruns, ⟨m, htimely, hm⟩, -, hdown, ⟨-, -, n, attempt, hw⟩, hbefore, hafter⟩
  have hreached : (opened capacity plan handler).Runs u := h.trans (TimelyRuns.runs hruns)
  rcases time_of_move hm htimely hreached.isOrderly.1 with hnow | ⟨-, hasleep⟩
  · omega
  · cases hdown.symm.trans (hasleep _ _ _ _ hw).1

/-- What holds after a shutdown: whoever sleeps has time left, could have gone on before the
shutdown, or was late, and no call was repeated since then except by those. -/
structure Winds (R : Workshop → Workshop → Prop) (s t : Workshop) : Prop where
  down : t.pool.isShutDown
  asleep : ∀ (i : Nat) (c : Case) (due : Nat), t.Sleeps i c due →
    t.pool.now < due ∨ due ≤ s.pool.now ∧ s.Sleeps i c due ∨ Overslept R s.closedDown t i c due
  calls : ∀ (i : Nat) (c : Case), t.cases[i]? = some c → c.calls ≤ 1 ∨
    (∃ c₀, s.cases[i]? = some c₀ ∧
      (c.calls ≤ c₀.calls ∨ s.MayRepeat i c₀ ∧ c.calls = c₀.calls + 1)) ∨
    Late R s.closedDown t i

namespace Winds

theorem start :
  Winds R s s.closedDown
  where
    down := rfl
    asleep i c due hsleeps := by
      by_cases hdue : due ≤ s.pool.now
      · exact .inr (.inl ⟨hdue, hsleeps⟩)
      · exact .inl (Nat.lt_of_not_le hdue)
    calls i c hc := .inr (.inl ⟨c, hc, .inl (Nat.le_refl _)⟩)

theorem step (h : Winds R s t) (hruns : Relation.ReflTransGen R s.closedDown t) (hstep : R t u)
    (hleads : t.Leads u) (ht : t.IsOrderly) (hdelay : t.pool.plan.delay ≠ .zero) :
  Winds R s u
  := by
  refine ⟨hleads.isShutDown h.down, fun i d due hsleeps => ?_, fun i d hd => ?_⟩
  · rcases hleads.sleeps ht hdelay hsleeps with hbefore | hslept
    · exact .inl hbefore
    · rcases h.asleep i d due hslept with hbefore | hover | hoverslept
      · -- If the delay ends with this move, it does so before the worker goes on.
        rcases Nat.lt_or_ge u.pool.now due with hlt | hge
        · exact .inl hlt
        · exact .inr (.inr ⟨t, u, hruns, hstep, .refl, h.down, hslept, hbefore, hge⟩)
      · exact .inr (.inl hover)
      · exact .inr (.inr (hoverslept.tail hstep))
  · cases hc : t.cases[i]? with
    | none =>
      obtain ⟨m, hmove⟩ := hleads
      obtain ⟨w, n, rfl, -⟩ := appears_of_move ht hmove hd hc
      exact .inl (Nat.zero_le 1)
    | some c =>
      rcases hleads.calls ht hc hd with heq | ⟨-, hfirst⟩ | ⟨heq, due, hdue, hsleeps⟩
      · rw [heq]
        rcases h.calls i c hc with hle | hrepeated | hlate
        · exact .inl hle
        · exact .inr (.inl hrepeated)
        · exact .inr (.inr (hlate.tail hstep))
      · exact .inl (Nat.le_of_eq hfirst)
      · rcases h.asleep i c due hsleeps with hbefore | ⟨hover, hslept⟩ | hoverslept
        · exact absurd hdue (Nat.not_le_of_lt hbefore)
        · exact .inr (.inl ⟨c, hslept.1, .inr ⟨⟨due, hover, hslept⟩, heq⟩⟩)
        · exact .inr (.inr ⟨c, due, hoverslept.tail hstep⟩)

end Winds

theorem Runs.closedDown (h : (opened capacity plan handler).Runs s)
    (hruns : s.closedDown.Runs t) :
  (opened capacity plan handler).Runs t
  := (h.tail ⟨.shutDown, rfl⟩).trans hruns

theorem Runs.winds (h : (opened capacity plan handler).Runs s)
    (hR : ∀ {u v}, R u v → u.Leads v) (hruns : Relation.ReflTransGen R s.closedDown t) :
  Winds R s t
  := by
  induction hruns with
  | refl => exact .start
  | tail hruns hstep ih =>
    have hreached := h.closedDown (Relation.ReflTransGen.mono (fun _ _ => hR) _ _ hruns)
    apply ih.step hruns hstep (hR hstep) hreached.isOrderly
    rw [hreached.settings.1]
    exact plan.normalized_delay_ne_zero

/-! ### One call for each notice -/

/-- What has become of the notices since a shutdown, where the workers of some cases were late.  Any
other case that was tried before is tried again only if the delay before the call was over by then,
and any other that was not is tried once when a worker sets about it, unless it is about an event
that was tried. -/
structure Ceases (s t : Workshop) (late : Nat → Prop) : Prop where
  calls : ∀ (i : Nat) (c : Case), t.cases[i]? = some c → c.calls ≤ 1 ∨
    (∃ c₀, s.cases[i]? = some c₀ ∧
      (c.calls ≤ c₀.calls ∨ s.MayRepeat i c₀ ∧ c.calls = c₀.calls + 1)) ∨ late i
  events : ∀ e, e ≠ "" → (t.handledFor e).length ≤ 1 ∨
    (t.handledFor e).length ≤ (s.handledFor e).length ∨
    (∃ i c, c.notice.event = e ∧ s.MayRepeat i c) ∧
      (t.handledFor e).length = (s.handledFor e).length + 1 ∨
    ∃ (i : Nat) (c : Case), t.cases[i]? = some c ∧ c.notice.event = e ∧ late i
  untried : ∀ (i : Nat) (c : Case), t.cases[i]? = some c →
    (∀ c₀, s.cases[i]? = some c₀ → c₀.calls = 0) → c.isBegun →
    0 < c.calls ∧ (c.calls = 1 ∨ late i) ∨
      c.calls = 0 ∧ c.fate = some .duplicate ∧ c.notice.event ≠ "" ∧
        ∃ d ∈ t.cases, d.notice.event = c.notice.event ∧ 0 < d.calls
  unseen : ∀ c ∈ t.cases, c.isBegun → c.notice.event ≠ "" → c.notice.event ∉ s.pool.seen →
    0 < (t.handledFor c.notice.event).length ∧
      ((t.handledFor c.notice.event).length = 1 ∨
        ∃ (i : Nat) (d : Case), t.cases[i]? = some d ∧ d.notice.event = c.notice.event ∧ late i)

namespace Winds

/-- A notice that was not tried before the shutdown is not tried twice. -/
theorem calls_le (h : Winds R s t) {i : Nat} {c : Case} (hc : t.cases[i]? = some c)
    (huntried : ∀ c₀, s.cases[i]? = some c₀ → c₀.calls = 0) :
  c.calls ≤ 1 ∨ Late R s.closedDown t i
  := by
  rcases h.calls i c hc with hle | ⟨c₀, hc₀, hle⟩ | hlate
  · exact .inl hle
  · have hzero := huntried c₀ hc₀
    rcases hle with hle | ⟨-, heq⟩
    · exact .inl (by omega)
    · exact .inl (by omega)
  · exact .inr hlate

/-- No call for an event is repeated after the shutdown, unless the delay before it was over. -/
theorem length_handledFor_le (h : Winds R s t) (hs : s.IsOrderly) (hruns : s.Runs t)
    (hbefore : s.Known) (hknown : t.Known) {e : String} (he : e ≠ "") :
  (t.handledFor e).length ≤ 1 ∨ (t.handledFor e).length ≤ (s.handledFor e).length ∨
    (∃ i c, c.notice.event = e ∧ s.MayRepeat i c) ∧
      (t.handledFor e).length = (s.handledFor e).length + 1 ∨
    ∃ (i : Nat) (c : Case), t.cases[i]? = some c ∧ c.notice.event = e ∧ Late R s.closedDown t i
  := by
  by_cases hseen : e ∈ t.pool.seen
  · obtain ⟨i, c, hc, rfl, hcalls⟩ := hknown.exists_tried hseen
    rw [hknown.length_handledFor_eq (List.mem_of_getElem? hc) he hcalls]
    rcases h.calls i c hc with hle | ⟨c₀, hc₀, hle⟩ | hlate
    · exact .inl hle
    · obtain ⟨-, d, hd, hfollowed⟩ := hruns.followed hs hc₀
      cases hc.symm.trans hd
      by_cases htried : c₀.calls = 0
      · rcases hle with hle | ⟨-, hle⟩
        · omega
        · omega
      · rw [hfollowed.notice] at he ⊢
        rw [hbefore.length_handledFor_eq (List.mem_of_getElem? hc₀) he htried]
        rcases hle with hle | ⟨hmay, hle⟩
        · exact .inr (.inl hle)
        · exact .inr (.inr (.inl ⟨⟨i, c₀, rfl, hmay⟩, hle⟩))
    · exact .inr (.inr (.inr ⟨i, c, hc, rfl, hlate⟩))
  · rw [hknown.handledFor_eq_nil he hseen]
    exact .inl (Nat.zero_le 1)

/-- An event that was not seen before the shutdown has one call once a worker has set about it. -/
theorem length_handledFor (h : Winds R s t) (hs : s.IsOrderly) (hruns : s.Runs t)
    (hbefore : s.Known) (hknown : t.Known) {e : String} (he : e ≠ "") (hnew : e ∉ s.pool.seen)
    (hseen : e ∈ t.pool.seen) :
  0 < (t.handledFor e).length ∧ ((t.handledFor e).length = 1 ∨
    ∃ (i : Nat) (c : Case), t.cases[i]? = some c ∧ c.notice.event = e ∧ Late R s.closedDown t i)
  := by
  obtain ⟨i, c, hc, rfl, hcalls⟩ := hknown.exists_tried hseen
  rw [hknown.length_handledFor_eq (List.mem_of_getElem? hc) he hcalls]
  refine ⟨Nat.pos_of_ne_zero hcalls, ?_⟩
  have hle := h.calls_le hc fun c₀ hc₀ => ?_
  · rcases hle with hle | hlate
    · exact .inl (by omega)
    · exact .inr ⟨i, c, hc, rfl, hlate⟩
  · obtain ⟨-, d, hd, hfollowed⟩ := hruns.followed hs hc₀
    cases hc.symm.trans hd
    by_contra htried
    apply hnew
    rw [hbefore.seen.mem_iff, List.mem_flatMap]
    refine ⟨c₀, List.mem_of_getElem? hc₀, ?_⟩
    rw [Case.marks_of_called htried, Notice.mem_marks_iff, ← hfollowed.notice]
    exact ⟨he, rfl⟩

theorem ceases (h : Winds R s t) (hs : (opened capacity plan handler).Runs s)
    (hruns : s.closedDown.Runs t) :
  s.Ceases t (Late R s.closedDown t)
  := by
  have ht := hs.closedDown hruns
  have hafter : s.Runs t := Relation.ReflTransGen.head ⟨.shutDown, rfl⟩ hruns
  refine ⟨h.calls,
    fun e he => h.length_handledFor_le hs.isOrderly hafter hs.known ht.known he,
    fun i c hc huntried hbegun => ?_, fun c hc hbegun he hnew => ?_⟩
  · by_cases hcalls : c.calls = 0
    · have hfate := ht.isOrderly.2.duplicate_of_calls (List.mem_of_getElem? hc) hbegun hcalls
      exact .inr ⟨hcalls, hfate, ht.known.exists_original (List.mem_of_getElem? hc) hfate⟩
    · refine .inl ⟨Nat.pos_of_ne_zero hcalls, ?_⟩
      rcases h.calls_le hc huntried with hle | hlate
      · exact .inl (by omega)
      · exact .inr hlate
  · apply h.length_handledFor hs.isOrderly hafter hs.known ht.known he hnew
    exact (ht.known.mem_seen_iff ht.isOrderly.2).2 ⟨he, c, hc, hbegun, rfl⟩

end Winds

/-- Whatever holds if some workers were late holds if more of them were. -/
theorem Ceases.mono {late late' : Nat → Prop} (h : s.Ceases t late)
    (hlate : ∀ i, late i → late' i) :
  s.Ceases t late'
  := by
  refine ⟨fun i c hc => ?_, fun e he => ?_, fun i c hc huntried hbegun => ?_,
    fun c hc hbegun he hnew => ?_⟩
  · exact (h.calls i c hc).imp_right (Or.imp_right (hlate i))
  · refine (h.events e he).imp_right (Or.imp_right (Or.imp_right ?_))
    rintro ⟨i, c, hc, hevent, h⟩
    exact ⟨i, c, hc, hevent, hlate i h⟩
  · refine (h.untried i c hc huntried hbegun).imp_left ?_
    exact And.imp_right (Or.imp_right (hlate i))
  · refine (h.unseen c hc hbegun he hnew).imp_right (Or.imp_right ?_)
    rintro ⟨i, d, hd, hevent, h⟩
    exact ⟨i, d, hd, hevent, hlate i h⟩

/-- If no worker was late since the shutdown, no call was repeated after it unless the delay before
the call was over by then. -/
theorem TimelyRuns.ceases (h : (opened capacity plan handler).Runs s)
    (hruns : s.closedDown.TimelyRuns t) :
  s.Ceases t fun _ => False
  := by
  have hclosed : (opened capacity plan handler).Runs s.closedDown := h.closedDown .refl
  have hwinds := h.winds TimelyLeads.leads hruns
  apply (hwinds.ceases h hruns.runs).mono
  rintro i ⟨c, due, hoverslept⟩
  exact not_overslept hclosed hoverslept

/-! ### Until the bus has ended -/

/-- When nobody can go on at once, a worker waits only at a bus that has not ended. -/
theorem IsStill.notEnded_of_waiting (h : s.IsStill) (hs : s.Staffed) {w : Nat}
    (hw : s.pool.workers.get? w = some .waiting) :
  ¬ s.bus.hasEnded
  := by
  intro hended
  obtain ⟨k, takers, htakers⟩ := hs.exists_first hw
  have hnone := h.apply_eq_none hs (.dismiss k)
  simp [Pool.apply, Bus.finish?, htakers, hended] at hnone

/-- In the end every worker waits at the bus, or has ended with it. -/
theorem IsQuiet.phase_eq (h : s.IsQuiet) (hs : s.IsOrderly)
    (hcalm : ∀ w, s.pool.workers.get? w ≠ some .crashed) {w : Nat} {phase : WorkerPhase}
    (hw : s.pool.workers.get? w = some phase) :
  phase = if s.bus.hasEnded then .ended else .waiting
  := by
  rcases h.phase hs hw with rfl | hover
  · rw [if_neg (h.isStill.notEnded_of_waiting hs.1 hw)]
  · obtain rfl := WorkerPhase.eq_ended hover fun hcrashed => hcalm w (hcrashed ▸ hw)
    rw [if_pos (hs.1.ended w hw)]

/-- After a shutdown a call for a notice is repeated only by a worker whose delay is over, either
because it was over at the shutdown or because the worker was late since then.  What was not tried
before is still tried when a worker sets about it, and once only unless the worker was late
(`Ceases`); where no worker is late, no such call is repeated.  The workers end only with the bus.
They can always go on without being late until nobody will go on any more; there, all that was
accepted was taken, the workers are done with it, and have ended if the bus has. -/
theorem Runs.winds_up (h : (opened capacity plan handler).Runs s)
    (hcalm : ∀ n nth, handler.verdict n nth ≠ .panicked) (hruns : s.closedDown.Runs t) :
  (∀ (u : Workshop) (i : Nat) (c d : Case), t.Leads u → t.cases[i]? = some c →
    u.cases[i]? = some d → c.calls ≠ 0 → d.calls ≠ c.calls →
    d.calls = c.calls + 1 ∧ ∃ due, due ≤ t.pool.now ∧ t.Sleeps i c due ∧
      (due ≤ s.pool.now ∧ s.Sleeps i c due ∨ Overslept Leads s.closedDown t i c due)) ∧
  s.Ceases t (Late Leads s.closedDown t) ∧
  (s.closedDown.TimelyRuns t → s.Ceases t fun _ => False) ∧
  (∀ w phase, t.pool.workers.get? w = some phase → phase.isOver → t.bus.hasEnded) ∧
  (∃ u, t.TimelyRuns u ∧ u.IsQuiet) ∧
  (t.IsQuiet → t.pool.workers ≠ [] →
    t.cases.map Case.notice = t.exchange.accepted.map Publication.notice ∧
    t.exchange.waiting = [] ∧ (∀ c ∈ t.cases, c.fate ≠ none ∧ c.isBegun) ∧
    ∀ w phase, t.pool.workers.get? w = some phase →
      phase = if t.bus.hasEnded then .ended else .waiting)
  := by
  have ht := h.closedDown hruns
  have horderly := ht.isOrderly
  have hwinds : Winds Leads s t := h.winds id hruns
  refine ⟨fun u i c d hleads hc hd htried hcalled => ?_, hwinds.ceases h hruns,
    fun htimely => htimely.ceases h, fun w phase hw hover => ?_,
    horderly.exists_timely_quiet, fun hquiet hstarted => ?_⟩
  · rcases hleads.calls horderly hc hd with heq | ⟨hzero, -⟩ | ⟨heq, due, hdue, hsleeps⟩
    · exact absurd heq hcalled
    · exact absurd hzero htried
    · refine ⟨heq, due, hdue, hsleeps, ?_⟩
      exact (hwinds.asleep i c due hsleeps).resolve_left (Nat.not_lt_of_le hdue)
  · obtain rfl := WorkerPhase.eq_ended hover fun hcrashed => ht.notCrashed hcalm w (hcrashed ▸ hw)
    exact horderly.1.ended w hw
  · obtain ⟨hqueue, hwaiting⟩ := ht.drained hcalm hstarted hquiet
    refine ⟨horderly.accepted_of_drained hqueue, hwaiting, fun c hc => ?_,
      fun w phase => hquiet.phase_eq horderly (ht.notCrashed hcalm)⟩
    obtain ⟨fate, hfate⟩ := horderly.2.exists_fate (hquiet.isFree horderly) hc
    simp [hfate, Case.isBegun]

/-! ### A workshop that is shut down -/

/-- There are two workers, and calls are repeated twice. -/
def windingStart : Workshop :=
  opened 1 { workers := 2, retries := 2, delay := .ofMillis 100 } flaky

/-- One worker sleeps, the other is in a call, and a third notice is queued. -/
def windingMoves : List Move :=
  [.start] ++ publishing "a" ++ taking 0 ++ [.work (.conclude 0)] ++ publishing "b" ++ taking 1 ++
    publishing "c"

/-- The workshop at the shutdown. -/
def windingHalf : Workshop :=
  (windingMoves.foldlM move windingStart).getD windingStart

/-- The sleeper lets go of its notice and tries the queued one; no call is repeated. -/
def windingRest : List Move :=
  [.work (.abandon 0)] ++ taking 0 ++ [.work (.conclude 1), .work (.abandon 1), .pass 50,
    .work (.conclude 0), .work (.abandon 0), .bus .close] ++
    [.work (.ask 0), .work (.dismiss 0), .work (.ask 1), .work (.dismiss 1)]

/-- The workshop in the end. -/
def windingEnd : Workshop :=
  (windingRest.foldlM timelyMove windingHalf.closedDown).getD windingHalf.closedDown

/-- The workshop if time passes before the sleeper lets go of its notice: it repeats the call. -/
def windingLate : Workshop :=
  (([.pass 100, .work (.retry 0)] : List Move).foldlM move windingHalf.closedDown).getD
    windingHalf.closedDown

theorem runs_winding :
  windingStart.Runs windingHalf ∧ windingHalf.closedDown.TimelyRuns windingEnd ∧
    windingHalf.closedDown.Runs windingLate
  := by
  refine ⟨?_, ?_, ?_⟩
  · apply reflTransGen_of_isSome
    decide +kernel
  · apply timelyRuns_of_isSome
    decide +kernel
  · apply reflTransGen_of_isSome
    decide +kernel

/-- At the shutdown no delay is over. -/
theorem not_mayRepeat_winding (i : Nat) (c : Case) :
  ¬ windingHalf.MayRepeat i c
  := by
  rintro ⟨due, hdue, -, -, n, attempt, hw⟩
  have hontime : windingHalf.isOnTime 1 := by decide +kernel
  have hlater := List.all_eq_true.1 hontime _ (Keyed.mem_of_get? hw)
  rw [Pool.isOnTime, Bool.and_eq_true, decide_eq_true_eq] at hlater
  omega

/-- No call for an event is repeated while the workers are on time, and a new event has one; a
worker that is late repeats one. -/
theorem winds_up_winding :
  windingHalf.cases.map Case.calls = [1, 1] ∧ windingHalf.bus.queue.length = 1 ∧
  windingEnd.cases.map Case.fate = [some .abandoned, some .abandoned, some .abandoned] ∧
  windingEnd.cases.map Case.calls = [1, 1, 1] ∧
  (windingEnd.handledFor "c").length = 1 ∧ windingEnd.bus.hasEnded ∧
  (∃ u, windingEnd.TimelyRuns u ∧ u.IsQuiet) ∧
  windingLate.cases.map Case.calls = [2, 1] ∧ Late Leads windingHalf.closedDown windingLate 0
  := by
  obtain ⟨hhalf, hend, hlate⟩ := runs_winding
  have hcases : windingEnd.cases.map (fun c => (c.notice.event, c.isBegun))
      = [("a", true), ("b", true), ("c", true)] := by
    decide +kernel
  obtain ⟨-, -, hceases, hended, hquiet, -⟩ := Runs.winds_up hhalf flaky_calm hend.runs
  have hmem : ("c", true) ∈ windingEnd.cases.map (fun c => (c.notice.event, c.isBegun)) := by
    rw [hcases]
    decide
  obtain ⟨c, hc, heq⟩ := List.mem_map.1 hmem
  obtain ⟨hevent, hbegun⟩ := Prod.mk.inj heq
  have hcalls := (hceases hend).unseen c hc hbegun
  rw [hevent] at hcalls
  have hone := (hcalls (by decide) (by decide +kernel)).2.resolve_right (by simp)
  have hphase : windingEnd.pool.workers.get? 0 = some .ended := by decide +kernel
  refine ⟨by decide +kernel, by decide +kernel, by decide +kernel, by decide +kernel, hone,
    hended 0 .ended hphase rfl, hquiet, by decide +kernel, ?_⟩
  -- The sleeper has called the handler twice, and once before the shutdown.
  obtain ⟨-, hceases, -⟩ := Runs.winds_up hhalf flaky_calm hlate
  have htwice : (windingLate.cases[0]?).map Case.calls = some 2 := by decide +kernel
  have honce : (windingHalf.cases[0]?).map Case.calls = some 1 := by decide +kernel
  obtain ⟨c, hc, htwice⟩ := Option.map_eq_some_iff.1 htwice
  rcases hceases.calls 0 c hc with hle | ⟨c₀, hc₀, hle | ⟨hmay, -⟩⟩ | hoverslept
  · omega
  · rw [hc₀] at honce
    have honce : c₀.calls = 1 := Option.some.inj honce
    omega
  · exact absurd hmay (not_mayRepeat_winding 0 c₀)
  · exact hoverslept

/-- A worker that is late after the shutdown repeats a call whose delay was not over at the
shutdown. -/
theorem repeated_late :
  windingStart.Runs windingHalf ∧ (∀ n nth, flaky.verdict n nth ≠ .panicked) ∧
  (∀ i c, ¬ windingHalf.MayRepeat i c) ∧ windingHalf.closedDown.Runs windingLate ∧
  (windingHalf.handledFor "a").length = 1 ∧ (windingLate.handledFor "a").length = 2
  := by
  obtain ⟨hhalf, -, hlate⟩ := runs_winding
  exact ⟨hhalf, flaky_calm, not_mayRepeat_winding, hlate, by decide +kernel, by decide +kernel⟩

end Workshop

end Reconciliation
