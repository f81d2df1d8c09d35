import Mathlib.Data.List.Dedup
import Reconciliation.Proofs.Casework

/-!
# One case for each event

An event with an identity is marked as seen before the handler is called for it, so that only one of
the notices about it comes to the handler, and the place of a call among those for the event is its
place among those for the notice.  `Workshop.Known` is what holds of the calls of a workshop and of
the events it has seen, after any number of moves.
-/

namespace Reconciliation

namespace Case

/-- The identity of the event that the handler was called for, if it has one. -/
def marks (c : Case) : List String :=
  if c.calls = 0 then [] else c.notice.marks

/-- The notice, once for each call. -/
def handled (c : Case) : List Notice :=
  List.replicate c.calls c.notice

theorem marks_of_called {c : Case} (h : c.calls ≠ 0) :
  c.marks = c.notice.marks
  := if_neg h

/-- A worker has set about the notice. -/
def isBegun (c : Case) : Bool :=
  decide (0 < c.calls) || c.fate.isSome

end Case

namespace Notice

/-- The identities of the events of notices, each of them once. -/
def identities (ns : List Notice) : List String :=
  (ns.flatMap marks).dedup

variable {n : Notice} {ns : List Notice} {e : String}

theorem mem_marks_iff :
  e ∈ n.marks ↔ n.event ≠ "" ∧ e = n.event
  := by
  rw [marks]
  split
  · next h => simp [h]
  · next h => simp [h]

theorem mem_identities_iff :
  e ∈ identities ns ↔ e ≠ "" ∧ ∃ n ∈ ns, n.event = e
  := by
  rw [identities, List.mem_dedup, List.mem_flatMap]
  constructor
  · rintro ⟨n, hn, he⟩
    obtain ⟨hevent, rfl⟩ := mem_marks_iff.1 he
    exact ⟨hevent, n, hn, rfl⟩
  · rintro ⟨he, n, hn, rfl⟩
    exact ⟨n, hn, mem_marks_iff.2 ⟨he, rfl⟩⟩

end Notice

namespace Pool.Treats

variable {p : Pool} {n : Notice} {old new : WorkerPhase} {change : Case → Case}
  {seen : List String} {calls : List Call} {w : Nat} {c : Case}

/-- An event is marked as seen with the first call for the notice. -/
theorem marks (h : p.Treats n old new change seen calls)
    (hdesk : Desk p.plan.retries w (some old) [c]) :
  (change c).marks = seen ++ c.marks
  := by
  cases h with
  | skip | reconcile | postpone | exhaust | crash | abandon => rfl
  | begin =>
    cases hdesk with
    | holding => exact (List.append_nil _).symm
  | retry =>
    cases hdesk with
    | asleep => rfl

/-- What is marked as seen was not seen before. -/
theorem fresh (h : p.Treats n old new change seen calls) :
  seen.Nodup ∧ ∀ e ∈ seen, e ∉ p.seen
  := by
  cases h with
  | skip | reconcile | postpone | exhaust | crash | retry | abandon =>
    exact ⟨List.nodup_nil, nofun⟩
  | begin hnew =>
    refine ⟨?_, hnew⟩
    rw [Notice.marks]
    split
    · exact List.nodup_nil
    · exact List.nodup_singleton _

/-- The calls for a notice are counted. -/
theorem handled (h : p.Treats n old new change seen calls) (hc : c.notice = n) :
  (change c).handled = c.handled ++ calls.map Call.notice
  := by
  cases h with
  | skip | reconcile | postpone | exhaust | crash | abandon => exact (List.append_nil _).symm
  | begin | retry =>
    rw [← hc]
    exact List.replicate_succ'

/-- The verdicts are those of the handler. -/
theorem verdicts (h : p.Treats n old new change seen calls) {v : Verdict}
    (hv : v ∈ (change c).verdicts) :
  v ∈ c.verdicts ∨ ∃ nth, p.handler.verdict n nth = v
  := by
  cases h with
  | skip | begin | retry | abandon => exact .inl hv
  | reconcile hverdict | postpone _ hverdict | exhaust hverdict | crash hverdict =>
    rcases List.mem_append.1 hv with hv | hv
    · exact .inl hv
    · rw [List.mem_singleton.1 hv]
      exact .inr ⟨_, hverdict⟩

end Pool.Treats

namespace Workshop

variable {s t : Workshop} {capacity : Nat} {plan : DeliveryPlan} {handler : Handler}

/-- The calls of the handler are those of the cases, and no two cases with calls are about the same
event. -/
structure Known (s : Workshop) : Prop where
  seen : s.pool.seen.Perm (s.cases.flatMap Case.marks)
  single : s.pool.seen.Nodup
  calls : (s.pool.calls.map Call.notice).Perm (s.cases.flatMap Case.handled)
  duplicates : ∀ c ∈ s.cases, c.fate = some .duplicate →
    c.notice.event ≠ "" ∧ c.notice.event ∈ s.pool.seen
  verdicts : ∀ c ∈ s.cases, ∀ v ∈ c.verdicts, ∃ nth, s.pool.handler.verdict c.notice nth = v
  places : ∀ w n attempt nth finish,
    s.pool.workers.get? w = some (.calling n attempt nth finish) → n.event ≠ "" → nth = attempt + 1
  successive : ∀ c ∈ s.cases, c.notice.event ≠ "" →
    c.verdicts = (List.range c.verdicts.length).map
      (fun i => s.pool.handler.verdict c.notice (i + 1))

/-- The notices that the handler was called for, as far as they are about an event. -/
def handledFor (s : Workshop) (e : String) : List Notice :=
  (s.pool.calls.map Call.notice).filter (fun n => n.event == e)

theorem length_handledFor (s : Workshop) (e : String) :
  (s.handledFor e).length = s.pool.calls.countP (fun c => c.notice.event == e)
  := by
  rw [handledFor, List.filter_map, List.length_map, List.countP_eq_length_filter]
  rfl

namespace Known

theorem opened :
  (opened capacity plan handler).Known
  where
    seen := .nil
    single := List.nodup_nil
    calls := .nil
    duplicates := nofun
    verdicts := nofun
    places := nofun
    successive := nofun

/-- Cases that are not about an event do not count among its calls. -/
theorem filter_handled_eq_nil {cases : List Case} {e : String} (he : e ≠ "")
    (h : e ∉ cases.flatMap Case.marks) :
  (cases.flatMap Case.handled).filter (fun n => n.event == e) = []
  := by
  rw [List.filter_eq_nil_iff]
  intro n hn hevent
  obtain ⟨c, hc, hn⟩ := List.mem_flatMap.1 hn
  obtain ⟨hcalls, rfl⟩ := List.mem_replicate.1 hn
  have hevent := eq_of_beq hevent
  apply h
  refine List.mem_flatMap.2 ⟨c, hc, ?_⟩
  rw [Case.marks_of_called hcalls, Notice.mem_marks_iff, hevent]
  exact ⟨he, rfl⟩

/-- The handler was called for no event that has not been seen. -/
theorem handledFor_eq_nil (h : s.Known) {e : String} (he : e ≠ "") (hseen : e ∉ s.pool.seen) :
  s.handledFor e = []
  := by
  have hperm := h.calls.filter (fun n => n.event == e)
  rw [filter_handled_eq_nil he (mt h.seen.mem_iff.2 hseen)] at hperm
  exact hperm.eq_nil

/-- The calls for an event are those of one case. -/
theorem handledFor_eq (h : s.Known) {before after : List Case} {c : Case}
    (hcases : s.cases = before ++ c :: after) (hevent : c.notice.event ≠ "")
    (hcalls : c.calls ≠ 0) :
  s.handledFor c.notice.event = List.replicate c.calls c.notice ∧
    ∀ d ∈ before ++ after, d.notice.event = c.notice.event → d.calls = 0
  := by
  have hnodup := h.seen.nodup_iff.1 h.single
  have hmark : c.notice.event ∈ c.marks := by
    rw [Case.marks_of_called hcalls, Notice.mem_marks_iff]
    exact ⟨hevent, rfl⟩
  have hothers : c.notice.event ∉ (before ++ after).flatMap Case.marks := by
    have hperm : (s.cases.flatMap Case.marks).Perm
        (c.marks ++ (before ++ after).flatMap Case.marks) := by
      rw [hcases]
      exact List.perm_middle.flatMap_right Case.marks
    intro hmem
    exact (List.nodup_append.1 (hperm.nodup_iff.1 hnodup)).2.2 _ hmark _ hmem rfl
  constructor
  · have hperm : (s.cases.flatMap Case.handled).Perm
        (c.handled ++ (before ++ after).flatMap Case.handled) := by
      rw [hcases]
      exact List.perm_middle.flatMap_right Case.handled
    have hfilter := (h.calls.trans hperm).filter (fun n => n.event == c.notice.event)
    rw [List.filter_append, filter_handled_eq_nil hevent hothers, List.append_nil,
      Case.handled, List.filter_replicate, if_pos (beq_self_eq_true _)] at hfilter
    exact List.perm_replicate.1 hfilter
  · intro d hd hsame
    by_contra hd'
    apply hothers
    refine List.mem_flatMap.2 ⟨d, hd, ?_⟩
    rw [Case.marks_of_called hd', Notice.mem_marks_iff, hsame]
    exact ⟨hevent, rfl⟩

/-- An event that the handler was called for has one case. -/
theorem exists_case (h : s.Known) {e : String} (hseen : e ∈ s.pool.seen) :
  ∃ before c after, s.cases = before ++ c :: after ∧ c.notice.event = e ∧ c.calls ≠ 0
  := by
  obtain ⟨c, hc, hmark⟩ := List.mem_flatMap.1 (h.seen.mem_iff.1 hseen)
  by_cases hcalls : c.calls = 0
  · rw [Case.marks, if_pos hcalls] at hmark
    cases hmark
  · rw [Case.marks_of_called hcalls] at hmark
    obtain ⟨before, after, hcases⟩ := List.append_of_mem hc
    exact ⟨before, c, after, hcases, (Notice.mem_marks_iff.1 hmark).2.symm, hcalls⟩

/-- What was seen was tried. -/
theorem exists_tried (h : s.Known) {e : String} (hseen : e ∈ s.pool.seen) :
  ∃ (i : Nat) (c : Case), s.cases[i]? = some c ∧ c.notice.event = e ∧ c.calls ≠ 0
  := by
  obtain ⟨before, c, after, hcases, hevent, hcalls⟩ := h.exists_case hseen
  refine ⟨before.length, c, ?_, hevent, hcalls⟩
  rw [hcases]
  simp

/-- There are as many calls for an event as for the case of it that was tried. -/
theorem length_handledFor_eq (h : s.Known) {c : Case} (hc : c ∈ s.cases)
    (hevent : c.notice.event ≠ "") (hcalls : c.calls ≠ 0) :
  (s.handledFor c.notice.event).length = c.calls
  := by
  obtain ⟨before, after, hcases⟩ := List.append_of_mem hc
  rw [(h.handledFor_eq hcases hevent hcalls).1, List.length_replicate]

/-- The next call for an event has the next place. -/
theorem nth_eq (h : s.Known) (hs : s.Filed) {w : Nat} {n : Notice} {old new : WorkerPhase}
    {change : Case → Case} {seen : List String} {calls : List Call}
    (hw : s.pool.workers.get? w = some old)
    (htreats : s.pool.Treats n old new change seen calls) {m : Notice}
    {attempt nth finish : Nat} (hnew : new = .calling m attempt nth finish)
    (hevent : m.event ≠ "") :
  nth = attempt + 1
  := by
  obtain ⟨c, hc, -, rfl, -, hdesk⟩ := hs.exists_case hw htreats
  cases htreats with
  | skip | reconcile | postpone | exhaust | crash | abandon => cases hnew
  | begin hfresh =>
    cases hnew
    have hseen := hfresh c.notice.event (Notice.mem_marks_iff.2 ⟨hevent, rfl⟩)
    rw [Pool.nth, ← length_handledFor, h.handledFor_eq_nil hevent hseen]
    rfl
  | @retry attempt due =>
    cases hnew
    have hcalls := hdesk.calls_of_asleep
    obtain ⟨before, after, hcases, -, -⟩ := Case.exists_amend hc
    have hne : c.calls ≠ 0 := by
      rw [hcalls]
      exact Nat.succ_ne_zero attempt
    rw [Pool.nth, ← length_handledFor, (h.handledFor_eq hcases hevent hne).1,
      List.length_replicate, hcalls]

/-- Where neither the cases change, nor what was seen and called. -/
theorem of_pool (h : s.Known) (hcases : t.cases = s.cases) (hseen : t.pool.seen = s.pool.seen)
    (hcalls : t.pool.calls = s.pool.calls) (hhandler : t.pool.handler = s.pool.handler)
    (hplaces : ∀ w n attempt nth finish,
      t.pool.workers.get? w = some (.calling n attempt nth finish) →
      s.pool.workers.get? w = some (.calling n attempt nth finish)) :
  t.Known
  := by
  constructor
  · rw [hseen, hcases]
    exact h.seen
  · rw [hseen]
    exact h.single
  · rw [hcalls, hcases]
    exact h.calls
  · rw [hcases, hseen]
    exact h.duplicates
  · rw [hcases, hhandler]
    exact h.verdicts
  · intro w n attempt nth finish hw
    exact h.places w n attempt nth finish (hplaces w n attempt nth finish hw)
  · rw [hcases, hhandler]
    exact h.successive

theorem take (h : s.Known) {exchange : Exchange} {w : Nat} {n : Notice}
    (hw : s.pool.workers.get? w = some .waiting) :
  Known { s with
    exchange
    pool := s.pool.setPhase w (.holding n)
    cases := s.cases ++ [{ worker := w, notice := n }] }
  where
    seen := by
      rw [List.flatMap_append]
      exact h.seen.trans (List.Perm.of_eq (List.append_nil _).symm)
    single := h.single
    calls := by
      rw [List.flatMap_append]
      exact h.calls.trans (List.Perm.of_eq (List.append_nil _).symm)
    duplicates c hc hfate := by
      rcases List.mem_append.1 hc with hc | hc
      · exact h.duplicates c hc hfate
      · rw [List.mem_singleton.1 hc] at hfate
        cases hfate
    verdicts c hc := by
      rcases List.mem_append.1 hc with hc | hc
      · exact h.verdicts c hc
      · rw [List.mem_singleton.1 hc]
        exact nofun
    places k m attempt nth finish hk := by
      have hk : (s.pool.workers.modify w (fun _ => .holding n)).get? k
          = some (.calling m attempt nth finish) := hk
      rw [Keyed.get?_modify hw] at hk
      split at hk
      · cases hk
      · exact h.places k m attempt nth finish hk
    successive c hc := by
      rcases List.mem_append.1 hc with hc | hc
      · exact h.successive c hc
      · rw [List.mem_singleton.1 hc]
        exact fun _ => rfl

/-- The verdicts on an event with an identity come one after the other. -/
theorem successive_treat (h : s.Known) (hs : s.Filed) {w : Nat} {n : Notice}
    {old new : WorkerPhase} {change : Case → Case} {seen : List String} {calls : List Call}
    (hw : s.pool.workers.get? w = some old)
    (htreats : s.pool.Treats n old new change seen calls) {c : Case} (hc : s.desk w = [c])
    (hevent : (change c).notice.event ≠ "") :
  (change c).verdicts = (List.range (change c).verdicts.length).map
    (fun i => s.pool.handler.verdict (change c).notice (i + 1))
  := by
  obtain ⟨c', hc', -, rfl, -, hdesk⟩ := hs.exists_case hw htreats
  obtain rfl : c = c' := List.singleton_inj.1 (hc.symm.trans hc')
  rw [(htreats.keeps c).2] at hevent ⊢
  have hmem : c ∈ s.cases := by
    obtain ⟨before, after, hcases, -, -⟩ := Case.exists_amend hc
    rw [hcases]
    exact List.mem_append_right _ List.mem_cons_self
  have hold := h.successive c hmem hevent
  have hjudged : ∀ {attempt nth finish v fate}, old = .calling c.notice attempt nth finish →
      s.pool.handler.verdict c.notice nth = v →
      (c.judged v fate).verdicts = (List.range (c.judged v fate).verdicts.length).map
        (fun i => s.pool.handler.verdict c.notice (i + 1)) := by
    intro attempt nth finish v fate hphase hverdict
    rw [hphase] at hw hdesk
    have hnth := h.places w c.notice attempt nth finish hw hevent
    rw [← hdesk.length_of_calling] at hnth
    rw [Case.judged, List.length_append, List.length_singleton, List.range_succ, List.map_append,
      ← hold, ← hverdict, hnth]
    rfl
  cases htreats with
  | skip | begin | retry | abandon => exact hold
  | reconcile hverdict | postpone _ hverdict | exhaust hverdict | crash hverdict =>
    exact hjudged rfl hverdict

theorem treat (h : s.Known) (hs : s.Filed) {w : Nat} {n : Notice} {old new : WorkerPhase}
    {change : Case → Case} {seen : List String} {calls : List Call} {pool : Pool}
    (hw : s.pool.workers.get? w = some old)
    (htreats : s.pool.Treats n old new change seen calls)
    (hpool : s.pool.Advances w new seen calls pool) :
  Known { s with pool, cases := Case.amend s.cases w change }
  := by
  obtain ⟨c, hc, -, hnotice, hfate, hdesk⟩ := hs.exists_case hw htreats
  have hkeeps := htreats.keeps
  obtain ⟨hnodup, hfresh⟩ := htreats.fresh
  constructor
  case seen =>
    have hmarks : (change c).marks.Perm (c.marks ++ seen) := by
      rw [htreats.marks hdesk]
      exact List.perm_append_comm
    rw [hpool.seen]
    refine List.perm_append_comm.trans ((h.seen.append_right seen).trans ?_)
    exact (Case.flatMap_amend Case.marks hc hmarks).symm
  case single =>
    rw [hpool.seen]
    refine List.nodup_append.2 ⟨hnodup, h.single, fun e he e' he' heq => ?_⟩
    exact hfresh e he (heq ▸ he')
  case calls =>
    have hhandled := List.Perm.of_eq (htreats.handled hnotice)
    rw [hpool.calls, List.map_append]
    exact (h.calls.append_right _).trans (Case.flatMap_amend Case.handled hc hhandled).symm
  case duplicates =>
    intro d hd hd'
    rw [hpool.seen]
    rcases Case.mem_amend hc hd with rfl | hd
    · rw [(hkeeps c).2, hnotice]
      cases htreats with
      | skip hevent hseen => exact ⟨hevent, hseen⟩
      | begin | retry =>
        rw [Case.called, hfate] at hd'
        cases hd'
      | reconcile | postpone | exhaust | crash | abandon => cases hd'
    · obtain ⟨hevent, hseen⟩ := h.duplicates d hd hd'
      exact ⟨hevent, List.mem_append_right _ hseen⟩
  case verdicts =>
    intro d hd v hv
    rw [hpool.handler]
    have hmem : c ∈ s.cases := (List.mem_filter.1 (hc ▸ List.mem_singleton_self c)).1
    rcases Case.mem_amend hc hd with rfl | hd
    · rw [(hkeeps c).2]
      rcases htreats.verdicts hv with hv | hverdict
      · exact h.verdicts c hmem v hv
      · rw [hnotice]
        exact hverdict
    · exact h.verdicts d hd v hv
  case places =>
    intro k m attempt nth finish hk hevent
    rw [hpool.get? hw] at hk
    split at hk
    · exact h.nth_eq hs hw htreats (Option.some.inj hk) hevent
    · exact h.places k m attempt nth finish hk hevent
  case successive =>
    intro d hd hevent
    rw [hpool.handler]
    rcases Case.mem_amend hc hd with rfl | hd
    · exact h.successive_treat hs hw htreats hc hevent
    · exact h.successive d hd hevent

theorem step (h : s.Known) (hstaffed : s.Staffed) (hfiled : s.Filed) (hstep : s.Step t) :
  t.Known
  := by
  have hphase : ∀ {w old new}, s.pool.workers.get? w = some old →
      (∀ m attempt nth finish, new ≠ .calling m attempt nth finish) →
      ∀ k m attempt nth finish,
        (s.pool.setPhase w new).workers.get? k = some (.calling m attempt nth finish) →
        s.pool.workers.get? k = some (.calling m attempt nth finish) := by
    intro w old new hw hnew k m attempt nth finish hk
    rw [Pool.setPhase, Keyed.get?_modify hw] at hk
    split at hk
    · exact absurd (Option.some.inj hk) (hnew m attempt nth finish)
    · exact hk
  cases hstep with
  | ask hw => exact h.of_pool rfl rfl rfl rfl (hphase hw (by simp))
  | take htakers => exact h.take (hstaffed.get?_of_takers htakers)
  | leave htakers =>
    exact h.of_pool rfl rfl rfl rfl (hphase (hstaffed.get?_of_takers htakers) (by simp))
  | treat hw htreats hpool => exact h.treat hfiled hw htreats hpool
  | start =>
    refine h.of_pool rfl rfl rfl rfl fun k m attempt nth finish hk => ?_
    rcases s.pool.get?_start k with heq | ⟨-, hidle, -⟩
    · exact heq.symm.trans hk
    · cases hidle.symm.trans hk
  | outside | confirm | expire | shutDown | stop | pass =>
    exact h.of_pool rfl rfl rfl rfl fun _ _ _ _ _ hk => hk

end Known

theorem Runs.known (h : (Workshop.opened capacity plan handler).Runs s) :
  s.Known
  := by
  induction h with
  | refl => exact .opened
  | tail hruns hleads ih =>
    obtain ⟨m, hm⟩ := hleads
    exact ih.step (Runs.staffed hruns) (Runs.filed hruns) (step_of_move hm)

end Workshop

end Reconciliation
