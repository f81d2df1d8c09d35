import Reconciliation.Proofs.Handling
import Reconciliation.Proofs.Quiet

/-!
# Every event is handled once, and tried often enough

The events that the pool has seen are those of the notices that workers have set about
(`Workshop.Known.seen_perm`).  When nobody will go on any more, the handler was called for an event
until a call succeeded, or as often as the plan allows, unless the event was abandoned
(`Workshop.Known.length_handledFor_of_quiet`).
-/

namespace Reconciliation.Workshop

variable {s t : Workshop} {capacity : Nat} {plan : DeliveryPlan} {handler : Handler}

/-! ### What was seen -/

/-- A notice that a worker is done with, and that was never tried, is about an event seen before. -/
theorem Filed.duplicate_of_calls (h : s.Filed) {c : Case} (hc : c ∈ s.cases) (hbegun : c.isBegun)
    (hcalls : c.calls = 0) :
  c.fate = some .duplicate
  := by
  rw [Case.isBegun, hcalls] at hbegun
  obtain ⟨fate, hfate⟩ := Option.isSome_iff_exists.1 hbegun
  obtain ⟨hexplains, hlength⟩ := h.closed c hc fate hfate
  rw [List.eq_nil_of_length_eq_zero (hlength.symm.trans hcalls)] at hexplains
  cases fate with
  | duplicate => exact hfate
  | reconciled | panicked =>
    obtain ⟨failures, heq, -⟩ := hexplains
    simp at heq
  | exhausted => cases hexplains.2
  | abandoned => cases hexplains.2.1

/-- An event was seen if a worker has set about a notice of it. -/
theorem Known.mem_seen_iff (h : s.Known) (hfiled : s.Filed) {e : String} :
  e ∈ s.pool.seen ↔ e ≠ "" ∧ ∃ c ∈ s.cases, c.isBegun ∧ c.notice.event = e
  := by
  rw [h.seen.mem_iff, List.mem_flatMap]
  constructor
  · rintro ⟨c, hc, he⟩
    by_cases hcalls : c.calls = 0
    · rw [Case.marks, if_pos hcalls] at he
      cases he
    · rw [Case.marks_of_called hcalls] at he
      obtain ⟨hevent, rfl⟩ := Notice.mem_marks_iff.1 he
      refine ⟨hevent, c, hc, ?_, rfl⟩
      rw [Case.isBegun, decide_eq_true (Nat.pos_of_ne_zero hcalls), Bool.true_or]
  · rintro ⟨hevent, c, hc, hbegun, rfl⟩
    by_cases hcalls : c.calls = 0
    · have hfate := hfiled.duplicate_of_calls hc hbegun hcalls
      obtain ⟨d, hd, hmark⟩ := List.mem_flatMap.1 (h.seen.mem_iff.1 (h.duplicates c hc hfate).2)
      exact ⟨d, hd, hmark⟩
    · exact ⟨c, hc, by rw [Case.marks_of_called hcalls, Notice.mem_marks_iff]; exact ⟨hevent, rfl⟩⟩

/-- The events seen are those of the notices that workers have set about. -/
theorem Known.seen_perm (h : s.Known) (hfiled : s.Filed) :
  s.pool.seen.Perm (Notice.identities ((s.cases.filter Case.isBegun).map Case.notice))
  := by
  refine (List.perm_ext_iff_of_nodup h.single (List.nodup_dedup _)).2 fun e => ?_
  rw [h.mem_seen_iff hfiled]
  refine Iff.trans ?_ Notice.mem_identities_iff.symm
  simp only [List.mem_map, List.mem_filter]
  constructor
  · rintro ⟨he, c, hc, hbegun, rfl⟩
    exact ⟨he, c.notice, ⟨c, ⟨hc, hbegun⟩, rfl⟩, rfl⟩
  · rintro ⟨he, _, ⟨c, ⟨hc, hbegun⟩, rfl⟩, rfl⟩
    exact ⟨he, c, hc, hbegun, rfl⟩

/-- Where no worker merely holds a notice, those that were taken were set about. -/
theorem Filed.isBegun (h : s.Filed)
    (hnone : ∀ w n, s.pool.workers.get? w ≠ some (.holding n)) {c : Case} (hc : c ∈ s.cases) :
  c.isBegun
  := by
  cases hfate : c.fate with
  | some fate =>
    rw [Case.isBegun, hfate, Option.isSome_some, Bool.or_true]
  | none =>
    have hmem := mem_desk hc hfate
    have hdesk := h.desks c.worker
    have hphase := hnone c.worker
    generalize s.desk c.worker = l at hmem hdesk
    generalize s.pool.workers.get? c.worker = o at hdesk hphase
    cases hdesk with
    | absent | free => cases hmem
    | holding n => exact absurd rfl (hphase n)
    | calling | asleep =>
      rw [List.mem_singleton.1 hmem, Case.isBegun, decide_eq_true (Nat.succ_pos _), Bool.true_or]

/-! ### In the end -/

theorem Known.verdict_of_getElem? (h : s.Known) {c : Case} (hc : c ∈ s.cases)
    (hevent : c.notice.event ≠ "") {i : Nat} {v : Verdict} (hv : c.verdicts[i]? = some v) :
  s.pool.handler.verdict c.notice (i + 1) = v
  := by
  rw [h.successive c hc hevent, List.getElem?_map] at hv
  obtain ⟨j, hj, hv⟩ := Option.map_eq_some_iff.1 hv
  obtain ⟨_, hj⟩ := List.getElem?_eq_some_iff.1 hj
  rw [List.getElem_range] at hj
  rw [hj]
  exact hv

/-- A notice that has met its fate in the end of its calls was tried until a call succeeded, or as
often as the plan allows. -/
theorem Known.calls_eq (h : s.Known) (hfiled : s.Filed) {c : Case} (hc : c ∈ s.cases)
    (hevent : c.notice.event ≠ "") (hfate : c.fate = some .reconciled ∨ c.fate = some .exhausted)
    {f : Nat} (hfails : ∀ nth, 1 ≤ nth → nth ≤ s.pool.plan.retries + 1 →
      ((s.pool.handler.verdict c.notice nth).isFailed ↔ nth ≤ f)) :
  c.calls = min f s.pool.plan.retries + 1
  := by
  have hle : ∀ failures : List Verdict, failures <+: c.verdicts →
      failures.all Verdict.isFailed → failures.length ≤ s.pool.plan.retries + 1 →
      failures.length ≤ f := by
    intro failures hfirst hfailures hlength
    cases hk : failures.length with
    | zero => exact Nat.zero_le f
    | succ k =>
      have hlast : k < failures.length := by omega
      have hverdict := h.verdict_of_getElem? hc hevent
        ((List.prefix_iff_getElem?.1 hfirst) k hlast)
      rw [← hfails (k + 1) (Nat.succ_pos k) (by omega), hverdict]
      exact List.all_eq_true.1 hfailures _ (List.getElem_mem hlast)
  rcases hfate with hfate | hfate
  · obtain ⟨⟨failures, hverdicts, hfailures, hlength⟩, hcalls⟩ := hfiled.closed c hc _ hfate
    have hmin := hle failures (hverdicts ▸ List.prefix_append _ _) hfailures (by omega)
    have hnext : ¬ failures.length + 1 ≤ f := by
      rw [← hfails _ (Nat.succ_pos _) (by omega), h.verdict_of_getElem? hc hevent
        (by rw [hverdicts]; exact List.getElem?_concat_length)]
      nofun
    rw [hcalls, hverdicts, List.length_append, List.length_singleton]
    omega
  · obtain ⟨⟨hfailures, hlength⟩, hcalls⟩ := hfiled.closed c hc _ hfate
    have hmin := hle c.verdicts List.prefix_rfl hfailures (by omega)
    omega

/-- A handler that does not panic ends no worker. -/
theorem Known.notPanicked (h : s.Known)
    (hcalm : ∀ n nth, s.pool.handler.verdict n nth ≠ .panicked) (hfiled : s.Filed) {c : Case}
    (hc : c ∈ s.cases) :
  c.fate ≠ some .panicked
  := by
  intro hfate
  obtain ⟨⟨failures, hverdicts, -⟩, -⟩ := hfiled.closed c hc _ hfate
  have hmem : Verdict.panicked ∈ c.verdicts := by
    rw [hverdicts]
    exact List.mem_append_right _ (List.mem_singleton_self _)
  obtain ⟨nth, hnth⟩ := h.verdicts c hc _ hmem
  exact hcalm _ _ hnth

theorem Known.notCrashed (h : s.Known)
    (hcalm : ∀ n nth, s.pool.handler.verdict n nth ≠ .panicked) (hs : s.IsOrderly) {w : Nat} :
  s.pool.workers.get? w ≠ some .crashed
  := by
  intro hw
  obtain ⟨c, hc, -, hfate⟩ := (hs.2.crashed_iff hs.1).1 hw
  exact h.notPanicked hcalm hs.2 hc hfate

theorem Runs.notCrashed {capacity : Nat} {plan : DeliveryPlan} {handler : Handler}
    (h : (opened capacity plan handler).Runs s)
    (hcalm : ∀ n nth, handler.verdict n nth ≠ .panicked) (w : Nat) :
  s.pool.workers.get? w ≠ some .crashed
  := by
  apply h.known.notCrashed _ h.isOrderly
  rw [h.settings.2]
  exact hcalm

/-- A worker that was started is one of the pool. -/
theorem Staffed.exists_worker (h : s.Staffed) (hstarted : s.pool.workers ≠ []) :
  ∃ w phase, s.pool.workers.get? w = some phase
  := by
  obtain ⟨⟨w, phase⟩, workers, hworkers⟩ := List.exists_cons_of_ne_nil hstarted
  refine ⟨w, phase, Keyed.get?_of_mem h.keys ?_⟩
  rw [hworkers]
  exact List.mem_cons_self

/-- In the end nothing is left to the workers. -/
theorem Runs.drained {capacity : Nat} {plan : DeliveryPlan} {handler : Handler}
    (h : (opened capacity plan handler).Runs s)
    (hcalm : ∀ n nth, handler.verdict n nth ≠ .panicked) (hstarted : s.pool.workers ≠ [])
    (hquiet : s.IsQuiet) :
  s.bus.queue = [] ∧ s.exchange.waiting = []
  := by
  obtain ⟨w, phase, hw⟩ := h.staffed.exists_worker hstarted
  have hroom : 0 < s.bus.capacity := by
    have hcapacity : s.bus.capacity = max capacity 1 := h.exchange.capacity
    omega
  apply hquiet.drained h.isOrderly hroom hw
  rintro rfl
  exact h.notCrashed hcalm w hw

/-- In the end a notice was reconciled, given up after the last call, or abandoned, unless it was
about an event seen before. -/
theorem Known.fate_of_quiet (h : s.Known) (hfiled : s.Filed)
    (hcalm : ∀ n nth, s.pool.handler.verdict n nth ≠ .panicked)
    (hfree : ∀ w phase, s.pool.workers.get? w = some phase → phase.isFree) {c : Case}
    (hc : c ∈ s.cases) (hnew : c.fate ≠ some .duplicate) :
  c.fate = some .reconciled ∨ c.fate = some .exhausted ∨ c.fate = some .abandoned
  := by
  obtain ⟨fate, hfate⟩ := hfiled.exists_fate hfree hc
  cases fate with
  | duplicate => exact absurd hfate hnew
  | reconciled => exact .inl hfate
  | exhausted => exact .inr (.inl hfate)
  | abandoned => exact .inr (.inr hfate)
  | panicked => exact absurd hfate (h.notPanicked hcalm hfiled hc)

/-- In the end the handler was called for an event until a call succeeded, or as often as the plan
allows. -/
theorem Known.length_handledFor_of_quiet (h : s.Known) (hs : s.IsOrderly)
    (hcalm : ∀ n nth, s.pool.handler.verdict n nth ≠ .panicked) (hquiet : s.IsQuiet)
    (hqueue : s.bus.queue = []) {e : String} {f : Nat} (he : e ≠ "")
    (haccepted : e ∈ s.exchange.accepted.map (fun c => c.notice.event))
    (hkept : ∀ c ∈ s.cases, c.notice.event = e → c.fate ≠ some .abandoned)
    (hfails : ∀ n nth, n.event = e → 1 ≤ nth → nth ≤ s.pool.plan.retries + 1 →
      ((s.pool.handler.verdict n nth).isFailed ↔ nth ≤ f)) :
  (s.handledFor e).length = min f s.pool.plan.retries + 1
  := by
  have hseen : e ∈ s.pool.seen := by
    obtain ⟨d, hd, rfl⟩ := List.mem_map.1 haccepted
    have hmem : d.notice ∈ s.cases.map Case.notice := by
      rw [hs.accepted_of_drained hqueue]
      exact List.mem_map_of_mem hd
    obtain ⟨c, hc, hnotice⟩ := List.mem_map.1 hmem
    have hbegun := hs.2.isBegun (fun w n hw => ?_) hc
    · exact (h.mem_seen_iff hs.2).2 ⟨he, c, hc, hbegun, by rw [hnotice]⟩
    · rcases hquiet.phase hs hw with hwaiting | hover
      · cases hwaiting
      · cases hover
  obtain ⟨before, c, after, hcases, rfl, hcalls⟩ := h.exists_case hseen
  have hc : c ∈ s.cases := by
    rw [hcases]
    exact List.mem_append_right _ List.mem_cons_self
  have hnew : c.fate ≠ some .duplicate := by
    intro hfate
    obtain ⟨hnil, hlength⟩ := hs.2.closed c hc _ hfate
    rw [Fate.Explains] at hnil
    rw [hnil] at hlength
    exact hcalls hlength
  rw [(h.handledFor_eq hcases he hcalls).1, List.length_replicate]
  apply h.calls_eq hs.2 hc he ?_ fun nth => hfails c.notice nth rfl
  have hkept := hkept c hc rfl
  exact (h.fate_of_quiet hs.2 hcalm (hquiet.isFree hs) hc hnew).imp_right fun hfate =>
    hfate.resolve_right hkept

/-- All calls for an event with an identity are for one notice, and each but the last has failed. -/
theorem Known.handled_for_one (h : s.Known) (hfiled : s.Filed) {e : String} (he : e ≠ "") :
  s.handledFor e = [] ∨
    ∃ before c after, s.cases = before ++ c :: after ∧ c.notice.event = e ∧
      s.handledFor e = List.replicate c.calls c.notice ∧
      (∀ d ∈ before ++ after, d.notice.event = e → d.calls = 0) ∧
      (s.handledFor e).length ≤ s.pool.plan.retries + 1 ∧
      ∀ i, i + 1 < c.calls → (s.pool.handler.verdict c.notice (i + 1)).isFailed
  := by
  by_cases hseen : e ∈ s.pool.seen
  · obtain ⟨before, c, after, hcases, rfl, hcalls⟩ := h.exists_case hseen
    have hc : c ∈ s.cases := by
      rw [hcases]
      exact List.mem_append_right _ List.mem_cons_self
    obtain ⟨hhandled, hothers⟩ := h.handledFor_eq hcases he hcalls
    have hretried := hfiled.isRetried hc
    refine .inr ⟨before, c, after, hcases, rfl, hhandled, hothers, ?_, fun i hi => ?_⟩
    · rw [hhandled, List.length_replicate]
      exact hretried.calls_le
    · have hlt : i < c.verdicts.length := by
        have hverdicts := hretried.verdicts
        omega
      rw [h.verdict_of_getElem? hc he (List.getElem?_eq_getElem hlt)]
      refine List.all_eq_true.1 hretried.failures _ (List.mem_take_iff_getElem.2 ⟨i, ?_, rfl⟩)
      omega
  · exact .inl (h.handledFor_eq_nil he hseen)

/-- In the end a notice without an identity was tried on its own. -/
theorem Known.tried_of_quiet (h : s.Known) (hfiled : s.Filed)
    (hcalm : ∀ n nth, s.pool.handler.verdict n nth ≠ .panicked)
    (hfree : ∀ w phase, s.pool.workers.get? w = some phase → phase.isFree) {c : Case}
    (hc : c ∈ s.cases) (hevent : c.notice.event = "") :
  0 < c.calls ∧
    (c.fate = some .reconciled ∨ c.fate = some .exhausted ∧ c.calls = s.pool.plan.retries + 1 ∨
      c.fate = some .abandoned)
  := by
  have hnew : c.fate ≠ some .duplicate := fun hfate => (h.duplicates c hc hfate).1 hevent
  rcases h.fate_of_quiet hfiled hcalm hfree hc hnew with hfate | hfate | hfate
  · obtain ⟨⟨failures, hverdicts, -⟩, hcalls⟩ := hfiled.closed c hc _ hfate
    rw [hverdicts, List.length_append] at hcalls
    exact ⟨by rw [hcalls]; exact Nat.succ_pos _, .inl hfate⟩
  · obtain ⟨⟨-, hlength⟩, hcalls⟩ := hfiled.closed c hc _ hfate
    rw [hlength] at hcalls
    exact ⟨by rw [hcalls]; exact Nat.succ_pos _, .inr (.inl ⟨hfate, hcalls⟩)⟩
  · obtain ⟨⟨-, hlength, -⟩, hcalls⟩ := hfiled.closed c hc _ hfate
    exact ⟨hcalls ▸ hlength, .inr (.inr hfate)⟩

/-- Where no worker merely holds a notice, the events seen are those of the notices taken. -/
theorem Known.seen_perm_delivered (h : s.Known) (hfiled : s.Filed)
    (hnone : ∀ w n, s.pool.workers.get? w ≠ some (.holding n)) :
  s.pool.seen.Perm (Notice.identities s.exchange.delivered)
  := by
  have hall : s.cases.filter Case.isBegun = s.cases :=
    List.filter_eq_self.2 fun c hc => hfiled.isBegun hnone hc
  have hperm := h.seen_perm hfiled
  rw [hall, ← hfiled.delivered] at hperm
  exact hperm

/-- Every event with an identity is handled once, and no notice is tried more often than the
plan allows, whatever the order in which publishers and workers go on.  The calls of the handler
are those for the notices that were taken.  A notice is tried again only after failures, and all
calls for an event with an identity are for one notice.  The events seen are those of the
notices that workers have set about, each of them once.  Those who can go on do so only so
often; when nobody will go on any more, the handler does not panic and there are workers, every
notice that was accepted was taken.  Then the handler was called for an event until a call
succeeded, or as often as the plan allows, unless the event was abandoned, and each notice
without an identity was tried on its own. -/
theorem Runs.handled_once (h : (Workshop.opened capacity plan handler).Runs s) :
  (s.cases.map Case.notice = s.exchange.delivered ∧
    (s.pool.calls.map Call.notice).Perm
      (s.cases.flatMap fun c => List.replicate c.calls c.notice)) ∧
  (∀ c ∈ s.cases, c.IsRetried (min plan.retries 64)) ∧
  (∀ e, e ≠ "" → s.handledFor e = [] ∨
    ∃ before c after, s.cases = before ++ c :: after ∧ c.notice.event = e ∧
      s.handledFor e = List.replicate c.calls c.notice ∧
      (∀ d ∈ before ++ after, d.notice.event = e → d.calls = 0) ∧
      (s.handledFor e).length ≤ min plan.retries 64 + 1 ∧
      ∀ i, i + 1 < c.calls → (handler.verdict c.notice (i + 1)).isFailed) ∧
  (s.pool.seen.Perm (Notice.identities ((s.cases.filter Case.isBegun).map Case.notice)) ∧
    ((∀ w n, s.pool.workers.get? w ≠ some (.holding n)) →
      s.pool.seen.Perm (Notice.identities s.exchange.delivered))) ∧
  ((∀ t, s.Proceeds t → t.work < s.work) ∧ ∃ t, s.Settles t ∧ s.Runs t ∧ t.IsQuiet) ∧
  ((∀ n nth, handler.verdict n nth ≠ .panicked) → s.pool.workers ≠ [] → s.IsQuiet →
    s.cases.map Case.notice = s.exchange.accepted.map Publication.notice ∧
    (∀ e f, e ≠ "" → e ∈ s.exchange.accepted.map (fun c => c.notice.event) →
      (∀ c ∈ s.cases, c.notice.event = e → c.fate ≠ some .abandoned) →
      (∀ n nth, n.event = e → 1 ≤ nth → nth ≤ min plan.retries 64 + 1 →
        ((handler.verdict n nth).isFailed ↔ nth ≤ f)) →
      (s.handledFor e).length = min f (min plan.retries 64) + 1) ∧
    ∀ c ∈ s.cases, c.notice.event = "" → 0 < c.calls ∧
      (c.fate = some .reconciled ∨ c.fate = some .exhausted ∧ c.calls = min plan.retries 64 + 1 ∨
        c.fate = some .abandoned))
  := by
  have hs : s.IsOrderly := ⟨h.staffed, h.filed⟩
  have hknown := h.known
  obtain ⟨hplan, hhandler⟩ := h.settings
  have hretries : s.pool.plan.retries = min plan.retries 64 := by
    rw [hplan]
    rfl
  subst hhandler
  rw [← hretries]
  refine ⟨⟨hs.2.delivered.symm, hknown.calls⟩, fun c hc => hs.2.isRetried hc,
    fun e => hknown.handled_for_one hs.2,
    ⟨hknown.seen_perm hs.2, hknown.seen_perm_delivered hs.2⟩,
    ⟨fun t => hs.work_lt, hs.exists_quiet⟩, ?_⟩
  intro hcalm hstarted hquiet
  obtain ⟨w, phase, hw⟩ := hs.1.exists_worker hstarted
  have hroom : 0 < s.bus.capacity := by
    have hcapacity : s.bus.capacity = max capacity 1 := h.exchange.capacity
    omega
  obtain ⟨hqueue, -⟩ := hquiet.drained hs hroom hw fun hcrashed =>
    hknown.notCrashed hcalm hs (hcrashed ▸ hw)
  exact ⟨hs.accepted_of_drained hqueue, fun e f he haccepted hkept hfails =>
    hknown.length_handledFor_of_quiet hs hcalm hquiet hqueue he haccepted hkept hfails,
    fun c hc hevent => hknown.tried_of_quiet hs.2 hcalm (hquiet.isFree hs) hc hevent⟩

/-! ### A workshop with every kind of notice -/

/-- A handler whose first call for an event fails if the event has an identity. -/
def flaky : Handler where
  verdict n nth :=
    if n.event ≠ "" ∧ nth = 1 then .failed (.unreconciled n.event "down") else .reconciled

theorem flaky_calm (n : Notice) (nth : Nat) :
  flaky.verdict n nth ≠ .panicked
  := by
  rw [flaky]
  dsimp only
  split
  · nofun
  · nofun

/-- There are two workers, and calls are repeated once. -/
def livelyStart : Workshop :=
  opened 1 { workers := 2, retries := 1, delay := .ofMillis 100 } flaky

/-- A notice is published and queued. -/
def publishing (event : String) : List Move :=
  [.bus (.publish (.caller 0) "t" (Exchange.noticeOf event)), .bus (.accept (.caller 0))]

/-- A worker takes a notice and sets about it. -/
def taking (w : Nat) : List Move :=
  [.work (.ask w), .work (.receive w), .work (.begin w)]

/-- The call for an event fails and is repeated; meanwhile the other worker skips a second notice of
the event, and handles one without an identity. -/
def livelyMoves : List Move :=
  [.start] ++ publishing "a" ++ taking 0 ++ publishing "a" ++ taking 1 ++ [.work (.conclude 0)] ++
    publishing "" ++ taking 1 ++ [.work (.conclude 1), .pass 100, .work (.retry 0),
      .work (.conclude 0)]

/-- The workshop in the end. -/
def livelyEnd : Workshop :=
  (livelyMoves.foldlM move livelyStart).getD livelyStart

theorem runs_lively :
  livelyStart.Runs livelyEnd
  := by
  apply reflTransGen_of_isSome
  decide +kernel

theorem handled_once_lively :
  livelyEnd.cases.map Case.fate = [some .reconciled, some .duplicate, some .reconciled] ∧
  livelyEnd.cases.map Case.calls = [2, 0, 1] ∧
  (livelyEnd.pool.calls.map Call.notice).Perm
    [Exchange.noticeOf "a", Exchange.noticeOf "a", Exchange.noticeOf ""] ∧
  livelyEnd.pool.seen = ["a"] ∧ (flaky.verdict (Exchange.noticeOf "a") 1).isFailed ∧
  ∃ t, livelyEnd.Settles t ∧ livelyEnd.Runs t ∧ t.IsQuiet
  := by
  obtain ⟨⟨-, hcalls⟩, -, -, -, ⟨-, hquiet⟩, -⟩ := Runs.handled_once runs_lively
  have hcases : (livelyEnd.cases.flatMap fun c => List.replicate c.calls c.notice)
      = [Exchange.noticeOf "a", Exchange.noticeOf "a", Exchange.noticeOf ""] := by
    decide +kernel
  rw [hcases] at hcalls
  exact ⟨by decide +kernel, by decide +kernel, hcalls, by decide +kernel, by decide +kernel,
    hquiet⟩

end Reconciliation.Workshop
