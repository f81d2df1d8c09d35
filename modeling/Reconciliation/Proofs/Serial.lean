import Mathlib.Algebra.Ring.Nat
import Reconciliation.Proofs.Cases
import Reconciliation.Proofs.Retries

/-!
# Notices one after the other

`Handler.serveAll` handles notices one after the other, each of them to its end: until a call for it
succeeds, or as often as the plan allows, and not at all if its event was handled before.  A pool
that has a single worker and is not shut down makes these calls in this order, and `Workshop.Serves`
says how far it has come.
-/

namespace Reconciliation

/-! ### Serving -/

namespace Handler

/-- The number of calls for a notice, after so many calls for its event, if so many repetitions are
allowed. -/
def tries (h : Handler) (n : Notice) : Nat → Nat → Nat
  | _, 0 => 1
  | before, repeats + 1 =>
    if (h.verdict n (before + 1)).isFailed then h.tries n (before + 1) repeats + 1 else 1

/-- The notices of all calls, once another notice was handled to its end. -/
def serve (h : Handler) (retries : Nat) (calls : List Notice) (n : Notice) : List Notice :=
  let before := calls.countP (fun m => m.event == n.event)
  if n.event ≠ "" ∧ 0 < before then calls
  else calls ++ List.replicate (h.tries n before retries) n

/-- The notices of the calls for notices that are handled one after the other. -/
def serveAll (h : Handler) (retries : Nat) (ns : List Notice) : List Notice :=
  ns.foldl (h.serve retries) []

variable {h : Handler} {n : Notice} {before repeats retries : Nat} {ns ns' : List Notice}

theorem tries_pos :
  0 < h.tries n before repeats
  := by
  cases repeats with
  | zero => exact Nat.one_pos
  | succ repeats =>
    rw [tries]
    split
    · exact Nat.succ_pos _
    · exact Nat.one_pos

theorem tries_of_not_isFailed (hverdict : ¬ (h.verdict n (before + 1)).isFailed) :
  h.tries n before repeats = 1
  := by
  cases repeats with
  | zero => rfl
  | succ repeats => rw [tries, if_neg hverdict]

theorem tries_of_isFailed (hverdict : (h.verdict n (before + 1)).isFailed) :
  h.tries n before (repeats + 1) = 1 + h.tries n (before + 1) repeats
  := by
  rw [tries, if_pos hverdict, Nat.add_comm]

theorem serveAll_concat :
  h.serveAll retries (ns ++ [n]) = h.serve retries (h.serveAll retries ns) n
  := by
  rw [serveAll, List.foldl_append]
  rfl

theorem prefix_serve :
  ns <+: h.serve retries ns n
  := by
  rw [serve]
  split
  · exact List.prefix_rfl
  · exact List.prefix_append _ _

/-- The calls for the first notices come first. -/
theorem serveAll_prefix (hns : ns <+: ns') :
  h.serveAll retries ns <+: h.serveAll retries ns'
  := by
  obtain ⟨rest, rfl⟩ := hns
  induction rest generalizing ns with
  | nil => simp
  | cons n rest ih =>
    rw [List.append_cons]
    refine List.IsPrefix.trans ?_ ih
    rw [serveAll_concat]
    exact prefix_serve

/-- An event that was handled before is passed over. -/
theorem serveAll_of_known (hevent : n.event ≠ "")
    (hbefore : 0 < (h.serveAll retries ns).countP (fun m => m.event == n.event)) :
  h.serveAll retries (ns ++ [n]) = h.serveAll retries ns
  := by
  rw [serveAll_concat, serve, if_pos ⟨hevent, hbefore⟩]

/-- A notice of an event that was not handled before is tried. -/
theorem serveAll_of_new
    (hnew : n.event ≠ "" →
      (h.serveAll retries ns).countP (fun m => m.event == n.event) = 0) :
  h.serveAll retries (ns ++ [n]) = h.serveAll retries ns ++ List.replicate
    (h.tries n ((h.serveAll retries ns).countP (fun m => m.event == n.event)) retries) n
  := by
  rw [serveAll_concat, serve, if_neg]
  rintro ⟨hevent, hbefore⟩
  rw [hnew hevent] at hbefore
  cases hbefore

end Handler

namespace Workshop

variable {s t : Workshop} {capacity : Nat} {plan : DeliveryPlan} {handler : Handler}

/-! ### The only worker -/

/-- How far the first worker has come with the notices that were taken, if it handles them one after
the other; these are the notices taken and those of the calls. -/
inductive Serves (h : Handler) (retries : Nat) :
    Option WorkerPhase → List Notice → List Notice → Prop where
  | free {phase : Option WorkerPhase} {taken : List Notice} (hfree : ∀ p ∈ phase, p.isFree) :
    Serves h retries phase taken (h.serveAll retries taken)
  | holding {n : Notice} {taken : List Notice} :
    Serves h retries (some (.holding n)) (taken ++ [n]) (h.serveAll retries taken)
  | calling {n : Notice} {attempt before finish left : Nat} {taken : List Notice}
      (hbefore : before
        = (h.serveAll retries taken).countP (fun m => m.event == n.event) + attempt)
      (hserve : h.serveAll retries (taken ++ [n])
        = h.serveAll retries taken ++ List.replicate (attempt + h.tries n before left) n)
      (hleft : attempt + left = retries) :
    Serves h retries (some (.calling n attempt (before + 1) finish)) (taken ++ [n])
      (h.serveAll retries taken ++ List.replicate (attempt + 1) n)
  | asleep {n : Notice} {attempt before due left : Nat} {taken : List Notice}
      (hbefore : before
        = (h.serveAll retries taken).countP (fun m => m.event == n.event) + (attempt + 1))
      (hserve : h.serveAll retries (taken ++ [n])
        = h.serveAll retries taken ++ List.replicate (attempt + 1 + h.tries n before left) n)
      (hleft : attempt + 1 + left = retries) :
    Serves h retries (some (.asleep n attempt due)) (taken ++ [n])
      (h.serveAll retries taken ++ List.replicate (attempt + 1) n)

namespace Serves

variable {retries : Nat} {phase : Option WorkerPhase} {taken calls : List Notice}

theorem eq_serveAll (h : Serves handler retries phase taken calls)
    (hfree : ∀ p ∈ phase, p.isFree) :
  calls = handler.serveAll retries taken
  := by
  cases h with
  | free => rfl
  | holding | calling | asleep => cases hfree _ rfl

/-- Nothing is called out of turn. -/
theorem isPrefix (h : Serves handler retries phase taken calls) :
  calls <+: handler.serveAll retries taken
  := by
  have hpartial : ∀ {n taken} {done tries : Nat}, done ≤ tries →
      handler.serveAll retries (taken ++ [n])
        = handler.serveAll retries taken ++ List.replicate tries n →
      handler.serveAll retries taken ++ List.replicate done n
        <+: handler.serveAll retries (taken ++ [n]) := by
    intro n taken done tries hle hserve
    rw [hserve, List.prefix_append_right_inj]
    refine ⟨List.replicate (tries - done) n, ?_⟩
    rw [List.replicate_append_replicate, Nat.add_sub_cancel' hle]
  cases h with
  | free => exact List.prefix_rfl
  | holding => exact Handler.serveAll_prefix (List.prefix_append _ _)
  | @calling n attempt before _ left _ _ hserve =>
    have hpos : 0 < handler.tries n before left := Handler.tries_pos
    exact hpartial (by omega) hserve
  | asleep _ hserve => exact hpartial (Nat.le_add_right _ _) hserve

/-- The place of the next call for a notice is read off the calls. -/
theorem nth_eq {p : Pool} (hcalls : calls = p.calls.map Call.notice) (n : Notice) :
  p.nth n = calls.countP (fun m => m.event == n.event) + 1
  := by
  rw [hcalls, List.countP_map]
  rfl

theorem of_isFree {p : WorkerPhase} (hfree : p.isFree) :
  Serves handler retries (some p) taken (handler.serveAll retries taken)
  := by
  apply free
  intro q hq
  cases hq
  exact hfree

/-- The call that ends was the last for the notice. -/
theorem conclude {n : Notice} {attempt nth finish : Nat}
    (h : Serves handler retries (some (.calling n attempt nth finish)) taken calls)
    (hlast : ¬ (handler.verdict n nth).isFailed ∨ ¬ attempt < retries) {p : WorkerPhase}
    (hfree : p.isFree) :
  Serves handler retries (some p) taken calls
  := by
  cases h with
  | free h => cases h _ rfl
  | @calling n attempt before finish left taken hbefore hserve hleft =>
    have hone : handler.tries n before left = 1 := by
      rcases hlast with hlast | hlast
      · exact Handler.tries_of_not_isFailed hlast
      · obtain rfl : left = 0 := by omega
        rfl
    rw [hone] at hserve
    rw [← hserve]
    exact of_isFree hfree

/-- What the worker does with the notice in its hands. -/
theorem treat {p : Pool} {n : Notice} {old new : WorkerPhase} {change : Case → Case}
    {seen : List String} {begun : List Call}
    (h : Serves p.handler p.plan.retries (some old) taken calls)
    (hcalls : calls = p.calls.map Call.notice)
    (hseen : n.event ≠ "" →
      (n.event ∈ p.seen ↔ 0 < calls.countP (fun m => m.event == n.event)))
    (hup : p.isShutDown = false) (htreats : p.Treats n old new change seen begun) :
  Serves p.handler p.plan.retries (some new) taken (calls ++ begun.map Call.notice)
  := by
  have hnth := nth_eq hcalls n
  cases htreats with
  | skip hevent hmem =>
    rw [List.map_nil, List.append_nil]
    cases h with
    | free h => cases h _ rfl
    | holding =>
      rw [← Handler.serveAll_of_known hevent ((hseen hevent).1 hmem)]
      exact of_isFree rfl
  | begin hnew =>
    cases h with
    | free h => cases h _ rfl
    | holding =>
      rw [hnth]
      apply calling rfl _ (Nat.zero_add _)
      rw [Nat.zero_add]
      apply Handler.serveAll_of_new
      intro hevent
      by_contra hne
      apply hnew n.event (Notice.mem_marks_iff.2 ⟨hevent, rfl⟩)
      exact (hseen hevent).2 (Nat.pos_of_ne_zero hne)
  | reconcile hverdict | crash hverdict =>
    rw [List.map_nil, List.append_nil]
    apply h.conclude (.inl _) rfl
    rw [hverdict]
    nofun
  | exhaust _ hattempt =>
    rw [List.map_nil, List.append_nil]
    exact h.conclude (.inr hattempt) rfl
  | postpone due hverdict hattempt =>
    rw [List.map_nil, List.append_nil]
    cases h with
    | free h => cases h _ rfl
    | @calling n attempt before finish left taken hbefore hserve hleft =>
      obtain ⟨left, rfl⟩ : ∃ k, left = k + 1 := ⟨left - 1, by omega⟩
      have hfailed : (p.handler.verdict n (before + 1)).isFailed := by
        rw [hverdict]
        rfl
      rw [Handler.tries_of_isFailed hfailed, ← Nat.add_assoc] at hserve
      exact asleep (by omega) hserve (by omega)
  | retry =>
    cases h with
    | free h => cases h _ rfl
    | @asleep n attempt before due left taken hbefore hserve hleft =>
      have hplace : p.nth n = before + 1 := by
        rw [hnth, List.countP_append, List.countP_replicate, hbefore]
        simp
      rw [hplace, List.append_assoc, List.map_cons, List.map_nil, ← List.replicate_succ']
      exact calling hbefore hserve hleft
  | abandon hdown =>
    rw [hup] at hdown
    cases hdown

end Serves

/-! ### Runs with one worker -/

/-- An event was seen if the handler was called for it. -/
theorem Known.mem_seen_iff_countP (h : s.Known) {e : String} (he : e ≠ "") :
  e ∈ s.pool.seen ↔ 0 < (s.pool.calls.map Call.notice).countP (fun m => m.event == e)
  := by
  have hlength := s.length_handledFor e
  rw [List.countP_map]
  constructor
  · intro hseen
    obtain ⟨i, c, hc, rfl, hcalls⟩ := h.exists_tried hseen
    rw [h.length_handledFor_eq (List.mem_of_getElem? hc) he hcalls] at hlength
    exact Nat.lt_of_lt_of_eq (Nat.pos_of_ne_zero hcalls) hlength
  · intro hpos
    by_contra hseen
    rw [h.handledFor_eq_nil he hseen] at hlength
    exact Nat.ne_of_lt hpos hlength

/-- Where there is one worker at most, it is the first. -/
theorem Staffed.eq_zero (h : s.Staffed) (hone : s.pool.workers.length ≤ 1) {w : Nat}
    {phase : WorkerPhase} (hw : s.pool.workers.get? w = some phase) :
  w = 0
  := by
  have hmem : w ∈ s.pool.workers.map Prod.fst :=
    List.mem_map_of_mem (f := Prod.fst) (Keyed.mem_of_get? hw)
  rw [h.numbers, List.mem_range] at hmem
  omega

/-- One move of a workshop with one worker. -/
theorem Serves.step (hstaffed : s.Staffed) (hknown : s.Known) (hstep : s.Step t)
    (hone : t.pool.workers.length ≤ 1) (hup : t.pool.isShutDown = false)
    (h : Serves s.pool.handler s.pool.plan.retries (s.pool.workers.get? 0)
      (s.cases.map Case.notice) (s.pool.calls.map Call.notice)) :
  Serves s.pool.handler s.pool.plan.retries (t.pool.workers.get? 0)
    (t.cases.map Case.notice) (t.pool.calls.map Call.notice)
  := by
  obtain ⟨hlength, hdown⟩ := hstep.grows
  have hfirst : ∀ {w phase}, s.pool.workers.get? w = some phase → w = 0 := fun hw =>
    hstaffed.eq_zero (hlength.trans hone) hw
  -- A worker without a notice in its hands.
  have hfree : ∀ {w old}, s.pool.workers.get? w = some old → old.isFree →
      s.pool.calls.map Call.notice
        = s.pool.handler.serveAll s.pool.plan.retries (s.cases.map Case.notice) := by
    intro w old hw hold
    obtain rfl := hfirst hw
    apply h.eq_serveAll
    rw [hw]
    intro p hp
    cases hp
    exact hold
  have hphase : ∀ {w old} new, s.pool.workers.get? w = some old →
      (s.pool.setPhase w new).workers.get? 0 = some new := by
    intro w old new hw
    obtain rfl := hfirst hw
    rw [Pool.setPhase, Keyed.get?_modify hw, if_pos rfl]
  cases hstep with
  | outside | confirm | expire | stop | pass => exact h
  | shutDown => cases hup
  | ask hw =>
    show Serves _ _ ((s.pool.setPhase _ _).workers.get? 0) _ (s.pool.calls.map Call.notice)
    rw [hphase _ hw, hfree hw rfl]
    exact .of_isFree rfl
  | take htakers =>
    have hw := hstaffed.get?_of_takers htakers
    show Serves _ _ ((s.pool.setPhase _ _).workers.get? 0) _ (s.pool.calls.map Call.notice)
    rw [hphase _ hw, hfree hw rfl, List.map_append]
    exact .holding
  | leave htakers =>
    have hw := hstaffed.get?_of_takers htakers
    show Serves _ _ ((s.pool.setPhase _ _).workers.get? 0) _ (s.pool.calls.map Call.notice)
    rw [hphase _ hw, hfree hw rfl]
    exact .of_isFree rfl
  | treat hw htreats hpool =>
    obtain rfl := hfirst hw
    rw [hw] at h
    rw [hpool.get? hw, if_pos rfl, hpool.calls, List.map_append,
      Case.map_amend fun c => (htreats.keeps c).2]
    exact h.treat rfl hknown.mem_seen_iff_countP (hdown hup) htreats
  | start =>
    rcases s.pool.get?_start 0 with heq | ⟨hnone, hidle, -⟩
    · rw [heq]
      exact h
    · rw [hnone] at h
      rw [hidle]
      have hnobody : ∀ p, (none : Option WorkerPhase) = some p → p.isFree := by
        intro p hp
        cases hp
      have heq := h.eq_serveAll hnobody
      show Serves _ _ _ _ (s.pool.calls.map Call.notice)
      rw [heq]
      exact .of_isFree rfl

/-- A single worker handles the notices that were taken one after the other. -/
theorem Runs.serves (h : (Workshop.opened capacity plan handler).Runs s)
    (hone : s.pool.workers.length ≤ 1) (hup : s.pool.isShutDown = false) :
  Serves s.pool.handler s.pool.plan.retries (s.pool.workers.get? 0)
    (s.cases.map Case.notice) (s.pool.calls.map Call.notice)
  := by
  induction h with
  | refl => exact .free nofun
  | @tail t u hruns hleads ih =>
    obtain ⟨m, hm⟩ := hleads
    have hstep := step_of_move hm
    obtain ⟨hlength, hdown⟩ := hstep.grows
    obtain ⟨hplan, hhandler⟩ := hstep.settings
    rw [hplan, hhandler]
    exact Serves.step (Runs.staffed hruns) (Runs.known hruns) hstep hone hup
      (ih (hlength.trans hone) (hdown hup))

end Workshop

end Reconciliation
