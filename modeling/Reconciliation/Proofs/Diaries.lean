import Reconciliation.Proofs.Timely

/-!
# When calls begin and end

A `Chronicle` keeps a `Diary` for each notice that was taken from the bus of a workshop: when it was
taken, and when the calls for it have begun and ended.  It only looks on
(`Chronicle.exists_of_timelyRuns`).  As long as no worker is late, the first call begins when the
notice is taken, and every other one when the delay after the end of the one before is over
(`Diary.Agrees`).
-/

namespace Reconciliation

/-- When a notice was taken, and when the calls for it have begun and ended. -/
structure Diary where
  taken : Nat
  begun : List Nat := []
  ended : List Nat := []
  deriving DecidableEq, Repr

namespace Diary

/-- The diary of a case once something has happened with it. -/
def note (d : Diary) (now : Nat) (before after : Case) : Diary :=
  { d with
    begun := d.begun ++ List.replicate (after.calls - before.calls) now
    ended := d.ended ++ List.replicate (after.verdicts.length - before.verdicts.length) now }

/-- The diaries once something has happened with the cases, and diaries for new cases. -/
def noteAll (now : Nat) : List Case → List Diary → List Case → List Diary
  | before :: olds, d :: diaries, after :: news =>
    d.note now before after :: noteAll now olds diaries news
  | _, _, news => news.map fun _ => { taken := now }

/-- The calls of the handler as the diaries have them: what each was for, and when it began. -/
def calls (cases : List Case) (diaries : List Diary) : List (Notice × Nat) :=
  (cases.zip diaries).flatMap fun entry => entry.2.begun.map fun time => (entry.1.notice, time)

variable {now : Nat} {cases news olds : List Case} {diaries : List Diary} {c : Case}

@[simp]
theorem note_self (d : Diary) (now : Nat) (c : Case) :
  d.note now c c = d
  := by
  simp [note]

theorem note_called (d : Diary) (now : Nat) (c : Case) :
  d.note now c c.called = { d with begun := d.begun ++ [now] }
  := by
  simp [note, Case.called]

theorem note_judged (d : Diary) (now : Nat) (c : Case) (verdict : Verdict) (fate : Option Fate) :
  d.note now c (c.judged verdict fate) = { d with ended := d.ended ++ [now] }
  := by
  simp [note, Case.judged]

theorem note_closed (d : Diary) (now : Nat) (c : Case) (fate : Fate) :
  d.note now c (c.closed fate) = d
  := by
  simp [note, Case.closed]

theorem noteAll_nil (diaries : List Diary) (news : List Case) :
  noteAll now [] diaries news = news.map fun _ => { taken := now }
  := by
  cases news with
  | nil => rfl
  | cons c news => rfl

theorem noteAll_append {olds' news' : List Case} {diaries' : List Diary}
    (hdiaries : diaries.length = olds.length) (hnews : news.length = olds.length) :
  noteAll now (olds ++ olds') (diaries ++ diaries') (news ++ news')
    = noteAll now olds diaries news ++ noteAll now olds' diaries' news'
  := by
  induction olds generalizing diaries news with
  | nil =>
    rw [List.eq_nil_of_length_eq_zero hdiaries, List.eq_nil_of_length_eq_zero hnews]
    rfl
  | cons before olds ih =>
    obtain ⟨d, diaries, rfl⟩ := List.exists_cons_of_length_eq_add_one hdiaries
    obtain ⟨after, news, rfl⟩ := List.exists_cons_of_length_eq_add_one hnews
    simp only [List.cons_append, noteAll]
    rw [ih (Nat.succ.inj hdiaries) (Nat.succ.inj hnews)]

theorem noteAll_self (hdiaries : diaries.length = cases.length) :
  noteAll now cases diaries cases = diaries
  := by
  induction cases generalizing diaries with
  | nil =>
    rw [List.eq_nil_of_length_eq_zero hdiaries]
    rfl
  | cons c cases ih =>
    obtain ⟨d, diaries, rfl⟩ := List.exists_cons_of_length_eq_add_one hdiaries
    rw [noteAll, note_self, ih (Nat.succ.inj hdiaries)]

theorem noteAll_concat (hdiaries : diaries.length = cases.length) (c : Case) :
  noteAll now cases diaries (cases ++ [c]) = diaries ++ [{ taken := now }]
  := by
  have happend : noteAll now (cases ++ []) (diaries ++ []) (cases ++ [c]) = _ :=
    noteAll_append hdiaries rfl
  rw [List.append_nil, List.append_nil, noteAll_self hdiaries] at happend
  exact happend

theorem length_noteAll (cases : List Case) (diaries : List Diary) (news : List Case) :
  (noteAll now cases diaries news).length = news.length
  := by
  fun_induction noteAll with
  | case1 before olds d diaries after news ih => rw [List.length_cons, List.length_cons, ih]
  | case2 => exact List.length_map _

/-- The diary of a case that was there before. -/
theorem getElem?_noteAll {i : Nat} {before after : Case} {d : Diary}
    (hbefore : olds[i]? = some before) (hd : diaries[i]? = some d)
    (hafter : news[i]? = some after) :
  (noteAll now olds diaries news)[i]? = some (d.note now before after)
  := by
  induction i generalizing olds diaries news with
  | zero =>
    cases olds with
    | nil => cases hbefore
    | cons c olds =>
      cases diaries with
      | nil => cases hd
      | cons d diaries =>
        cases news with
        | nil => cases hafter
        | cons after news =>
          cases hbefore
          cases hd
          cases hafter
          rfl
  | succ i ih =>
    cases olds with
    | nil => cases hbefore
    | cons c olds =>
      cases diaries with
      | nil => cases hd
      | cons d diaries =>
        cases news with
        | nil => cases hafter
        | cons after news => exact ih hbefore hd hafter

/-- The diary of a new case. -/
theorem getElem?_noteAll_of_none {i : Nat} {after : Case} (hdiaries : diaries.length = olds.length)
    (hbefore : olds[i]? = none) (hafter : news[i]? = some after) :
  (noteAll now olds diaries news)[i]? = some { taken := now }
  := by
  induction i generalizing olds diaries news with
  | zero =>
    cases olds with
    | nil =>
      cases news with
      | nil => cases hafter
      | cons after news => rfl
    | cons c olds => cases hbefore
  | succ i ih =>
    cases news with
    | nil => cases hafter
    | cons after' news =>
      cases olds with
      | nil =>
        have hafter : news[i]? = some after := hafter
        rw [noteAll_nil, List.getElem?_map, List.getElem?_cons_succ, hafter]
        rfl
      | cons c olds =>
        obtain ⟨d, diaries, rfl⟩ := List.exists_cons_of_length_eq_add_one hdiaries
        rw [noteAll, List.getElem?_cons_succ]
        exact ih (Nat.succ.inj hdiaries) hbefore hafter

end Diary

/-- A workshop, and a diary for each of its cases. -/
structure Chronicle where
  shop : Workshop
  diaries : List Diary := []

namespace Chronicle

open Workshop

/-- A chronicle that begins with a new workshop. -/
def opened (capacity : Nat) (plan : DeliveryPlan) (handler : Handler) : Chronicle :=
  { shop := .opened capacity plan handler }

/-- The chronicle after a move of the workshop. -/
def move (s : Chronicle) (m : Move) : Option Chronicle :=
  (s.shop.move m).map fun shop =>
    { shop, diaries := Diary.noteAll s.shop.pool.now s.shop.cases s.diaries shop.cases }

/-- A move leads from one chronicle to the other, and no worker is late. -/
def TimelyLeads (s t : Chronicle) : Prop :=
  ∃ m, s.shop.IsTimely m ∧ s.move m = some t

/-- Moves lead from one chronicle to the other, and no worker is late. -/
def TimelyRuns : Chronicle → Chronicle → Prop :=
  Relation.ReflTransGen TimelyLeads

variable {s t : Chronicle} {capacity : Nat} {plan : DeliveryPlan} {handler : Handler}

theorem move_eq_some {m : Move} (h : s.move m = some t) :
  s.shop.move m = some t.shop ∧
    t.diaries = Diary.noteAll s.shop.pool.now s.shop.cases s.diaries t.shop.cases
  := by
  obtain ⟨shop, hm, rfl⟩ := Option.map_eq_some_iff.1 h
  exact ⟨hm, rfl⟩

theorem TimelyRuns.shop (h : s.TimelyRuns t) :
  s.shop.TimelyRuns t.shop
  := by
  induction h with
  | refl => exact .refl
  | tail _ hleads ih =>
    obtain ⟨m, htimely, hm⟩ := hleads
    exact ih.tail ⟨m, htimely, (move_eq_some hm).1⟩

/-- Keeping diaries prevents no move. -/
theorem exists_of_timelyRuns {shop : Workshop} (h : s.shop.TimelyRuns shop) :
  ∃ t, s.TimelyRuns t ∧ t.shop = shop
  := by
  induction h with
  | refl => exact ⟨s, .refl, rfl⟩
  | @tail _ u _ hleads ih =>
    obtain ⟨t, hruns, rfl⟩ := ih
    obtain ⟨m, htimely, hm⟩ := hleads
    have hmove : t.move m = some
        { shop := u, diaries := Diary.noteAll t.shop.pool.now t.shop.cases t.diaries u.cases } := by
      rw [move, hm]
      rfl
    exact ⟨_, hruns.tail ⟨m, htimely, hmove⟩, rfl⟩

/-- The chronicle after a move, if the move is possible and no worker is late. -/
def timelyMove (s : Chronicle) (m : Move) : Option Chronicle :=
  (s.shop.timelyMove m).bind fun _ => s.move m

/-- Moves that are possible one after the other, and by which no worker is late, make a run. -/
theorem timelyRuns_of_isSome {ms : List Move} (h : (ms.foldlM timelyMove s).isSome) :
  s.TimelyRuns ((ms.foldlM timelyMove s).getD s)
  := by
  refine Relation.ReflTransGen.mono ?_ _ _ (reflTransGen_of_isSome h)
  rintro _ _ ⟨m, hm⟩
  obtain ⟨shop, htimely, hmove⟩ := Option.bind_eq_some_iff.1 hm
  exact ⟨m, (timelyMove_eq_some htimely).1, hmove⟩

end Chronicle

/-! ### Diaries of timely workers -/

/-- What a worker calls the handler for is what its case is called for. -/
theorem Pool.Treats.map_calls {p : Pool} {c : Case} {old new : WorkerPhase}
    {change : Case → Case} {seen : List String} {calls : List Call}
    (h : p.Treats c.notice old new change seen calls) :
  calls.map (fun call => (call.notice, call.time))
    = (List.replicate ((change c).calls - c.calls) p.now).map fun time => (c.notice, time)
  := by
  cases h with
  | begin | retry => simp [Case.called]
  | skip | abandon => simp [Case.closed]
  | reconcile | postpone | exhaust | crash => simp [Case.judged]

/-- What a diary says about the past of a case as long as no worker is late: the first call begins
when the notice is taken, and each other one when the delay after the call before is over. -/
structure Diary.Tells (delay : Nat → Duration) (c : Case) (d : Diary) : Prop where
  begun : d.begun.length = c.calls
  ended : d.ended.length = c.verdicts.length
  first : ∀ time, d.begun[0]? = some time → time = d.taken
  later : ∀ (j finish time : Nat), d.ended[j]? = some finish → d.begun[j + 1]? = some time →
    time = finish + (delay j).toMillisCeil

/-- What a diary says about a case while its worker may still go on with it: a notice that was just
taken is not kept waiting, and a worker that sleeps will not oversleep. -/
structure Diary.Agrees (p : Pool) (c : Case) (d : Diary) : Prop extends d.Tells p.delay c where
  holding : c.fate = none → ∀ n, p.workers.get? c.worker = some (.holding n) → p.now = d.taken
  asleep : c.fate = none → ∀ n attempt due,
    p.workers.get? c.worker = some (.asleep n attempt due) →
    p.now ≤ due ∧ ∃ finish, d.ended[attempt]? = some finish ∧
      due = finish + (p.delay attempt).toMillisCeil

namespace Diary

variable {delay : Nat → Duration} {c : Case} {d : Diary} {now : Nat}

/-- Another call begins. -/
theorem Tells.called (h : d.Tells delay c) (hfirst : c.calls = 0 → now = d.taken)
    (hlater : ∀ j finish, c.calls = j + 1 → d.ended[j]? = some finish →
      now = finish + (delay j).toMillisCeil) :
  Tells delay c.called { d with begun := d.begun ++ [now] }
  where
    begun := by
      rw [List.length_append, h.begun]
      rfl
    ended := h.ended
    first time htime := by
      by_cases hcalls : c.calls = 0
      · rw [List.eq_nil_of_length_eq_zero (h.begun.trans hcalls)] at htime
        cases htime
        exact hfirst hcalls
      · rw [List.getElem?_append_left (by rw [h.begun]; exact Nat.pos_of_ne_zero hcalls)] at htime
        exact h.first time htime
    later j finish time hfinish htime := by
      by_cases hj : j + 1 < d.begun.length
      · rw [List.getElem?_append_left hj] at htime
        exact h.later j finish time hfinish htime
      · rw [List.getElem?_append_right (Nat.le_of_not_lt hj)] at htime
        obtain ⟨hlast, rfl⟩ := List.getElem?_eq_some_iff.1 htime
        rw [List.length_singleton] at hlast
        rw [List.getElem_singleton]
        apply hlater j finish _ hfinish
        rw [← h.begun]
        omega

/-- The last call has ended. -/
theorem Tells.judged (h : d.Tells delay c) (hcalls : c.calls = c.verdicts.length + 1)
    (verdict : Verdict) (fate : Option Fate) :
  Tells delay (c.judged verdict fate) { d with ended := d.ended ++ [now] }
  where
    begun := h.begun
    ended := by
      rw [List.length_append, h.ended, Case.judged, List.length_append]
      rfl
    first := h.first
    later j finish time hfinish htime := by
      have hj := (List.getElem?_eq_some_iff.1 htime).1
      rw [h.begun, hcalls, ← h.ended] at hj
      rw [List.getElem?_append_left (Nat.lt_of_succ_lt_succ hj)] at hfinish
      exact h.later j finish time hfinish htime

variable {s t : Workshop} {c' : Case}

/-- A diary that was just begun. -/
theorem agrees_start {p : Pool} {w : Nat} {n : Notice} (hw : p.workers.get? w = some (.holding n)) :
  Agrees p { worker := w, notice := n } { taken := p.now }
  where
    begun := rfl
    ended := rfl
    first := nofun
    later := nofun
    holding _ _ _ := rfl
    asleep _ n attempt due hw' := by
      cases hw.symm.trans hw'

/-- What a worker does with the notice in its hands. -/
theorem Agrees.tells_treat {p : Pool} {w : Nat} {n : Notice} {old new : WorkerPhase}
    {change : Case → Case} {seen : List String} {calls : List Call} (h : d.Agrees p c)
    (hworker : c.worker = w) (hfate : c.fate = none) (hw : p.workers.get? w = some old)
    (hdesk : Desk p.plan.retries w (some old) [c]) (htreats : p.Treats n old new change seen calls)
    (hpaces : p.Paces old new) :
  (d.note p.now c (change c)).Tells p.delay (change c)
  := by
  rw [← hworker] at hw
  cases htreats with
  | skip | abandon =>
    rw [note_closed]
    exact ⟨h.begun, h.ended, h.first, h.later⟩
  | reconcile | postpone | exhaust | crash =>
    have hcalls : c.calls = c.verdicts.length + 1 := by
      cases hdesk with
      | calling _ hlength => rw [hlength]
    rw [note_judged]
    exact h.judged hcalls _ _
  | begin =>
    have hcalls : c.calls = 0 := by
      cases hdesk with
      | holding => rfl
    rw [note_called]
    apply h.called
    · exact fun _ => h.holding hfate n hw
    · intro j finish hj
      rw [hcalls] at hj
      cases hj
  | retry =>
    have hcalls := hdesk.calls_of_asleep
    rw [note_called]
    apply h.called
    · intro hzero
      rw [hcalls] at hzero
      cases hzero
    · intro j finish hj hfinish
      obtain rfl := Nat.succ.inj (hcalls.symm.trans hj)
      obtain ⟨hle, finish', hfinish', hdue⟩ := h.asleep hfate n _ _ hw
      cases hfinish.symm.trans hfinish'
      have hrepeated := hpaces.repeated rfl rfl
      omega

/-- One move of a workshop in which no worker is late. -/
theorem Agrees.step (h : d.Agrees s.pool c) (hs : s.Staffed) {m : Workshop.Move}
    (hm : s.IsTimely m) (hmove : s.move m = some t) (hfollows : s.Follows t c c') :
  (d.note s.pool.now c c').Agrees t.pool c'
  := by
  have hdelay : t.pool.delay = s.pool.delay := by
    funext attempt
    rw [Pool.delay, (Workshop.step_of_move hmove).settings.1, Pool.delay]
  cases hfollows with
  | rests hphase =>
    have htime := Workshop.time_of_move hmove hm hs
    rw [note_self]
    refine ⟨hdelay ▸ h.toTells, fun hfate n hw => ?_, fun hfate n attempt due hw => ?_⟩
    · rw [hphase hfate] at hw
      rcases htime with hnow | ⟨hholding, -⟩
      · exact hnow.trans (h.holding hfate n hw)
      · exact absurd hw (hholding _ n)
    · rw [hphase hfate] at hw
      obtain ⟨hle, hdue⟩ := h.asleep hfate n attempt due hw
      rw [hdelay]
      refine ⟨?_, hdue⟩
      rcases htime with hnow | ⟨-, hasleep⟩
      · rw [hnow]
        exact hle
      · exact (hasleep _ n attempt due hw).2
  | treat hworker _ hfate hw hw' hdesk htreats hpaces hnow =>
    have htells := h.tells_treat hworker hfate hw hdesk htreats hpaces
    refine ⟨hdelay ▸ htells, fun _ n hw₁ => ?_, fun _ n attempt due hw₁ => ?_⟩
    · rw [(htreats.keeps c).1, hworker] at hw₁
      cases hw'.symm.trans hw₁
      cases htreats
    · rw [(htreats.keeps c).1, hworker] at hw₁
      cases hw'.symm.trans hw₁
      cases htreats with
      | postpone due hverdict hattempt =>
        have hdue := hpaces.postponed rfl rfl
        rw [hnow, hdelay, note_judged]
        refine ⟨by omega, s.pool.now, ?_, hdue⟩
        rw [← hdesk.length_of_calling, ← h.ended]
        exact List.getElem?_concat_length

end Diary

namespace Chronicle

variable {s t : Chronicle} {capacity : Nat} {plan : DeliveryPlan} {handler : Handler}

/-- There is one diary for each case and it agrees with it, and the diaries tell of the calls of the
handler. -/
structure Faithful (s : Chronicle) : Prop where
  length : s.diaries.length = s.shop.cases.length
  agrees : ∀ (i : Nat) (c : Case) (d : Diary), s.shop.cases[i]? = some c → s.diaries[i]? = some d →
    d.Agrees s.shop.pool c
  calls : (s.shop.pool.calls.map fun call => (call.notice, call.time)).Perm
    (Diary.calls s.shop.cases s.diaries)

namespace Faithful

theorem opened :
  (Chronicle.opened capacity plan handler).Faithful
  where
    length := rfl
    agrees := nofun
    calls := .nil

/-- What a worker does with its notice adds the calls that it begins. -/
theorem calls_amend (now : Nat) {w : Nat} {cases : List Case} {diaries : List Diary} {c : Case}
    {change : Case → Case} (hdiaries : diaries.length = cases.length)
    (hdesk : cases.filter (·.isWith w) = [c]) (hnotice : (change c).notice = c.notice) :
  (Diary.calls (Case.amend cases w change)
      (Diary.noteAll now cases diaries (Case.amend cases w change))).Perm
    (Diary.calls cases diaries ++
      (List.replicate ((change c).calls - c.calls) now).map fun time => (c.notice, time))
  := by
  obtain ⟨before, after, rfl, -, hamend⟩ := Case.exists_amend hdesk
  have hsplit : ∃ first d last, diaries = first ++ d :: last ∧ first.length = before.length ∧
      last.length = after.length := by
    rw [List.length_append, List.length_cons] at hdiaries
    have hlt : before.length < diaries.length := by omega
    refine ⟨diaries.take before.length, diaries[before.length], diaries.drop (before.length + 1),
      ?_, ?_, ?_⟩
    · rw [← List.drop_eq_getElem_cons hlt, List.take_append_drop]
    · rw [List.length_take]
      omega
    · rw [List.length_drop]
      omega
  obtain ⟨first, d, last, rfl, hfirst, hlast⟩ := hsplit
  rw [hamend, Diary.noteAll_append hfirst rfl, Diary.noteAll_self hfirst, Diary.noteAll,
    Diary.noteAll_self hlast, Diary.calls, Diary.calls, List.zip_append hfirst.symm,
    List.zip_append hfirst.symm, List.zip_cons_cons, List.zip_cons_cons, List.flatMap_append,
    List.flatMap_append, List.flatMap_cons, List.flatMap_cons, hnotice, Diary.note,
    List.map_append, List.append_assoc, List.append_assoc, List.append_assoc]
  exact (List.perm_append_comm.append_left _).append_left _

theorem step (h : s.Faithful) (hs : s.shop.IsOrderly) {m : Workshop.Move}
    (hm : s.shop.IsTimely m) (hmove : s.move m = some t) :
  t.Faithful
  := by
  obtain ⟨hshop, hdiaries⟩ := move_eq_some hmove
  constructor
  case length => rw [hdiaries, Diary.length_noteAll]
  case agrees =>
    intro i c d hc hd
    rw [hdiaries] at hd
    cases hold : s.shop.cases[i]? with
    | none =>
      obtain ⟨w, n, rfl, hw, hnow⟩ := Workshop.appears_of_move hs hshop hc hold
      rw [Diary.getElem?_noteAll_of_none h.length hold hc] at hd
      cases hd
      rw [← hnow]
      exact Diary.agrees_start hw
    | some c₀ =>
      have hi : i < s.diaries.length := by
        rw [h.length]
        exact (List.getElem?_eq_some_iff.1 hold).1
      have hd₀ := List.getElem?_eq_getElem hi
      obtain ⟨c', hc', hfollows⟩ := Workshop.follows_of_move hs hshop hold
      cases hc.symm.trans hc'
      rw [Diary.getElem?_noteAll hold hd₀ hc] at hd
      cases hd
      exact (h.agrees i c₀ _ hold hd₀).step hs.1 hm hshop hfollows
  case calls =>
    rw [hdiaries]
    generalize t.shop = shop at hshop
    have hself : Diary.noteAll s.shop.pool.now s.shop.cases s.diaries s.shop.cases = s.diaries :=
      Diary.noteAll_self h.length
    cases Workshop.step_of_move hshop with
    | outside | ask | leave | confirm | expire | start | shutDown | stop | pass =>
      rw [hself]
      exact h.calls
    | take htakers =>
      have hcalls := h.calls
      dsimp only
      rw [Diary.noteAll_concat h.length, Diary.calls, List.zip_append h.length.symm,
        List.flatMap_append]
      simpa [Diary.calls, Pool.setPhase] using hcalls
    | @treat w n old new change seen calls pool hw htreats hpool =>
      obtain ⟨c, hdesk, -, rfl, -⟩ := hs.2.exists_case hw htreats
      have hamend := calls_amend (s.shop.pool.now) h.length hdesk (htreats.keeps c).2
      dsimp only
      rw [hpool.calls, List.map_append, htreats.map_calls]
      exact (h.calls.append_right _).trans hamend.symm

end Faithful

end Chronicle

end Reconciliation
