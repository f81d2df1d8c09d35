import Reconciliation.Proofs.Fifo

/-!
# Nobody waits in vain

Those who wait at a bus take their turns in any order, each turn leaves fewer of them, and so they
come to a state in which nobody can go on (`Exchange.exists_settled`).  In such a state a publisher
waits only for room, and a taker only for a notice that may still come.  On a closed bus for which
no publisher waits, the answers to those who wait are already certain: `Exchange.prospect` lists
them.
-/

namespace Reconciliation.Exchange

variable {s t : Exchange} {n : Nat} {p : Party}

/-- One of those who wait goes on. -/
def Serves (s t : Exchange) : Prop :=
  ∃ p ∈ s.bus.waiting, ∃ a ∈ Bus.options p, s.move a = some t

/-- Some of those who wait go on, as often as they like. -/
def Settles : Exchange → Exchange → Prop :=
  Relation.ReflTransGen Serves

/-- Nobody who waits can go on. -/
def IsSettled (s : Exchange) : Prop :=
  ∀ t, ¬ s.Serves t

theorem Sound.turn_of_serves (h : s.Sound) (hserves : s.Serves t) :
  s.Turn t
  := by
  obtain ⟨p, -, a, ha, hmove⟩ := hserves
  exact h.turn_of_move ha hmove

theorem Serves.runs (h : s.Serves t) :
  s.Runs t
  := by
  obtain ⟨p, -, a, -, hmove⟩ := h
  exact .single ⟨a, hmove⟩

/-! ### Who can go on -/

/-- What the bus has an answer to, one who waits may do. -/
theorem serves_of_apply {a : Bus.Action} {result : Bus × Option Bus.Reply}
    (hp : p ∈ s.bus.waiting) (ha : a ∈ Bus.options p) (happly : s.bus.apply a = some result) :
  s.Serves (s.after a result.1 result.2)
  := by
  have hcaller : a.caller? = none := by
    simp only [Bus.options, List.mem_cons, List.not_mem_nil, or_false] at ha
    rcases ha with rfl | rfl | rfl | rfl
    all_goals rfl
  refine ⟨p, hp, a, ha, ?_⟩
  rw [move_of_caller? hcaller, happly]
  rfl

/-- The first publisher goes on if there is room. -/
theorem Aligned.serves_of_room (h : s.Aligned) {c : Publication} {waiting : List Publication}
    (hwaiting : s.waiting = c :: waiting) (hroom : s.bus.queue.length < s.bus.capacity) :
  ∃ t, s.Serves t
  := by
  have hoffers : s.bus.offers = c.offer :: waiting.map Publication.offer := by
    rw [← h.offers, hwaiting]
    rfl
  have hp : c.offer.publisher ∈ s.bus.waiting := by
    rw [Bus.waiting, hoffers]
    exact List.mem_cons_self
  have happly : s.bus.apply (.accept c.offer.publisher)
      = some ({ s.bus with
          offers := waiting.map Publication.offer
          queue := s.bus.queue ++ [c.offer.notice] }, some .published) := by
    rw [Bus.apply, Bus.accept?, hoffers]
    simp only
    rw [if_pos ⟨trivial, hroom⟩]
    rfl
  exact ⟨_, serves_of_apply hp (by simp [Bus.options]) happly⟩

/-- A publisher goes on if its token has fired, wherever it stands. -/
theorem Aligned.serves_of_fired (h : s.Aligned) {c : Publication} (hc : c ∈ s.waiting)
    (hfired : c.offer.token ∈ s.bus.fired) :
  ∃ t, s.Serves t
  := by
  have ho : c.offer ∈ s.bus.offers := by
    rw [← h.offers]
    exact List.mem_map_of_mem hc
  obtain ⟨before, d, after, hwaiting, hd, hbefore⟩ := h.exists_split ho
  have hp : c.offer.publisher ∈ s.bus.waiting :=
    List.mem_append_left _ (List.mem_map_of_mem ho)
  have hfind : s.bus.offers.find? (fun o => o.publisher == c.offer.publisher) = some c.offer := by
    obtain ⟨hcall, -⟩ := callOf_of_waiting hwaiting (beq_of_eq (congrArg Offer.publisher hd))
      hbefore
    rw [← h.offers, List.find?_map]
    exact (congrArg _ (Option.toList_eq_singleton_iff.1 hcall)).trans (congrArg some hd)
  have happly : ∃ bus, s.bus.apply (.withdraw c.offer.publisher) = some (bus, some .canceled) := by
    rw [Bus.apply, Bus.withdraw?, hfind]
    simp only
    rw [if_pos hfired]
    exact ⟨_, rfl⟩
  obtain ⟨bus, happly⟩ := happly
  exact ⟨_, serves_of_apply hp (by simp [Bus.options]) happly⟩

/-- The first taker goes on if there is a notice. -/
theorem serves_of_notice {takers : List Party} {notice : Notice} {queue : List Notice}
    (htakers : s.bus.takers = p :: takers) (hqueue : s.bus.queue = notice :: queue) :
  ∃ t, s.Serves t
  := by
  have hp : p ∈ s.bus.waiting := by
    rw [Bus.waiting, htakers]
    exact List.mem_append_right _ List.mem_cons_self
  have happly : s.bus.apply (.take p)
      = some ({ s.bus with takers, queue }, some (.delivered notice)) := by
    rw [Bus.apply, Bus.take?, htakers, hqueue]
    simp only
    rw [if_pos trivial]
    rfl
  exact ⟨_, serves_of_apply hp (by simp [Bus.options]) happly⟩

/-- The first taker goes on if the bus has ended. -/
theorem serves_of_hasEnded {takers : List Party} (htakers : s.bus.takers = p :: takers)
    (hended : s.bus.hasEnded) :
  ∃ t, s.Serves t
  := by
  have hp : p ∈ s.bus.waiting := by
    rw [Bus.waiting, htakers]
    exact List.mem_append_right _ List.mem_cons_self
  have happly : s.bus.apply (.finish p) = some ({ s.bus with takers }, some .ended) := by
    rw [Bus.apply, Bus.finish?, htakers]
    simp only
    rw [if_pos ⟨trivial, hended⟩]
    rfl
  exact ⟨_, serves_of_apply hp (by simp [Bus.options]) happly⟩

/-! ### How it ends -/

/-- Every turn leaves fewer who wait. -/
theorem Sound.work_lt (h : s.Sound) (hserves : s.Serves t) :
  t.bus.work < s.bus.work
  := by
  have hlength : s.bus.offers.length = s.waiting.length := by
    rw [← h.offers, List.length_map]
  cases h.turn_of_serves hserves with
  | accept c waiting hwaiting =>
    show (waiting.map _).length + s.bus.takers.length < s.bus.offers.length + s.bus.takers.length
    rw [hlength, hwaiting, List.length_cons, List.length_map]
    omega
  | withdraw c before after hwaiting =>
    show ((before ++ after).map _).length + s.bus.takers.length
      < s.bus.offers.length + s.bus.takers.length
    rw [hlength, hwaiting, List.length_map, List.length_append, List.length_append,
      List.length_cons]
    omega
  | take _ takers _ _ htakers | finish _ takers htakers =>
    show s.bus.offers.length + takers.length < s.bus.offers.length + s.bus.takers.length
    rw [htakers, List.length_cons]
    omega

/-- Those who wait come to a state in which nobody can go on. -/
theorem Sound.exists_settled (h : s.Sound) :
  ∃ t, s.Settles t ∧ t.IsSettled
  := exists_rest (fun t => t.bus.work) (fun _ _ ht hserves => ht.turn (ht.turn_of_serves hserves))
    (fun _ _ ht => ht.work_lt) h

/-- In the end a publisher waits only for room. -/
theorem Sound.full_of_settled (h : s.Sound) (hsettled : s.IsSettled) {c : Publication}
    (hc : c ∈ s.waiting) :
  s.bus.queue.length = s.bus.capacity ∧ c.offer.token ∉ s.bus.fired
  := by
  constructor
  · obtain ⟨d, waiting, hwaiting⟩ := List.exists_cons_of_ne_nil (List.ne_nil_of_mem hc)
    refine Nat.le_antisymm h.bound (Nat.le_of_not_lt fun hroom => ?_)
    obtain ⟨t, ht⟩ := h.serves_of_room hwaiting hroom
    exact hsettled t ht
  · intro hfired
    obtain ⟨t, ht⟩ := h.serves_of_fired hc hfired
    exact hsettled t ht

/-- In the end a taker waits only for a notice that may still come. -/
theorem Sound.open_of_settled (h : s.Sound) (hroom : 0 < s.bus.capacity) (hsettled : s.IsSettled)
    (hp : p ∈ s.bus.takers) :
  s.bus.queue = [] ∧ s.isClosed = false
  := by
  obtain ⟨q, takers, htakers⟩ := List.exists_cons_of_ne_nil (List.ne_nil_of_mem hp)
  have hqueue : s.bus.queue = [] := by
    rw [List.eq_nil_iff_forall_not_mem]
    intro notice hnotice
    obtain ⟨m, queue, hqueue⟩ := List.exists_cons_of_ne_nil (List.ne_nil_of_mem hnotice)
    obtain ⟨t, ht⟩ := serves_of_notice htakers hqueue
    exact hsettled t ht
  refine ⟨hqueue, ?_⟩
  rw [← Bool.not_eq_true]
  intro hclosed
  have hwaiting : s.waiting = [] := by
    rw [List.eq_nil_iff_forall_not_mem]
    intro c hc
    have hfull := (h.full_of_settled hsettled hc).1
    rw [hqueue, List.length_nil] at hfull
    omega
  have hended : s.bus.hasEnded := by
    rw [Bus.hasEnded_iff, h.isOpen, hclosed, ← h.offers, hwaiting]
    exact ⟨rfl, rfl, hqueue⟩
  obtain ⟨t, ht⟩ := serves_of_hasEnded htakers hended
  exact hsettled t ht

/-! ### The end of a closed bus -/

/-- A bus that has ended stays so, and accepts nothing any more. -/
theorem Sound.ended_step (h : s.Sound) (hended : s.bus.hasEnded) (hstep : s.Step t) :
  t.bus.hasEnded ∧ t.accepted = s.accepted
  := by
  obtain ⟨hopen, hoffers, hqueue⟩ := Bus.hasEnded_iff.1 hended
  have hwaiting : s.waiting = [] := by
    rw [← List.map_eq_nil_iff, h.offers]
    exact hoffers
  cases hstep with
  | offer p token notice hnotClosed =>
    rw [h.isOpen, hnotClosed] at hopen
    cases hopen
  | refuse | ask | fire => exact ⟨hended, rfl⟩
  | close => exact ⟨Bus.hasEnded_iff.2 ⟨rfl, hoffers, hqueue⟩, rfl⟩
  | turn hturn =>
    cases hturn with
    | accept c waiting hfirst =>
      rw [hwaiting] at hfirst
      cases hfirst
    | withdraw c before after hsplit =>
      rw [hwaiting] at hsplit
      simp at hsplit
    | take p takers notice queue _ hfirst =>
      rw [hqueue] at hfirst
      cases hfirst
    | finish => exact ⟨hended, rfl⟩

theorem Sound.ended_runs (h : s.Sound) (hended : s.bus.hasEnded) (hruns : s.Runs t) :
  t.bus.hasEnded ∧ t.accepted = s.accepted
  := by
  induction hruns with
  | refl => exact ⟨hended, rfl⟩
  | tail hruns hleads ih =>
    obtain ⟨a, ha⟩ := hleads
    have hs := h.runs hruns
    obtain ⟨hended', haccepted⟩ := hs.ended_step ih.1 (hs.step_of_move ha)
    exact ⟨hended', haccepted.trans ih.2⟩

/-- No publisher will bring another notice. -/
structure IsDraining (s : Exchange) : Prop where
  isClosed : s.isClosed = true
  waiting : s.waiting = []

/-- What has been told, and what those who wait will be told: the notices in the queue, in order,
and then that there are no more. -/
def prospect (s : Exchange) : List (Party × Option Notice) :=
  s.told ++ s.bus.takers.mapIdx fun i p => (p, s.bus.queue[i]?)

/-- A turn brings what was to be expected. -/
theorem IsDraining.turn (h : s.IsDraining) (hturn : s.Turn t) :
  t.IsDraining ∧ t.prospect = s.prospect
  := by
  cases hturn with
  | accept c waiting hwaiting =>
    rw [h.waiting] at hwaiting
    cases hwaiting
  | withdraw c before after hwaiting =>
    rw [h.waiting] at hwaiting
    simp at hwaiting
  | take p takers notice queue htakers hqueue =>
    refine ⟨⟨h.isClosed, h.waiting⟩, ?_⟩
    simp [prospect, htakers, hqueue, List.mapIdx_cons]
  | finish p takers htakers hended =>
    have hqueue := (Bus.hasEnded_iff.1 hended).2.2
    refine ⟨⟨h.isClosed, h.waiting⟩, ?_⟩
    simp [prospect, htakers, hqueue, List.mapIdx_cons]

theorem IsDraining.settles (h : s.IsDraining) (hs : s.Sound) (hsettles : s.Settles t) :
  t.Sound ∧ t.IsDraining ∧ t.prospect = s.prospect
  := by
  induction hsettles with
  | refl => exact ⟨hs, h, rfl⟩
  | tail _ hserves ih =>
    obtain ⟨hsound, hdraining, hprospect⟩ := ih
    have hturn := hsound.turn_of_serves hserves
    obtain ⟨hnext, heq⟩ := hdraining.turn hturn
    exact ⟨hsound.turn hturn, hnext, heq.trans hprospect⟩

/-- In the end nobody waits at a closed bus, and all were told what was to be expected. -/
theorem IsDraining.told_of_settled (h : s.IsDraining) (hs : s.Sound) (hroom : 0 < t.bus.capacity)
    (hsettles : s.Settles t) (hsettled : t.IsSettled) :
  t.bus.takers = [] ∧ t.told = s.prospect
  := by
  obtain ⟨hsound, hdraining, hprospect⟩ := h.settles hs hsettles
  have htakers : t.bus.takers = [] := by
    rw [List.eq_nil_iff_forall_not_mem]
    intro p hp
    have hopen := (hsound.open_of_settled hroom hsettled hp).2
    rw [hdraining.isClosed] at hopen
    cases hopen
  refine ⟨htakers, ?_⟩
  rw [← hprospect, prospect, htakers, List.mapIdx_nil, List.append_nil]

theorem Settles.runs (h : s.Settles t) :
  s.Runs t
  := by
  induction h with
  | refl => exact .refl
  | tail _ hserves ih => exact ih.trans hserves.runs

/-- Nobody who waits at a bus is forgotten.  Whatever has happened, those who wait can only go on so
often, and when nobody can go on any more, a publisher waits only if the bus is full and its token
has not fired, and a taker only if the bus is empty and open.  Publishers and takers are answered in
the order in which they came.  Once no publisher waits at a closed bus, the takers get the notices
that are left, in order, and all others learn that there are no more. -/
theorem Runs.nobody_forgotten (h : (opened n).Runs s) :
  (∀ t, s.Serves t → t.bus.work < s.bus.work) ∧
  (∃ t, s.Settles t ∧ t.IsSettled) ∧
  (s.IsSettled →
    (∀ c ∈ s.waiting, s.bus.queue.length = max n 1 ∧ c.offer.token ∉ s.bus.fired) ∧
    (∀ p ∈ s.bus.takers, s.bus.queue = [] ∧ s.isClosed = false)) ∧
  ((s.accepted ++ s.waiting).Sublist s.calls ∧
    s.told.map Prod.fst ++ s.bus.takers = s.asked) ∧
  (s.isClosed = true → s.waiting = [] → ∀ t, s.Settles t → t.IsSettled →
    t.bus.takers = [] ∧
    t.told = s.told ++ s.bus.takers.mapIdx (fun i p => (p, s.bus.queue[i]?)) ∧
    (s.bus.queue = [] → t.told = s.told ++ s.bus.takers.map (fun p => (p, none))))
  := by
  have hs := h.sound
  have hroom : ∀ t, (opened n).Runs t → 0 < t.bus.capacity := by
    intro t ht
    rw [ht.capacity]
    exact Nat.lt_of_lt_of_le Nat.zero_lt_one (Nat.le_max_right n 1)
  refine ⟨fun t => hs.work_lt, hs.exists_settled, ?_, ⟨hs.order, hs.takers⟩, ?_⟩
  · intro hsettled
    refine ⟨fun c hc => ?_, fun p hp => hs.open_of_settled (hroom s h) hsettled hp⟩
    rw [← h.capacity]
    exact hs.full_of_settled hsettled hc
  · intro hclosed hwaiting t hsettles hsettled
    have hdraining : s.IsDraining := ⟨hclosed, hwaiting⟩
    obtain ⟨htakers, htold⟩ := hdraining.told_of_settled hs (hroom t (h.trans hsettles.runs))
      hsettles hsettled
    refine ⟨htakers, htold, fun hqueue => ?_⟩
    rw [htold, prospect, hqueue]
    have hnone : s.bus.takers.mapIdx (fun i p => (p, ([] : List Notice)[i]?))
        = s.bus.takers.map (fun p => (p, none)) :=
      List.mapIdx_eq_iff.2 fun i => List.getElem?_map
    rw [hnone]

theorem nobody_forgotten_lively :
  livelyEnd.bus.takers = [.worker 0] ∧
  ∃ t, livelyEnd.Settles t ∧ t.IsSettled ∧ t.told = livelyEnd.told ++ [(.worker 0, none)]
  := by
  have htakers : livelyEnd.bus.takers = [.worker 0] := by decide +kernel
  obtain ⟨-, ⟨t, hsettles, hsettled⟩, -, -, hclosed⟩ := Runs.nobody_forgotten runs_lively
  obtain ⟨-, -, htold⟩ := hclosed (by decide +kernel) (by decide +kernel) t hsettles hsettled
  refine ⟨htakers, t, hsettles, hsettled, ?_⟩
  rw [htold (by decide +kernel), htakers]
  rfl

end Reconciliation.Exchange
