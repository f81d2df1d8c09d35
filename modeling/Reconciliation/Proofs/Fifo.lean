import Mathlib.Data.List.Perm.Basic
import Reconciliation.Proofs.Exchange

/-!
# First in, first out

`Exchange.Sound` is what holds of an exchange after any number of moves: every call to publish has
one fate, every notice accepted is either taken or queued, in the order of acceptance, and takers
are answered in the order in which they asked.  `Exchange.Runs.first_in_first_out` reads off it
what callers may rely on.
-/

namespace Reconciliation.Exchange

variable {s t : Exchange} {n : Nat} {p : Party}

/-! ### What is told -/

theorem answers_tell (s : Exchange) (bus : Bus) (p : Party) (answer : Option Notice) :
  { s with bus, told := s.told ++ [(p, answer)] }.answers = s.answers ++ [answer]
  := by
  rw [answers, List.map_append]
  rfl

theorem delivered_tell (s : Exchange) (bus : Bus) (p : Party) (answer : Option Notice) :
  { s with bus, told := s.told ++ [(p, answer)] }.delivered = s.delivered ++ answer.toList
  := by
  rw [delivered, answers_tell, List.filterMap_append]
  cases answer with
  | none => rfl
  | some notice => rfl

/-! ### Soundness -/

/-- Every call has one fate, every notice accepted one way to go, and everybody their turn. -/
structure Sound (s : Exchange) : Prop extends Aligned s where
  numbers : s.calls.map Publication.number = List.range s.calls.length
  fates : s.calls.Perm (s.refused ++ s.canceled ++ (s.accepted ++ s.waiting))
  order : (s.accepted ++ s.waiting).Sublist s.calls
  late : ∀ c ∈ s.refused, c.isLate = true
  timely : ∀ c ∈ s.canceled ++ (s.accepted ++ s.waiting), c.isLate = false
  fired : ∀ c ∈ s.canceled, c.offer.token ∈ s.bus.fired
  flow : s.delivered ++ s.bus.queue = s.accepted.map Publication.notice
  bound : s.bus.queue.length ≤ s.bus.capacity
  takers : s.told.map Prod.fst ++ s.bus.takers = s.asked
  last : ∃ k, s.answers = s.delivered.map some ++ List.replicate k none ∧
    (0 < k → s.bus.hasEnded)

theorem sound_opened (n : Nat) :
  (opened n).Sound
  := {
    aligned_opened n with
    numbers := rfl
    fates := .nil
    order := .slnil
    late := nofun
    timely := nofun
    fired := nofun
    flow := rfl
    bound := Nat.zero_le _
    takers := rfl
    last := ⟨0, rfl, nofun⟩ }

namespace Sound

/-- While the bus is open nobody has learnt that there will be no more notices. -/
theorem answers_of_open (h : s.Sound) (hended : ¬ s.bus.hasEnded) :
  s.answers = s.delivered.map some
  := by
  obtain ⟨k, hanswers, hk⟩ := h.last
  obtain rfl : k = 0 := Nat.eq_zero_of_not_pos fun hpos => hended (hk hpos)
  rw [hanswers, List.replicate_zero, List.append_nil]

/-- Before the end the answers are the notices that were taken. -/
theorem last_of_open (h : s.Sound) (hended : ¬ s.bus.hasEnded) (P : Prop) :
  ∃ k, s.answers = s.delivered.map some ++ List.replicate k none ∧ (0 < k → P)
  := ⟨0, (h.answers_of_open hended).trans (List.append_nil _).symm, nofun⟩

/-- The next call has the next number. -/
theorem numbers_concat (h : s.Sound) (p : Party) (token : Token) (notice : Notice) :
  (s.calls ++ [s.newCall p token notice]).map Publication.number
    = List.range (s.calls ++ [s.newCall p token notice]).length
  := by
  rw [List.map_append, h.numbers, List.length_append, List.length_singleton, List.range_succ]
  rfl

theorem offer (h : s.Sound) {token : Token} {notice : Notice} (hopen : s.isClosed = false)
    (hidle : p ∉ s.bus.waiting) :
  Sound { s with
    bus := { s.bus with offers := s.bus.offers ++ [⟨p, token, notice⟩] }
    calls := s.calls ++ [s.newCall p token notice]
    waiting := s.waiting ++ [s.newCall p token notice] }
  where
    toAligned := h.step (.offer p token notice hopen hidle)
    numbers := h.numbers_concat p token notice
    fates := by
      rw [← List.append_assoc s.accepted, ← List.append_assoc (s.refused ++ s.canceled)]
      exact h.fates.append_right _
    order := by
      rw [← List.append_assoc]
      exact h.order.append_right _
    late := h.late
    timely := by
      intro c hc
      rw [← List.append_assoc s.accepted, ← List.append_assoc, List.mem_append] at hc
      rcases hc with hc | hc
      · exact h.timely c hc
      · rw [List.mem_singleton.1 hc]
        exact hopen
    fired := h.fired
    flow := h.flow
    bound := h.bound
    takers := h.takers
    last := by
      have hended : ¬ s.bus.hasEnded := by
        rw [Bus.hasEnded_iff, h.isOpen, hopen]
        nofun
      exact h.last_of_open hended _

theorem refuse (h : s.Sound) {token : Token} {notice : Notice} (hclosed : s.isClosed = true) :
  Sound { s with
    calls := s.calls ++ [s.newCall p token notice]
    refused := s.refused ++ [s.newCall p token notice] }
  := {
    h with
    numbers := h.numbers_concat p token notice
    fates := by
      refine (List.perm_append_singleton _ _).trans ((h.fates.cons _).trans ?_)
      rw [List.append_assoc, List.append_assoc, List.append_assoc]
      exact List.perm_middle.symm
    order := h.order.trans (List.sublist_append_left _ _)
    late := by
      intro c hc
      rcases List.mem_append.1 hc with hc | hc
      · exact h.late c hc
      · rw [List.mem_singleton.1 hc]
        exact hclosed }

theorem accept (h : s.Sound) {c : Publication} {waiting : List Publication}
    (hwaiting : s.waiting = c :: waiting) (hroom : s.bus.queue.length < s.bus.capacity) :
  Sound { s with
    bus := { s.bus with
      offers := waiting.map Publication.offer
      queue := s.bus.queue ++ [c.notice] }
    waiting
    accepted := s.accepted ++ [c] }
  := by
  have hserved : s.accepted ++ [c] ++ waiting = s.accepted ++ s.waiting := by
    rw [hwaiting, List.append_assoc]
    rfl
  exact {
    h with
    toAligned := h.turn (.accept c waiting hwaiting hroom)
    fates := by
      rw [hserved]
      exact h.fates
    order := by
      rw [hserved]
      exact h.order
    timely := by
      rw [hserved]
      exact h.timely
    flow := by
      rw [List.map_append, ← h.flow, List.append_assoc]
      rfl
    bound := by
      rw [List.length_append]
      exact hroom
    last := by
      have hended : ¬ s.bus.hasEnded := by
        rw [Bus.hasEnded_iff, ← h.offers, hwaiting]
        nofun
      exact h.last_of_open hended _ }

theorem withdraw (h : s.Sound) {c : Publication} {before after : List Publication}
    (hwaiting : s.waiting = before ++ c :: after) (hfired : c.offer.token ∈ s.bus.fired) :
  Sound { s with
    bus := { s.bus with offers := (before ++ after).map Publication.offer }
    waiting := before ++ after
    canceled := s.canceled ++ [c] }
  := by
  have hfates : (s.canceled ++ (s.accepted ++ s.waiting)).Perm
      (s.canceled ++ [c] ++ (s.accepted ++ (before ++ after))) := by
    rw [hwaiting, List.append_assoc s.canceled]
    apply List.Perm.append_left
    rw [← List.append_assoc s.accepted, ← List.append_assoc s.accepted]
    exact List.perm_middle
  exact {
    h with
    toAligned := h.turn (.withdraw c before after hwaiting hfired)
    fates := by
      have hcalls := h.fates
      rw [List.append_assoc] at hcalls ⊢
      exact hcalls.trans (hfates.append_left _)
    order := by
      have horder := h.order
      rw [hwaiting] at horder
      exact (((List.sublist_cons_self c after).append_left before).append_left _).trans horder
    timely := by
      intro d hd
      exact h.timely d (hfates.mem_iff.2 hd)
    fired := by
      intro d hd
      rcases List.mem_append.1 hd with hd | hd
      · exact h.fired d hd
      · rw [List.mem_singleton.1 hd]
        exact hfired
    last := by
      have hended : ¬ s.bus.hasEnded := by
        rw [Bus.hasEnded_iff, ← h.offers, hwaiting]
        simp
      exact h.last_of_open hended _ }

theorem ask (h : s.Sound) (hidle : p ∉ s.bus.waiting) :
  Sound { s with bus := s.bus.next p, asked := s.asked ++ [p] }
  := {
    h with
    toAligned := h.step (.ask p hidle)
    takers := by
      rw [← h.takers, List.append_assoc]
      rfl }

theorem take (h : s.Sound) {takers : List Party} {notice : Notice} {queue : List Notice}
    (htakers : s.bus.takers = p :: takers) (hqueue : s.bus.queue = notice :: queue) :
  Sound { s with
    bus := { s.bus with takers, queue }
    told := s.told ++ [(p, some notice)] }
  := {
    h with
    toAligned := h.turn (.take p takers notice queue htakers hqueue)
    flow := by
      rw [delivered_tell, ← h.flow, hqueue, List.append_assoc]
      rfl
    bound := by
      have hbound := h.bound
      rw [hqueue] at hbound
      exact Nat.le_of_succ_le hbound
    takers := by
      rw [← h.takers, htakers, List.map_append, List.append_assoc]
      rfl
    last := by
      have hended : ¬ s.bus.hasEnded := by
        rw [Bus.hasEnded_iff, hqueue]
        nofun
      refine ⟨0, ?_, nofun⟩
      rw [answers_tell, delivered_tell, h.answers_of_open hended]
      simp }

theorem finish (h : s.Sound) {takers : List Party} (htakers : s.bus.takers = p :: takers)
    (hended : s.bus.hasEnded) :
  Sound { s with bus := { s.bus with takers }, told := s.told ++ [(p, none)] }
  := {
    h with
    toAligned := h.turn (.finish p takers htakers hended)
    flow := by
      rw [delivered_tell, ← h.flow, Option.toList_none, List.append_nil]
    takers := by
      rw [← h.takers, htakers, List.map_append, List.append_assoc]
      rfl
    last := by
      obtain ⟨k, hanswers, -⟩ := h.last
      refine ⟨k + 1, ?_, fun _ => hended⟩
      rw [answers_tell, delivered_tell, hanswers, List.replicate_succ']
      simp }

theorem close (h : s.Sound) :
  Sound { s with bus := s.bus.close, isClosed := true }
  := {
    h with
    toAligned := h.step .close
    last := by
      obtain ⟨k, hanswers, hended⟩ := h.last
      refine ⟨k, hanswers, fun hk => ?_⟩
      obtain ⟨-, hoffers, hqueue⟩ := Bus.hasEnded_iff.1 (hended hk)
      exact Bus.hasEnded_iff.2 ⟨rfl, hoffers, hqueue⟩ }

theorem fire (h : s.Sound) (token : Token) :
  Sound { s with bus := s.bus.fire token }
  := {
    h with
    toAligned := h.step (.fire token)
    fired := fun c hc => List.mem_cons_of_mem _ (h.fired c hc) }

theorem turn (h : s.Sound) (hturn : s.Turn t) :
  t.Sound
  := by
  cases hturn with
  | accept c waiting hwaiting hroom => exact h.accept hwaiting hroom
  | withdraw c before after hwaiting hfired => exact h.withdraw hwaiting hfired
  | take p takers notice queue htakers hqueue => exact h.take htakers hqueue
  | finish p takers htakers hended => exact h.finish htakers hended

theorem step (h : s.Sound) (hstep : s.Step t) :
  t.Sound
  := by
  cases hstep with
  | offer p token notice hopen hidle => exact h.offer hopen hidle
  | refuse p token notice hclosed => exact h.refuse hclosed
  | ask p hidle => exact h.ask hidle
  | close => exact h.close
  | fire token => exact h.fire token
  | turn hturn => exact h.turn hturn

end Sound

/-! ### Runs -/

theorem Sound.runs (h : s.Sound) (hruns : s.Runs t) :
  t.Sound
  := by
  induction hruns with
  | refl => exact h
  | tail _ hleads ih =>
    obtain ⟨a, ha⟩ := hleads
    exact ih.step (ih.step_of_move ha)

theorem Runs.sound (h : (opened n).Runs s) :
  s.Sound
  := (sound_opened n).runs h

theorem Step.capacity (h : s.Step t) :
  t.bus.capacity = s.bus.capacity
  := by
  cases h with
  | turn h =>
    cases h with
    | _ => rfl
  | _ => rfl

theorem Runs.capacity (h : (opened n).Runs s) :
  s.bus.capacity = max n 1
  := by
  induction h with
  | refl => rfl
  | tail hruns hleads ih =>
    obtain ⟨a, ha⟩ := hleads
    rw [((Runs.sound hruns).step_of_move ha).capacity, ih]

/-- Answers stand, and come one after the other. -/
structure Grows (s t : Exchange) : Prop where
  accepted : s.accepted <+: t.accepted
  refused : s.refused <+: t.refused
  canceled : s.canceled <+: t.canceled
  told : s.told <+: t.told

theorem Grows.refl (s : Exchange) :
  s.Grows s
  := ⟨List.prefix_rfl, List.prefix_rfl, List.prefix_rfl, List.prefix_rfl⟩

theorem Grows.trans {u : Exchange} (h : s.Grows t) (h' : t.Grows u) :
  s.Grows u
  := ⟨h.accepted.trans h'.accepted, h.refused.trans h'.refused, h.canceled.trans h'.canceled,
    h.told.trans h'.told⟩

theorem Turn.grows (h : s.Turn t) :
  s.Grows t
  := by
  cases h with
  | accept => exact { Grows.refl s with accepted := List.prefix_append _ _ }
  | withdraw => exact { Grows.refl s with canceled := List.prefix_append _ _ }
  | take | finish => exact { Grows.refl s with told := List.prefix_append _ _ }

theorem Step.grows (h : s.Step t) :
  s.Grows t
  := by
  cases h with
  | refuse => exact { Grows.refl s with refused := List.prefix_append _ _ }
  | offer | ask | close | fire => exact { Grows.refl s with }
  | turn h => exact h.grows

theorem Sound.grows (h : s.Sound) (hruns : s.Runs t) :
  s.Grows t
  := by
  induction hruns with
  | refl => exact .refl s
  | tail hruns hleads ih =>
    obtain ⟨a, ha⟩ := hleads
    exact ih.trans ((h.runs hruns).step_of_move ha).grows

/-! ### First in, first out -/

namespace Sound

theorem nodup_calls (h : s.Sound) :
  s.calls.Nodup
  := by
  apply List.Nodup.of_map Publication.number
  rw [h.numbers]
  exact List.nodup_range

/-- A call has no two fates. -/
theorem notMem_accepted (h : s.Sound) {c : Publication} (hc : c ∈ s.canceled) :
  c ∉ s.accepted
  := by
  have hnodup := h.fates.nodup_iff.1 h.nodup_calls
  rw [List.append_assoc, List.nodup_append] at hnodup
  intro hmem
  exact (List.nodup_append.1 hnodup.2.1).2.2 c hc c (List.mem_append_left _ hmem) rfl

/-- The calls that were refused are those that came too late. -/
theorem mem_refused_iff (h : s.Sound) {c : Publication} (hc : c ∈ s.calls) :
  c.isLate = true ↔ c ∈ s.refused
  := by
  constructor
  · intro hlate
    have hmem := h.fates.mem_iff.1 hc
    rw [List.append_assoc, List.mem_append] at hmem
    refine hmem.resolve_right fun hother => ?_
    rw [h.timely c hother] at hlate
    cases hlate
  · exact h.late c

/-- The notice of a call that was canceled does not come, unless another call brings it. -/
theorem notMem_of_canceled (h : s.Sound) {c : Publication} (hc : c ∈ s.canceled)
    (hsingle : ∀ d ∈ s.calls, d.notice = c.notice → d = c) :
  c.notice ∉ s.delivered ++ s.bus.queue
  := by
  rw [h.flow, List.mem_map]
  rintro ⟨d, hd, hnotice⟩
  have hcall := h.order.subset (List.mem_append_left s.waiting hd)
  rw [hsingle d hcall hnotice] at hd
  exact h.notMem_accepted hc hd

/-- One who learnt that there will be no more notices was right. -/
theorem ended_of_none (h : s.Sound) (hnone : none ∈ s.answers) :
  s.isClosed = true ∧ s.bus.queue = [] ∧ s.waiting = []
  := by
  obtain ⟨k, hanswers, hk⟩ := h.last
  have hpos : 0 < k := by
    rw [hanswers, List.mem_append, List.mem_replicate] at hnone
    rcases hnone with hsome | ⟨hne, -⟩
    · simp at hsome
    · exact Nat.pos_of_ne_zero hne
  obtain ⟨hopen, hoffers, hqueue⟩ := Bus.hasEnded_iff.1 (hk hpos)
  rw [h.isOpen, Bool.not_eq_false'] at hopen
  rw [← h.offers, List.map_eq_nil_iff] at hoffers
  exact ⟨hopen, hqueue, hoffers⟩

end Sound

/-- A bus is first in, first out, whatever the order of the calls: the notices taken and the
notices queued are those accepted, in their order, and never more than fit are queued.  A call to
publish is accepted, refused, canceled or waits, and only one of these; it is refused if the bus
was closed before, and only then; it is canceled only if its token has fired, and then its notice
is not taken.  Nobody learns that there are no more notices before the bus is closed and empty and
no publisher waits, and no notice is taken after that.  Answers stand. -/
theorem Runs.first_in_first_out (h : (opened n).Runs s) :
  s.delivered ++ s.bus.queue = s.accepted.map Publication.notice ∧
  s.bus.queue.length ≤ max n 1 ∧
  (s.calls.Nodup ∧ s.calls.Perm (s.refused ++ s.canceled ++ (s.accepted ++ s.waiting))) ∧
  (∀ c ∈ s.calls, c.isLate = true ↔ c ∈ s.refused) ∧
  (∀ c ∈ s.canceled, c.offer.token ∈ s.bus.fired ∧ c ∉ s.accepted ∧
    ((∀ d ∈ s.calls, d.notice = c.notice → d = c) → c.notice ∉ s.delivered ++ s.bus.queue)) ∧
  (none ∈ s.answers → s.isClosed = true ∧ s.bus.queue = [] ∧ s.waiting = []) ∧
  (∃ k, s.answers = s.delivered.map some ++ List.replicate k none) ∧
  ∀ t, s.Runs t → s.Grows t
  := by
  have hs := h.sound
  refine ⟨hs.flow, ?_, ⟨hs.nodup_calls, hs.fates⟩, ?_, ?_, ?_, ?_, ?_⟩
  · rw [← h.capacity]
    exact hs.bound
  · intro c hc
    exact hs.mem_refused_iff hc
  · intro c hc
    exact ⟨hs.fired c hc, hs.notMem_accepted hc, hs.notMem_of_canceled hc⟩
  · exact hs.ended_of_none
  · obtain ⟨k, hanswers, -⟩ := hs.last
    exact ⟨k, hanswers⟩
  · intro t ht
    exact hs.grows ht

/-! ### An exchange with every kind of answer -/

/-- A notice with an event of its own. -/
def noticeOf (event : String) : Notice :=
  { event
    upload := "u"
    transaction := {
      timestamp := 1
      counterparty := "ann"
      direction := .debit
      amount := .ofInt 5
      outcome := .failed
      description := "rent" } }

/-- One notice fits.  A publisher waits until it is taken, another until its token fires, a third
comes too late; one taker waits for a notice, and two for the end. -/
def livelyMoves : List Bus.Action :=
  [.next (.worker 0), .publish (.body 0) "t" (noticeOf "a"), .accept (.body 0),
    .publish (.body 1) "t" (noticeOf "b"), .publish (.body 2) "x" (noticeOf "c"), .fire "x",
    .withdraw (.body 2), .take (.worker 0), .next (.worker 0), .accept (.body 1), .close,
    .publish (.body 3) "t" (noticeOf "d"), .take (.worker 0), .next (.worker 1),
    .next (.worker 0), .finish (.worker 1)]

/-- The exchange in the end. -/
def livelyEnd : Exchange :=
  (livelyMoves.foldlM move (opened 0)).getD (opened 0)

theorem runs_lively :
  (opened 0).Runs livelyEnd
  := by
  apply reflTransGen_of_isSome
  decide +kernel

theorem first_in_first_out_lively :
  livelyEnd.accepted.map Publication.notice = [noticeOf "a", noticeOf "b"] ∧
  livelyEnd.canceled.length = 1 ∧ livelyEnd.refused.length = 1 ∧ none ∈ livelyEnd.answers ∧
  livelyEnd.delivered ++ livelyEnd.bus.queue = [noticeOf "a", noticeOf "b"]
  := by
  have haccepted : livelyEnd.accepted.map Publication.notice = [noticeOf "a", noticeOf "b"] := by
    decide +kernel
  refine ⟨haccepted, by decide +kernel, by decide +kernel, by decide +kernel, ?_⟩
  rw [← haccepted]
  exact (Runs.first_in_first_out runs_lively).1

end Reconciliation.Exchange
