import Mathlib.Data.List.Nodup
import Reconciliation.Proofs.Bus
import Reconciliation.Proofs.System

/-!
# Exchanges over a bus

An `Exchange` is a bus together with the calls that were made to it: which notices parties asked
to have published and what became of each call, who asked for the next notice and what they were
told.  Anybody may make any call at any time, except that a party makes one call at a time; the
parties that wait go on in any order.

`Exchange.Step` lists all that one move can do, as long as the exchange and its bus agree on who
waits (`Exchange.Aligned`).
-/

namespace Reconciliation

/-- A call to publish a notice. -/
structure Publication where
  /-- The number of calls to publish that began before it. -/
  number : Nat
  offer : Offer
  /-- The call began after the bus was closed. -/
  isLate : Bool
  deriving DecidableEq, Repr

namespace Publication

def notice (c : Publication) : Notice := c.offer.notice

/-- The call was made by a party. -/
def isBy (c : Publication) (p : Party) : Bool :=
  c.offer.publisher == p

end Publication

/-- The party that makes a call with an action, and may have to wait for the answer. -/
def Bus.Action.caller? : Bus.Action → Option Party
  | .publish p _ _ | .next p => some p
  | .accept _ | .withdraw _ | .take _ | .finish _ | .close | .fire _ => none

/-- A bus, and the calls made to it so far. -/
structure Exchange where
  bus : Bus
  /-- The bus was closed. -/
  isClosed : Bool := false
  /-- The calls to publish, in the order in which they began. -/
  calls : List Publication := []
  /-- Those that have no answer yet. -/
  waiting : List Publication := []
  /-- Those whose notices were queued, in the order of their acceptance. -/
  accepted : List Publication := []
  /-- Those that were answered that the bus is closed. -/
  refused : List Publication := []
  /-- Those that were answered that they are canceled. -/
  canceled : List Publication := []
  /-- The parties that asked for the next notice, in the order of their calls. -/
  asked : List Party := []
  /-- Those that were answered, and what they got, in the order of the answers. -/
  told : List (Party × Option Notice) := []
  deriving DecidableEq

namespace Exchange

/-- A new bus that nobody has called. -/
def opened (capacity : Nat) : Exchange :=
  { bus := .ofCapacity capacity }

/-- The call of a party that waits. -/
def callOf (s : Exchange) (p : Party) : List Publication :=
  (s.waiting.find? (·.isBy p)).toList

/-- The calls that wait, without that of a party. -/
def others (s : Exchange) (p : Party) : List Publication :=
  s.waiting.eraseP (·.isBy p)

/-- The next call to publish, once it begins. -/
def newCall (s : Exchange) (publisher : Party) (token : Token) (notice : Notice) : Publication :=
  { number := s.calls.length, offer := { publisher, token, notice }, isLate := s.isClosed }

/-- The exchange as an action begins. -/
def begun (s : Exchange) : Bus.Action → Exchange
  | .publish p token notice =>
    { s with
      calls := s.calls ++ [s.newCall p token notice]
      waiting := s.waiting ++ [s.newCall p token notice] }
  | .next p => { s with asked := s.asked ++ [p] }
  | .close => { s with isClosed := true }
  | .accept _ | .withdraw _ | .take _ | .finish _ | .fire _ => s

/-- The exchange once a party has an answer to its call. -/
def answered (s : Exchange) (p : Party) : Bus.Reply → Exchange
  | .published => { s with waiting := s.others p, accepted := s.accepted ++ s.callOf p }
  | .closed => { s with waiting := s.others p, refused := s.refused ++ s.callOf p }
  | .canceled => { s with waiting := s.others p, canceled := s.canceled ++ s.callOf p }
  | .delivered notice => { s with told := s.told ++ [(p, some notice)] }
  | .ended => { s with told := s.told ++ [(p, none)] }

/-- The exchange after an action on its bus. -/
def after (s : Exchange) (a : Bus.Action) (bus : Bus) (reply : Option Bus.Reply) : Exchange :=
  let s := { s.begun a with bus }
  match a.party?, reply with
  | some p, some r => s.answered p r
  | _, _ => s

/-- The exchange after an action, unless a party that waits for an answer makes another call. -/
def move (s : Exchange) (a : Bus.Action) : Option Exchange :=
  if ∀ p ∈ a.caller?, p ∉ s.bus.waiting then
    (s.bus.apply a).map fun (bus, reply) => s.after a bus reply
  else none

/-- A move leads from one exchange to the other. -/
def Leads (s t : Exchange) : Prop :=
  ∃ a, s.move a = some t

/-- Moves, in any number and order, lead from one exchange to the other. -/
def Runs : Exchange → Exchange → Prop :=
  Relation.ReflTransGen Leads

/-- What those who asked for the next notice were told. -/
def answers (s : Exchange) : List (Option Notice) :=
  s.told.map Prod.snd

/-- The notices that were taken. -/
def delivered (s : Exchange) : List Notice :=
  s.answers.filterMap id

variable {s t : Exchange} {n : Nat} {p : Party}

/-! ### Steps -/

/-- What one who waits does. -/
inductive Turn (s : Exchange) : Exchange → Prop where
  | accept (c : Publication) (waiting : List Publication) (hwaiting : s.waiting = c :: waiting)
      (hroom : s.bus.queue.length < s.bus.capacity) :
    Turn s { s with
      bus := { s.bus with
        offers := waiting.map Publication.offer
        queue := s.bus.queue ++ [c.notice] }
      waiting
      accepted := s.accepted ++ [c] }
  | withdraw (c : Publication) (before after : List Publication)
      (hwaiting : s.waiting = before ++ c :: after) (hfired : c.offer.token ∈ s.bus.fired) :
    Turn s { s with
      bus := { s.bus with offers := (before ++ after).map Publication.offer }
      waiting := before ++ after
      canceled := s.canceled ++ [c] }
  | take (p : Party) (takers : List Party) (notice : Notice) (queue : List Notice)
      (htakers : s.bus.takers = p :: takers) (hqueue : s.bus.queue = notice :: queue) :
    Turn s { s with
      bus := { s.bus with takers, queue }
      told := s.told ++ [(p, some notice)] }
  | finish (p : Party) (takers : List Party) (htakers : s.bus.takers = p :: takers)
      (hended : s.bus.hasEnded) :
    Turn s { s with bus := { s.bus with takers }, told := s.told ++ [(p, none)] }

/-- What one move does. -/
inductive Step (s : Exchange) : Exchange → Prop where
  | offer (p : Party) (token : Token) (notice : Notice) (hopen : s.isClosed = false)
      (hidle : p ∉ s.bus.waiting) :
    Step s { s with
      bus := { s.bus with offers := s.bus.offers ++ [⟨p, token, notice⟩] }
      calls := s.calls ++ [s.newCall p token notice]
      waiting := s.waiting ++ [s.newCall p token notice] }
  | refuse (p : Party) (token : Token) (notice : Notice) (hclosed : s.isClosed = true) :
    Step s { s with
      calls := s.calls ++ [s.newCall p token notice]
      refused := s.refused ++ [s.newCall p token notice] }
  | ask (p : Party) (hidle : p ∉ s.bus.waiting) :
    Step s { s with bus := s.bus.next p, asked := s.asked ++ [p] }
  | close :
    Step s { s with bus := s.bus.close, isClosed := true }
  | fire (token : Token) :
    Step s { s with bus := s.bus.fire token }
  | turn {t : Exchange} (h : s.Turn t) :
    Step s t

/-- The call of a party that comes first among those of that party. -/
theorem callOf_of_waiting {c : Publication} {before after : List Publication}
    (hwaiting : s.waiting = before ++ c :: after) (hc : c.isBy p)
    (hbefore : ∀ b ∈ before, b.isBy p = false) :
  s.callOf p = [c] ∧ s.others p = before ++ after
  := by
  have hbefore' : ∀ b ∈ before, ¬ b.isBy p := by simpa using hbefore
  constructor
  · rw [callOf, hwaiting, List.find?_append, List.find?_eq_none.2 hbefore', Option.none_or]
    simp [hc]
  · rw [others, hwaiting, List.eraseP_append_right _ hbefore']
    simp [hc]

/-- The exchange and its bus agree on who waits, and nobody waits twice. -/
structure Aligned (s : Exchange) : Prop where
  offers : s.waiting.map Publication.offer = s.bus.offers
  isOpen : s.bus.isOpen = !s.isClosed
  single : s.bus.waiting.Nodup

theorem Aligned.isBy_of_idle (h : s.Aligned) (hidle : p ∉ s.bus.waiting) :
  ∀ c ∈ s.waiting, c.isBy p = false
  := by
  intro c hc
  rw [Publication.isBy, beq_eq_false_iff_ne]
  rintro rfl
  apply hidle
  rw [Bus.waiting, ← h.offers]
  exact List.mem_append_left _ (List.mem_map_of_mem (List.mem_map_of_mem hc))

/-- No publisher waits twice. -/
theorem Aligned.publishers (h : s.Aligned) :
  (s.waiting.map (fun c => c.offer.publisher)).Nodup
  := by
  have hnodup := (List.nodup_append.1 h.single).1
  rw [← h.offers, List.map_map] at hnodup
  exact hnodup

/-- A publisher that waits has one call. -/
theorem Aligned.exists_split (h : s.Aligned) {o : Offer} (ho : o ∈ s.bus.offers) :
  ∃ before c after, s.waiting = before ++ c :: after ∧ c.offer = o ∧
    ∀ b ∈ before, b.isBy o.publisher = false
  := by
  rw [← h.offers] at ho
  obtain ⟨c, hc, rfl⟩ := List.mem_map.1 ho
  obtain ⟨before, after, hwaiting⟩ := List.append_of_mem hc
  refine ⟨before, c, after, hwaiting, rfl, ?_⟩
  intro b hb
  have hnodup := h.publishers
  rw [hwaiting, List.map_append, List.map_cons] at hnodup
  rw [Publication.isBy, beq_eq_false_iff_ne]
  exact (List.nodup_append.1 hnodup).2.2 _ (List.mem_map_of_mem hb) _ List.mem_cons_self

/-- An action that is no call of a party is up to the bus alone. -/
theorem move_of_caller? {a : Bus.Action} (h : a.caller? = none) :
  s.move a = (s.bus.apply a).map (fun result => s.after a result.1 result.2)
  := by
  refine if_pos fun p hp => ?_
  rw [h] at hp
  cases hp

theorem move_eq_some {a : Bus.Action} (h : s.move a = some t) :
  (∀ p ∈ a.caller?, p ∉ s.bus.waiting) ∧
    ∃ bus reply, s.bus.apply a = some (bus, reply) ∧ t = s.after a bus reply
  := by
  unfold move at h
  split at h
  case isFalse => cases h
  case isTrue hidle =>
  obtain ⟨⟨bus, reply⟩, happly, rfl⟩ := Option.map_eq_some_iff.1 h
  exact ⟨hidle, bus, reply, happly, rfl⟩

/-- A call to publish is refused if the bus was closed, and waits otherwise. -/
theorem Aligned.step_of_publish (h : s.Aligned) (token : Token) (notice : Notice)
    (hidle : p ∉ s.bus.waiting) :
  s.Step (s.after (.publish p token notice) (s.bus.publish p token notice).1
    (s.bus.publish p token notice).2)
  := by
  have hisOpen := h.isOpen
  cases hclosed : s.isClosed with
  | false =>
    rw [hclosed, Bool.not_false] at hisOpen
    rw [Bus.publish, if_pos hisOpen]
    exact .offer p token notice hclosed hidle
  | true =>
    rw [hclosed] at hisOpen
    have hwaiting : (s.begun (.publish p token notice)).waiting
        = s.waiting ++ s.newCall p token notice :: [] := rfl
    obtain ⟨hcall, hothers⟩ := callOf_of_waiting hwaiting (beq_self_eq_true p)
      (h.isBy_of_idle hidle)
    have hafter : s.after (.publish p token notice) s.bus (some .closed) = { s with
        calls := s.calls ++ [s.newCall p token notice]
        refused := s.refused ++ [s.newCall p token notice] } := by
      show { s.begun (.publish p token notice) with
        waiting := (s.begun (.publish p token notice)).others p
        refused := s.refused ++ (s.begun (.publish p token notice)).callOf p } = _
      rw [hcall, hothers, List.append_nil]
      rfl
    rw [Bus.publish, if_neg (by simp [hisOpen]), hafter]
    exact .refuse p token notice hclosed

theorem Aligned.turn_of_accept (h : s.Aligned) {bus : Bus} (haccept : s.bus.accept? p = some bus) :
  s.Turn (s.after (.accept p) bus (some .published))
  := by
  obtain ⟨o, offers, hoffers, rfl, hroom, rfl⟩ := Bus.accept?_eq_some haccept
  rw [← h.offers, List.map_eq_cons_iff] at hoffers
  obtain ⟨c, waiting, hwaiting, rfl, rfl⟩ := hoffers
  have hfirst : s.waiting = [] ++ c :: waiting := hwaiting
  obtain ⟨hcall, hothers⟩ := callOf_of_waiting hfirst (beq_self_eq_true c.offer.publisher) nofun
  have hafter : ∀ bus, s.after (.accept c.offer.publisher) bus (some .published)
      = { s with bus, waiting, accepted := s.accepted ++ [c] } := by
    intro bus
    show { s with
      bus
      waiting := s.others c.offer.publisher
      accepted := s.accepted ++ s.callOf c.offer.publisher } = _
    rw [hcall, hothers, List.nil_append]
  rw [hafter]
  exact .accept c waiting hwaiting hroom

theorem Aligned.turn_of_withdraw (h : s.Aligned) {bus : Bus}
    (hwithdraw : s.bus.withdraw? p = some bus) :
  s.Turn (s.after (.withdraw p) bus (some .canceled))
  := by
  obtain ⟨o, ho, rfl, hfired, rfl⟩ := Bus.withdraw?_eq_some hwithdraw
  obtain ⟨before, c, after, hwaiting, rfl, hbefore⟩ := h.exists_split ho
  obtain ⟨hcall, hothers⟩ := callOf_of_waiting hwaiting (beq_self_eq_true _) hbefore
  have hafter : ∀ bus, s.after (.withdraw c.offer.publisher) bus (some .canceled)
      = { s with bus, waiting := before ++ after, canceled := s.canceled ++ [c] } := by
    intro bus
    show { s with
      bus
      waiting := s.others c.offer.publisher
      canceled := s.canceled ++ s.callOf c.offer.publisher } = _
    rw [hcall, hothers]
  have hoffers : s.bus.offers.eraseP (fun o => o.publisher == c.offer.publisher)
      = (before ++ after).map Publication.offer := by
    rw [← h.offers, List.eraseP_map, ← hothers]
    rfl
  rw [hafter, hoffers]
  exact .withdraw c before after hwaiting hfired

theorem turn_of_take {notice : Notice} {bus : Bus} (htake : s.bus.take? p = some (notice, bus)) :
  s.Turn (s.after (.take p) bus (some (.delivered notice)))
  := by
  obtain ⟨takers, queue, htakers, hqueue, rfl⟩ := Bus.take?_eq_some htake
  exact .take p takers notice queue htakers hqueue

theorem turn_of_finish {bus : Bus} (hfinish : s.bus.finish? p = some bus) :
  s.Turn (s.after (.finish p) bus (some .ended))
  := by
  obtain ⟨takers, htakers, hended, rfl⟩ := Bus.finish?_eq_some hfinish
  exact .finish p takers htakers hended

/-- What one may do who waits is to take a turn. -/
theorem Aligned.turn_of_move (h : s.Aligned) {a : Bus.Action} (ha : a ∈ Bus.options p)
    (hmove : s.move a = some t) :
  s.Turn t
  := by
  obtain ⟨-, bus, reply, happly, rfl⟩ := move_eq_some hmove
  simp only [Bus.options, List.mem_cons, List.not_mem_nil, or_false] at ha
  rcases ha with rfl | rfl | rfl | rfl
  · obtain ⟨bus, haccept, happly⟩ := Option.map_eq_some_iff.1 happly
    cases happly
    exact h.turn_of_accept haccept
  · obtain ⟨bus, hwithdraw, happly⟩ := Option.map_eq_some_iff.1 happly
    cases happly
    exact h.turn_of_withdraw hwithdraw
  · obtain ⟨⟨notice, bus⟩, htake, happly⟩ := Option.map_eq_some_iff.1 happly
    cases happly
    exact turn_of_take htake
  · obtain ⟨bus, hfinish, happly⟩ := Option.map_eq_some_iff.1 happly
    cases happly
    exact turn_of_finish hfinish

/-- A move is one of the steps. -/
theorem Aligned.step_of_move (h : s.Aligned) {a : Bus.Action} (hmove : s.move a = some t) :
  s.Step t
  := by
  cases a with
  | publish p token notice =>
    obtain ⟨hidle, bus, reply, happly, rfl⟩ := move_eq_some hmove
    have hstep := h.step_of_publish token notice (hidle p rfl)
    have hpublish : s.bus.publish p token notice = (bus, reply) := Option.some.inj happly
    rw [hpublish] at hstep
    exact hstep
  | next p =>
    obtain ⟨hidle, bus, reply, happly, rfl⟩ := move_eq_some hmove
    cases happly
    exact .ask p (hidle p rfl)
  | close =>
    cases hmove
    exact .close
  | fire token =>
    cases hmove
    exact .fire token
  | accept p | withdraw p | take p | finish p =>
    exact .turn (h.turn_of_move (p := p) (by simp [Bus.options]) hmove)

/-! ### Who waits -/

theorem aligned_opened (n : Nat) :
  (opened n).Aligned
  := ⟨rfl, rfl, List.nodup_nil⟩

theorem Aligned.turn (h : s.Aligned) (hturn : s.Turn t) :
  t.Aligned
  := by
  cases hturn with
  | accept c waiting hwaiting =>
    have hoffers := h.offers
    rw [hwaiting] at hoffers
    refine ⟨rfl, h.isOpen, h.single.sublist ?_⟩
    rw [Bus.waiting, Bus.waiting, ← hoffers]
    exact (List.sublist_cons_self _ _).append_right _
  | withdraw c before after hwaiting =>
    have hoffers := h.offers
    rw [hwaiting] at hoffers
    refine ⟨rfl, h.isOpen, h.single.sublist ?_⟩
    rw [Bus.waiting, Bus.waiting, ← hoffers]
    exact ((((List.sublist_cons_self c after).append_left before).map _).map _).append_right _
  | take p takers _ _ htakers | finish p takers htakers =>
    refine ⟨h.offers, h.isOpen, h.single.sublist ?_⟩
    rw [Bus.waiting, Bus.waiting, htakers]
    exact (List.sublist_cons_self p takers).append_left _

theorem Aligned.step (h : s.Aligned) (hstep : s.Step t) :
  t.Aligned
  := by
  cases hstep with
  | offer p token notice hopen hidle =>
    constructor
    · show (s.waiting ++ [_]).map Publication.offer = s.bus.offers ++ [_]
      rw [List.map_append, h.offers]
      rfl
    · exact h.isOpen
    · show ((s.bus.offers ++ [_]).map Offer.publisher ++ s.bus.takers).Nodup
      rw [List.map_append, List.append_assoc]
      exact List.perm_middle.nodup_iff.2 (List.nodup_cons.2 ⟨hidle, h.single⟩)
  | refuse => exact ⟨h.offers, h.isOpen, h.single⟩
  | ask p hidle =>
    refine ⟨h.offers, h.isOpen, ?_⟩
    have hperm : (s.bus.next p).waiting.Perm (p :: s.bus.waiting) := by
      rw [Bus.waiting, Bus.next, ← List.append_assoc]
      exact List.perm_append_singleton _ _
    exact hperm.nodup_iff.2 (List.nodup_cons.2 ⟨hidle, h.single⟩)
  | close => exact ⟨h.offers, rfl, h.single⟩
  | fire => exact ⟨h.offers, h.isOpen, h.single⟩
  | turn hturn => exact h.turn hturn

end Exchange

end Reconciliation
