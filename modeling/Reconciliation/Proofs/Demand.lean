import Reconciliation.Proofs.Agreement
import Reconciliation.Proofs.Ledger

/-!
# How many identities are needed

An upload draws one identity for itself and one for each of its failed transactions.  So the
identities that a session has drawn, but for those lost to refused uploads, are no more than the
accepted statements have need of (`Session.Runs.length_drawn_le`).
-/

namespace Reconciliation

/-- The number of identities that the upload of a statement needs. -/
def Statement.demand (s : Statement) : Nat :=
  s.failures.length + 1

/-! ### A course -/

/-- What is announced among some lines is announced among all of them. -/
theorem length_announced_le (missing : List Part) {s : Statement} {lines rest : List Reading}
    (h : s.outcomes = lines ++ rest) :
  (announced missing lines).length ≤ s.failures.length
  := by
  have hall : (announced missing s.outcomes).length ≤ s.failures.length := by
    rw [announced_outcomes]
    split
    · exact Nat.zero_le _
    · exact Nat.le_refl _
  rw [h, announced_append, List.length_append] at hall
  omega

namespace Course

variable {missing : List Part} {id : String} {s : Statement} {c : Course}

theorem length_published {told : List Reading} (h : Tell missing id told c.published) :
  c.published.length = (announced missing told).length
  := by
  rw [← h.transactions, List.length_map]

/-- Every event of a course is about a failed transaction of its own. -/
theorem Agrees.length_events_le (h : c.Agrees missing id s) :
  c.events.length ≤ s.failures.length
  := by
  rw [events, List.length_append, List.length_map]
  cases hstage : c.stage with
  | fresh s' =>
    rw [Agrees, hstage] at h
    rw [h.2.2.2]
    exact Nat.zero_le _
  | reading r t =>
    rw [Agrees, hstage] at h
    obtain ⟨lines, hbusy, hreads, -⟩ := h
    rw [length_published hbusy.tell]
    exact length_announced_le missing hreads.outcomes
  | announcing r t x =>
    rw [Agrees, hstage] at h
    obtain ⟨lines, hbusy, hreads, -⟩ := h
    rw [length_published hbusy.tell]
    have houtcomes := hreads.outcomes
    rw [List.append_assoc] at houtcomes
    exact length_announced_le missing houtcomes
  | offering r t n =>
    rw [Agrees, hstage] at h
    obtain ⟨lines, hbusy, hreads, -, hfailed, hevents, -⟩ := h
    have hle := length_announced_le missing hreads.outcomes
    rw [announced_append, announced_parsed, if_pos ⟨hfailed, hevents⟩, List.length_append] at hle
    rw [length_published hbusy.tell]
    exact hle
  | publishing r t n =>
    rw [Agrees, hstage] at h
    obtain ⟨lines, hbusy, hreads, -⟩ := h
    rw [length_published hbusy.tell]
    exact length_announced_le missing hreads.outcomes
  | saving t fatal =>
    rw [Agrees, hstage] at h
    rw [length_published h.1.tell]
    exact length_announced_le missing (List.append_nil _).symm
  | closing t fatal =>
    rw [Agrees, hstage] at h
    obtain ⟨⟨_, -, htell, -⟩, -⟩ := h
    rw [length_published htell]
    exact length_announced_le missing (List.append_nil _).symm
  | ended =>
    rw [Agrees, hstage] at h
    rw [length_published h.1]
    exact length_announced_le missing (List.append_nil _).symm

end Course

/-! ### All courses -/

theorem length_flatMap_le {α β γ : Type} {l : List α} {f : α → List β} {g : α → List γ}
    (h : ∀ x ∈ l, (f x).length ≤ (g x).length) :
  (l.flatMap f).length ≤ (l.flatMap g).length
  := by
  induction l with
  | nil => exact Nat.le_refl _
  | cons x l ih =>
    rw [List.forall_mem_cons] at h
    rw [List.flatMap_cons, List.flatMap_cons, List.length_append, List.length_append]
    exact Nat.add_le_add h.1 (ih h.2)

namespace Session

variable {start s : Session} {task : Nat} {id : String} {c : Course}

/-- The events of the notices of a task. -/
def eventsOf (s : Session) (task : Nat) : List String :=
  (s.journal.publishedBy task).map Notice.event ++
    (s.processor.jobs.get? task).elim [] (fun job => job.stage.event?.toList)

theorem Shows.eventsOf (h : s.Shows task id c) :
  s.eventsOf task = c.events
  := by
  rw [Session.eventsOf, h.published, h.job]
  rfl

theorem Sound.keys_perm (h : s.Sound) :
  (s.processor.jobs.map Prod.fst).Perm
    ((List.finRange s.journal.accepted.length).map Fin.val)
  := by
  rw [List.perm_ext_iff_of_nodup h.keys ((List.nodup_finRange _).map Fin.val_injective)]
  intro k
  have howner := h.owner k
  rw [← Keyed.isSome_get?_iff, List.mem_map]
  constructor
  · intro hsome
    have hlt : k < s.journal.accepted.length := by
      by_contra hge
      rw [List.getElem?_eq_none (Nat.le_of_not_lt hge)] at howner
      rw [Option.map_eq_none_iff.1 howner] at hsome
      cases hsome
    exact ⟨⟨k, hlt⟩, List.mem_finRange _, rfl⟩
  · rintro ⟨⟨k, hlt⟩, -, rfl⟩
    obtain ⟨c, hc⟩ := h.exists_shows hlt
    rw [hc.job]
    rfl

/-- The events are those of all tasks. -/
theorem Sound.events_perm (h : s.Sound) :
  (s.events ++ s.offered).Perm
    ((List.finRange s.journal.accepted.length).flatMap fun k => s.eventsOf k.1)
  := by
  have hpublished := (s.journal.published_perm h.called).map Notice.event
  rw [List.map_map, List.map_flatMap] at hpublished
  have hoffered : s.offered.Perm ((List.finRange s.journal.accepted.length).flatMap fun k =>
      (s.processor.jobs.get? k.1).elim [] (fun job => job.stage.event?.toList)) := by
    rw [offered, Keyed.gather_eq_flatMap _ h.keys]
    refine (h.keys_perm.flatMap_right _).trans (.of_eq ?_)
    rw [List.flatMap_map]
  exact (hpublished.append hoffered).trans (List.flatMap_append_perm _ _ _)

/-- No more identities are drawn than the accepted uploads need, and were lost to refused ones. -/
theorem Runs.length_drawn_le (h : start.Runs s) (hnew : start.IsNew) :
  s.journal.drawn.length
    ≤ (s.journal.accepted.map (fun upload => upload.2.demand)).sum + s.journal.lost.length
  := by
  have hs := h.sound hnew.sound
  have hlength := (h.balanced hnew).length_eq
  have hevents := hs.events_perm.length_eq
  have hle : ((List.finRange s.journal.accepted.length).flatMap fun k => s.eventsOf k.1).length
      ≤ (s.journal.accepted.flatMap fun upload => upload.2.failures).length := by
    rw [← flatMap_finRange s.journal.accepted (fun upload => upload.2.failures) fun k => rfl]
    apply length_flatMap_le
    intro k _
    obtain ⟨c, hc, hagrees⟩ := h.agrees hnew (List.getElem?_eq_getElem k.2)
    rw [hc.eventsOf]
    exact hagrees.length_events_le
  have hdemand : ∀ l : List (String × Statement), (l.map (fun upload => upload.2.demand)).sum
      = (l.flatMap fun upload => upload.2.failures).length + l.length := by
    intro l
    induction l with
    | nil => rfl
    | cons upload l ih =>
      rw [List.map_cons, List.sum_cons, ih, List.flatMap_cons, List.length_append,
        List.length_cons, Statement.demand]
      omega
  rw [hdemand]
  simp only [List.length_append, List.length_map] at hlength hevents
  omega

end Session

end Reconciliation
