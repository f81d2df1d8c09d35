import Reconciliation.Proofs.Moves

/-!
# The ledger of identities

Uploads and notices draw their identities from one source.  `Session.Balanced` says that each
identity drawn went to one upload or one notice, or was lost, and that there are no others; every
session of a new processor is balanced (`Session.Runs.balanced`).  So, if the source does not
repeat itself, no two notices are about the same event (`Session.Balanced.nodup_events`).
-/

namespace Reconciliation.Session

variable {s t : Session}

/-- The events of the notices that jobs are about to offer. -/
def offered (s : Session) : List String :=
  s.processor.jobs.gather (fun _ job => job.stage.event?.toList)

/-- The events of the notices that the publisher was called for. -/
def events (s : Session) : List String :=
  s.journal.published.map (fun call => call.2.event)

/-- Every identity drawn is that of an accepted upload or that of an event, or lost. -/
def Balanced (s : Session) : Prop :=
  s.journal.drawn.Perm
    (s.journal.accepted.map Prod.fst ++ s.events ++ s.offered ++ s.journal.lost)

theorem IsNew.balanced (h : s.IsNew) :
  s.Balanced
  := by
  rw [Balanced, events, offered, h.journal, h.processor.jobs]
  exact .refl _

theorem Keeps.balanced (h : s.Keeps t) (hs : s.Balanced) :
  t.Balanced
  := by
  obtain ⟨ds, hdraws, hlost⟩ := h.draws
  rw [Balanced, events, offered, hdraws.drawn, h.accepted, h.published, h.jobs, hlost,
    ← List.append_assoc]
  exact hs.append_right ds

theorem Accepts.balanced {id : String} {statement : Statement}
    (h : s.Accepts t id statement) (hs : s.Balanced) :
  t.Balanced
  := by
  rw [Balanced, List.perm_iff_count] at hs ⊢
  intro e
  have hcount := hs e
  rw [events, offered, h.draws.drawn, h.accepted, h.published, h.jobs, h.lost,
    Keyed.gather_add, List.map_append, ← events, ← offered]
  simp only [List.count_append, JobStage.event?, Option.toList_none, List.map_cons,
    List.map_nil, List.count_nil] at hcount ⊢
  omega

theorem Takes.balanced {task : Nat} {id : String} {c c' : Course} {ds : List String}
    (h : s.Takes t task id c c' ds) (hkeys : (s.processor.jobs.map Prod.fst).Nodup)
    (hevents : c'.events = c.events ++ ds) (hs : s.Balanced) :
  t.Balanced
  := by
  obtain ⟨f, hjobs, hf⟩ := h.jobs
  obtain ⟨ns, hpublished, hns⟩ := h.published
  have hoffered : (t.offered ++ c.stage.event?.toList).Perm
      (s.offered ++ c'.stage.event?.toList) := by
    have hgather := Keyed.gather_modify (fun _ job => job.stage.event?.toList) hkeys
      h.before.job f
    rw [hf] at hgather
    rw [offered, hjobs]
    exact hgather
  have hpublished' : t.events = s.events ++ ns.map Notice.event := by
    rw [events, hpublished, List.map_append, List.map_map]
    rfl
  rw [Balanced, List.perm_iff_count] at hs ⊢
  intro e
  have hcount := hs e
  have hcountOffered := hoffered.count_eq e
  have hcountEvents := congrArg (List.count e) hevents
  rw [h.draws.drawn, h.accepted, h.lost, hpublished']
  rw [Course.events, Course.events, hns, List.map_append] at hcountEvents
  simp only [List.count_append] at hcount hcountOffered hcountEvents ⊢
  omega

/-- A session stays balanced. -/
theorem Runs.balanced (h : s.Runs t) (hnew : s.IsNew) :
  t.Balanced
  := by
  induction h with
  | refl => exact hnew.balanced
  | tail hruns hleads ih =>
    obtain ⟨m, hm⟩ := hleads
    have hs := Runs.sound hruns hnew.sound
    cases change_of_move hs hm with
    | keeps h => exact h.balanced ih
    | accepts h => exact h.balanced ih
    | takes _ hevents h => exact h.balanced hs.keys hevents ih

/-- No two notices are about the same event, if no identity was drawn twice. -/
theorem Balanced.nodup_events (h : s.Balanced) (hdrawn : s.journal.drawn.Nodup) :
  s.events.Nodup
  := by
  have hnodup := h.nodup_iff.1 hdrawn
  rw [List.append_assoc, List.append_assoc] at hnodup
  exact (List.nodup_append.1 (List.nodup_append.1 hnodup).2.1).1

/-- The event of a notice was drawn. -/
theorem Balanced.events_subset (h : s.Balanced) :
  s.events ⊆ s.journal.drawn
  := by
  intro e he
  rw [h.mem_iff]
  simp [he]

/-! ### The source -/

theorem Draws.trans {u : Session} {ds es : List String} (h : s.Draws t ds)
    (h' : t.Draws u es) :
  s.Draws u (ds ++ es)
  where
    ids := h.ids.append h'.ids
    drawn := by
      rw [h'.drawn, h.drawn, List.append_assoc]

theorem Change.draws (h : s.Change t) :
  ∃ ds, s.Draws t ds
  := by
  cases h with
  | keeps h =>
    obtain ⟨ds, hdraws, -⟩ := h.draws
    exact ⟨ds, hdraws⟩
  | accepts h => exact ⟨_, h.draws⟩
  | takes _ _ h => exact ⟨_, h.draws⟩

theorem Runs.draws (h : s.Runs t) (hs : s.Sound) :
  ∃ ds, s.Draws t ds
  := by
  induction h with
  | refl => exact ⟨[], draws_nil rfl rfl⟩
  | tail hruns hleads ih =>
    obtain ⟨m, hm⟩ := hleads
    obtain ⟨ds, hds⟩ := ih
    obtain ⟨es, hes⟩ := (change_of_move (Runs.sound hruns hs) hm).draws
    exact ⟨_, hds.trans hes⟩

/-- The identities drawn are those that came first. -/
theorem Runs.drawn_eq (h : s.Runs t) (hnew : s.IsNew) :
  t.journal.drawn = s.processor.ids.drawMany t.journal.drawn.length
  := by
  obtain ⟨ds, hds⟩ := h.draws hnew.sound
  have hdrawn := hds.drawn
  rw [hnew.journal, List.nil_append] at hdrawn
  rw [hdrawn]
  exact hds.ids.eq_drawMany

end Reconciliation.Session
