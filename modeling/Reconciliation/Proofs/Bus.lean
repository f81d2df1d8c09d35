import Reconciliation.Bus

/-!
# What happens at the bus

What each operation of the bus that is possible finds and does.
-/

namespace Reconciliation.Bus

variable {b b' : Bus} {party : Party}

/-- The publisher whose notice is queued is the first that waits, and there is room. -/
theorem accept?_eq_some (h : b.accept? party = some b') :
  ∃ o offers, b.offers = o :: offers ∧ o.publisher = party ∧ b.queue.length < b.capacity ∧
    b' = { b with offers, queue := b.queue ++ [o.notice] }
  := by
  unfold accept? at h
  split at h
  · cases h
  · next o offers hoffers =>
    split at h
    · next ho =>
      cases h
      exact ⟨o, offers, hoffers, ho.1, ho.2, rfl⟩
    · cases h

/-- A publisher that gives up is one whose token has fired. -/
theorem withdraw?_eq_some (h : b.withdraw? party = some b') :
  ∃ o ∈ b.offers, o.publisher = party ∧ o.token ∈ b.fired ∧
    b' = { b with offers := b.offers.eraseP (fun o => o.publisher == party) }
  := by
  unfold withdraw? at h
  split at h
  · cases h
  · next o hfind =>
    split at h
    · next ho =>
      cases h
      have hparty := List.find?_some hfind
      exact ⟨o, List.mem_of_find?_eq_some hfind, by simpa using hparty, ho, rfl⟩
    · cases h

/-- The first taker takes the first notice. -/
theorem take?_eq_some {n : Notice} (h : b.take? party = some (n, b')) :
  ∃ takers queue, b.takers = party :: takers ∧ b.queue = n :: queue ∧
    b' = { b with takers, queue }
  := by
  unfold take? at h
  split at h
  · next t takers m queue htakers hqueue =>
    split at h
    · next ht =>
      cases h
      exact ⟨takers, queue, by rw [htakers, ht], hqueue, rfl⟩
    · cases h
  · cases h

/-- A taker that learns that there will be no more notices is the first that waits. -/
theorem finish?_eq_some (h : b.finish? party = some b') :
  ∃ takers, b.takers = party :: takers ∧ b.hasEnded ∧ b' = { b with takers }
  := by
  unfold finish? at h
  split at h
  · cases h
  · next t takers htakers =>
    split at h
    · next ht =>
      cases h
      exact ⟨takers, by rw [htakers, ht.1], ht.2, rfl⟩
    · cases h

theorem hasEnded_iff :
  b.hasEnded ↔ b.isOpen = false ∧ b.offers = [] ∧ b.queue = []
  := by
  simp [hasEnded, and_assoc]

end Reconciliation.Bus
