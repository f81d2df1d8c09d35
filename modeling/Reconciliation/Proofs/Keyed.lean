import Mathlib.Algebra.Ring.Nat
import Mathlib.Data.List.Nodup
import Reconciliation.Keyed

/-!
# Look-ups and totals of keyed lists

What `Keyed.get?` finds after an entry was added, the connection between entries, keys and
look-ups when no key comes twice; and what all entries bring together, or the total of a
quantity over all entries, of which a change of one entry changes only that entry's share.
-/

namespace Reconciliation.Keyed

variable {κ ν : Type}

/-- What all entries bring, in their order. -/
def gather {β : Type} (g : κ → ν → List β) (l : Keyed κ ν) : List β :=
  l.flatMap (fun entry => g entry.1 entry.2)

@[simp]
theorem total_nil (g : ν → Nat) :
  total g ([] : Keyed κ ν) = 0
  := rfl

@[simp]
theorem total_cons (g : ν → Nat) (entry : κ × ν) (l : Keyed κ ν) :
  total g (entry :: l) = g entry.2 + total g l
  := rfl

@[simp]
theorem total_append (g : ν → Nat) (l l' : Keyed κ ν) :
  total g (l ++ l') = total g l + total g l'
  := by
  induction l with
  | nil =>
    rw [List.nil_append, total_nil, Nat.zero_add]
  | cons entry l ih =>
    rw [List.cons_append, total_cons, total_cons, ih, Nat.add_assoc]

theorem total_add (g : ν → Nat) (l : Keyed κ ν) (k : κ) (v : ν) :
  total g (add l k v) = total g l + g v
  := by
  simp [add]

theorem exists_of_total_pos {g : ν → Nat} {l : Keyed κ ν} (h : 0 < total g l) :
  ∃ entry ∈ l, 0 < g entry.2
  := by
  induction l with
  | nil => cases h
  | cons entry l ih =>
    rw [total_cons] at h
    by_cases hpos : 0 < g entry.2
    · exact ⟨entry, List.mem_cons_self, hpos⟩
    · obtain ⟨other, hother, hpos'⟩ := ih (by omega)
      exact ⟨other, List.mem_cons_of_mem _ hother, hpos'⟩

theorem gather_add {β : Type} (g : κ → ν → List β) (l : Keyed κ ν) (k : κ) (v : ν) :
  gather g (add l k v) = gather g l ++ g k v
  := by
  simp [gather, add]

theorem keys_add (l : Keyed κ ν) (k : κ) (v : ν) :
  (add l k v).map Prod.fst = l.map Prod.fst ++ [k]
  := by
  simp [add]

variable [BEq κ]

/-- An entry that is already there stays what its key is looked up as. -/
theorem get?_add_of_some {l : Keyed κ ν} {k k' : κ} {v v' : ν} (h : get? l k' = some v') :
  get? (add l k v) k' = some v'
  := by
  rw [get?] at h
  simp [get?, add, List.lookup_append, h]

theorem modify_cons (entry : κ × ν) (l : Keyed κ ν) (k : κ) (f : ν → ν) :
  modify (entry :: l) k f
    = (if entry.1 == k then (entry.1, f entry.2) else entry) :: modify l k f
  := by
  rw [modify, List.map_cons, modify]

theorem modify_id (l : Keyed κ ν) (k : κ) :
  modify l k (fun v => v) = l
  := by
  refine (List.map_congr_left fun entry _ => ?_).trans (List.map_id l)
  simp

/-- Two changes of one entry are one change. -/
theorem modify_modify (l : Keyed κ ν) (k : κ) (f g : ν → ν) :
  modify (modify l k f) k g = modify l k (g ∘ f)
  := by
  rw [modify, modify, modify, List.map_map]
  refine List.map_congr_left fun entry _ => ?_
  by_cases hk : entry.1 == k
  · simp [hk]
  · simp [hk]

variable [LawfulBEq κ]

/-! ### Look-ups -/

theorem get?_eq_none_iff {l : Keyed κ ν} {k : κ} :
  get? l k = none ↔ k ∉ l.map Prod.fst
  := by
  rw [get?, List.lookup_eq_none_iff, List.mem_map]
  constructor
  · rintro h ⟨entry, hentry, rfl⟩
    simpa using h entry hentry
  · intro h entry hentry
    rw [bne_iff_ne]
    rintro rfl
    exact h ⟨entry, hentry, rfl⟩

theorem isSome_get?_iff {l : Keyed κ ν} {k : κ} :
  (get? l k).isSome ↔ k ∈ l.map Prod.fst
  := by
  rw [← not_iff_not, Option.not_isSome_iff_eq_none, get?_eq_none_iff]

theorem mem_of_get? {l : Keyed κ ν} {k : κ} {v : ν} (h : get? l k = some v) :
  (k, v) ∈ l
  := by
  obtain ⟨l₁, l₂, rfl, -⟩ := List.lookup_eq_some_iff.1 h
  simp

/-- Where no key comes twice, an entry is what its key is looked up as. -/
theorem get?_of_mem {l : Keyed κ ν} (hl : (l.map Prod.fst).Nodup) {k : κ} {v : ν}
    (h : (k, v) ∈ l) :
  get? l k = some v
  := by
  obtain ⟨l₁, l₂, rfl⟩ := List.append_of_mem h
  apply List.lookup_eq_some_iff.2
  refine ⟨l₁, l₂, rfl, fun entry hentry => ?_⟩
  rw [List.map_append, List.map_cons] at hl
  have hne := (List.nodup_append.1 hl).2.2 entry.1 (List.mem_map_of_mem hentry) k (by simp)
  simpa using Ne.symm hne

theorem get?_add_of_ne {l : Keyed κ ν} {k k' : κ} (h : k' ≠ k) (v : ν) :
  get? (add l k v) k' = get? l k'
  := by
  have hk : (k' == k) = false := beq_eq_false_iff_ne.2 h
  simp [get?, add, List.lookup_append, List.lookup_cons, hk]

theorem get?_add_self {l : Keyed κ ν} {k : κ} (h : get? l k = none) (v : ν) :
  get? (add l k v) k = some v
  := by
  rw [get?] at h
  simp [get?, add, List.lookup_append, h]

/-! ### Changes -/

theorem modify_of_notMem {l : Keyed κ ν} {k : κ} (h : k ∉ l.map Prod.fst) (f : ν → ν) :
  modify l k f = l
  := by
  refine (List.map_congr_left fun entry hentry => ?_).trans (List.map_id _)
  have hne : entry.1 ≠ k := fun hk => h (hk ▸ List.mem_map_of_mem hentry)
  simp [hne]

/-- A change of an entry shows at its own key and at no other. -/
theorem get?_modify {l : Keyed κ ν} {k : κ} {v : ν} (h : get? l k = some v) (f : ν → ν)
    (k' : κ) [Decidable (k' = k)] :
  get? (modify l k f) k' = if k' = k then some (f v) else get? l k'
  := by
  split
  · next hk =>
    subst hk
    rw [get?_modify_self, h]
    rfl
  · next hk => exact get?_modify_of_ne l hk f

/-! ### All entries together -/

/-- Where no key comes twice, a change of an entry leaves those before it and behind it as they
are. -/
theorem exists_modify_eq {l : Keyed κ ν} (hl : (l.map Prod.fst).Nodup) {k : κ} {v : ν}
    (h : get? l k = some v) :
  ∃ l₁ l₂, l = l₁ ++ (k, v) :: l₂ ∧ ∀ f, modify l k f = l₁ ++ (k, f v) :: l₂
  := by
  obtain ⟨l₁, l₂, rfl⟩ := List.append_of_mem (mem_of_get? h)
  refine ⟨l₁, l₂, rfl, fun f => ?_⟩
  rw [List.map_append, List.map_cons, List.nodup_append, List.nodup_cons] at hl
  have h₁ : k ∉ l₁.map Prod.fst := fun hk => hl.2.2 k hk k List.mem_cons_self rfl
  rw [modify, List.map_append, ← modify, modify_of_notMem h₁, ← modify, modify_cons,
    modify_of_notMem hl.2.1.1, if_pos (beq_self_eq_true k)]

/-- A change of one entry takes that entry's old share out of the total and puts the new one
in. -/
theorem total_modify (g : ν → Nat) {l : Keyed κ ν} (hl : (l.map Prod.fst).Nodup) {k : κ}
    {v : ν} (h : get? l k = some v) (f : ν → ν) :
  total g (modify l k f) + g v = total g l + g (f v)
  := by
  obtain ⟨l₁, l₂, rfl, hmodify⟩ := exists_modify_eq hl h
  rw [hmodify, total_append, total_append, total_cons, total_cons]
  dsimp only
  omega

/-- A change of one entry takes away what it brought, and adds what it brings now. -/
theorem gather_modify {β : Type} (g : κ → ν → List β) {l : Keyed κ ν}
    (hl : (l.map Prod.fst).Nodup) {k : κ} {v : ν} (h : get? l k = some v) (f : ν → ν) :
  (gather g (modify l k f) ++ g k v).Perm (gather g l ++ g k (f v))
  := by
  obtain ⟨l₁, l₂, rfl, hmodify⟩ := exists_modify_eq hl h
  rw [hmodify]
  simp only [gather, List.flatMap_append, List.flatMap_cons, List.append_assoc]
  apply List.Perm.append_left
  rw [← List.append_assoc]
  exact List.perm_append_comm.trans (List.perm_append_comm.append_left _)

/-- What all entries bring is what their keys bring. -/
theorem gather_eq_flatMap {β : Type} (g : κ → ν → List β) {l : Keyed κ ν}
    (hl : (l.map Prod.fst).Nodup) :
  gather g l = (l.map Prod.fst).flatMap (fun k => (get? l k).elim [] (g k))
  := by
  rw [List.flatMap_map]
  apply List.flatMap_congr
  intro entry hentry
  rw [get?_of_mem hl hentry]
  rfl

end Reconciliation.Keyed
