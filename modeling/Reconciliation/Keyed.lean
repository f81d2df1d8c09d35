/-!
# Keyed lists

A keyed list is a list of entries, each with its key, in the order in which the keys came.
`Keyed.get?` finds the entry of a key and `Keyed.modify` changes it in place; `Keyed.total` adds up
a quantity over all entries.
-/

namespace Reconciliation

/-- The sum of a quantity over the elements of a list. -/
def sumOf {α : Type} (g : α → Nat) (l : List α) : Nat :=
  l.foldr (fun x n => g x + n) 0

/-- A list of entries with their keys. -/
abbrev Keyed (κ ν : Type) := List (κ × ν)

namespace Keyed

variable {κ ν : Type} [BEq κ]

/-- The entry of a key. -/
def get? (l : Keyed κ ν) (k : κ) : Option ν :=
  List.lookup k l

/-- The list with the entries of a key changed. -/
def modify (l : Keyed κ ν) (k : κ) (f : ν → ν) : Keyed κ ν :=
  l.map (fun entry => if entry.1 == k then (entry.1, f entry.2) else entry)

/-- The list with a new entry at its end. -/
def add (l : Keyed κ ν) (k : κ) (v : ν) : Keyed κ ν :=
  l ++ [(k, v)]

/-- The total of a quantity over all entries. -/
def total (g : ν → Nat) (l : Keyed κ ν) : Nat :=
  sumOf (fun entry => g entry.2) l

theorem get?_modify_self [LawfulBEq κ] (l : Keyed κ ν) (k : κ) (f : ν → ν) :
  get? (modify l k f) k = (get? l k).map f
  := by
  induction l with
  | nil => rfl
  | cons entry l ih =>
    obtain ⟨k', v⟩ := entry
    by_cases hk : k' = k
    · subst hk
      simp [get?, modify]
    · have hk' : (k == k') = false := beq_eq_false_iff_ne.2 (Ne.symm hk)
      simpa [get?, modify, List.lookup_cons, hk, hk'] using ih

theorem get?_modify_of_ne [LawfulBEq κ] (l : Keyed κ ν) {k k' : κ} (h : k' ≠ k) (f : ν → ν) :
  get? (modify l k f) k' = get? l k'
  := by
  induction l with
  | nil => rfl
  | cons entry l ih =>
    obtain ⟨j, v⟩ := entry
    by_cases hj : j = k
    · subst hj
      have hk' : (k' == j) = false := beq_eq_false_iff_ne.2 h
      simpa [get?, modify, List.lookup_cons, hk'] using ih
    · by_cases hj' : k' = j
      · subst hj'
        simp [get?, modify, hj]
      · have hk' : (k' == j) = false := beq_eq_false_iff_ne.2 hj'
        simpa [get?, modify, List.lookup_cons, hj, hk'] using ih

theorem length_modify (l : Keyed κ ν) (k : κ) (f : ν → ν) :
  (modify l k f).length = l.length
  := List.length_map _

/-- A change leaves the keys as they are. -/
theorem keys_modify (l : Keyed κ ν) (k : κ) (f : ν → ν) :
  (modify l k f).map Prod.fst = l.map Prod.fst
  := by
  simp only [modify, List.map_map]
  refine List.map_congr_left fun entry _ => ?_
  simp only [Function.comp_apply]
  split
  · rfl
  · rfl

end Keyed

end Reconciliation
