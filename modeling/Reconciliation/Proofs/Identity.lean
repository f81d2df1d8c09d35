import Mathlib.Algebra.Ring.Nat
import Mathlib.Data.List.Nodup
import Reconciliation.Identity

/-!
# Drawing identities

`IdSource.Draws` says which identities were drawn from a source on the way to another one.  What
was drawn is a beginning of what there is to draw (`IdSource.Draws.eq_drawMany`), and a sequence
comes up with no identity twice, and with no empty one, until its numbers are used up
(`IdSource.nodup_labelled`).
-/

namespace Reconciliation.IdSource

variable {s t u : IdSource} {ds es : List String}

/-- Some identities are drawn from one source, and the other is left. -/
inductive Draws : IdSource → List String → IdSource → Prop where
  | nil (s : IdSource) : Draws s [] s
  | cons {s t : IdSource} {ds : List String} (h : Draws s.advance ds t) :
      Draws s (s.peek :: ds) t

theorem draws_one (s : IdSource) :
  s.Draws [s.peek] s.advance
  := .cons (.nil _)

theorem Draws.append (h : s.Draws ds t) (h' : t.Draws es u) :
  s.Draws (ds ++ es) u
  := by
  induction h with
  | nil => exact h'
  | cons _ ih => exact .cons (ih h')

theorem Draws.eq_drawMany (h : s.Draws ds t) :
  ds = s.drawMany ds.length
  := by
  induction h with
  | nil => rfl
  | cons _ ih =>
    rw [List.length_cons, drawMany, ← ih]

/-- Fewer identities are a beginning of more. -/
theorem drawMany_prefix (s : IdSource) {m n : Nat} (h : m ≤ n) :
  s.drawMany m <+: s.drawMany n
  := by
  induction m generalizing s n with
  | zero => exact List.nil_prefix
  | succ m ih =>
    obtain ⟨n, rfl⟩ : ∃ k, n = k + 1 := ⟨n - 1, by omega⟩
    rw [drawMany, drawMany, List.cons_prefix_cons]
    exact ⟨rfl, ih s.advance (by omega)⟩

/-- The next `n` identities are universally unique identifiers, and none of them comes twice. -/
structure Serves (s : IdSource) (n : Nat) : Prop where
  unique : ∀ id ∈ s.drawMany n, isUniqueId id
  nodup : (s.drawMany n).Nodup

theorem Serves.of_le {m n : Nat} (h : s.Serves n) (hle : m ≤ n) :
  s.Serves m
  where
    unique id hid := h.unique id ((s.drawMany_prefix hle).subset hid)
    nodup := h.nodup.sublist (s.drawMany_prefix hle).sublist

/-! ### Sequences -/

/-- The identity of a number. -/
def numbered (label : String) (n : Nat) : String :=
  label ++ "-" ++ n.repr

theorem numbered_injective (label : String) :
  Function.Injective (numbered label)
  := by
  intro m n h
  rw [numbered, numbered, String.append_right_inj] at h
  have hdigits := congrArg (fun text => Nat.ofDigitChars 10 text.toList 0) h
  simpa [Nat.toList_repr, Nat.ofDigitChars_toDigits] using hdigits

theorem numbered_ne_empty (label : String) (n : Nat) :
  numbered label n ≠ ""
  := by
  intro h
  have hlength := congrArg String.length h
  rw [numbered, String.length_append, String.length_append] at hlength
  have hdash : "-".length = 1 := rfl
  have hempty : "".length = 0 := rfl
  omega

/-- The numbers of a sequence, as words. -/
theorem drawMany_sequence (label : String) (first : UInt64) (n : Nat) :
  (sequence label first).drawMany n
    = (List.range n).map (fun i => numbered label ((first.toNat + i) % 2 ^ 64))
  := by
  induction n generalizing first with
  | zero => rfl
  | succ n ih =>
    rw [drawMany, advance, ih, List.range_succ_eq_map, List.map_cons, List.map_map]
    congr 1
    · rw [Nat.add_zero, Nat.mod_eq_of_lt first.toNat_lt]
      rfl
    · apply List.map_congr_left
      intro i _
      rw [Function.comp_apply, UInt64.toNat_add]
      congr 1
      have hone : (1 : UInt64).toNat = 1 := rfl
      omega

/-- A sequence does not repeat itself until its numbers are used up. -/
theorem nodup_labelled (label : String) {n : Nat} (h : n ≤ 2 ^ 64) :
  ((labelled label).drawMany n).Nodup
  := by
  rw [labelled, drawMany_sequence]
  apply List.Nodup.map_on _ List.nodup_range
  intro i hi j hj heq
  have hmod := numbered_injective label heq
  have hone : (1 : UInt64).toNat = 1 := rfl
  rw [List.mem_range] at hi hj
  omega

theorem notMem_labelled (label : String) (n : Nat) :
  "" ∉ (labelled label).drawMany n
  := by
  rw [labelled, drawMany_sequence, List.mem_map]
  rintro ⟨i, -, h⟩
  exact numbered_ne_empty label _ h

end Reconciliation.IdSource
