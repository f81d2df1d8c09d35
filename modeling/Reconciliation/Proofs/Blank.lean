import Mathlib.Data.List.DropRight
import Reconciliation.Text.Blank

/-!
# Trimming

Removing some of the blank characters at both ends of a text before removing all of them changes
nothing (`Text.stripBoth_stripBoth`), and a text without blank characters stays as it is.  A text is
trimmed to the one that does not begin or end with a blank character and has only blank characters
around it (`Text.trims_iff`).
-/

namespace Reconciliation.Text

section

variable {α : Type} {p q : α → Bool}

theorem dropWhile_dropWhile (h : ∀ x, p x → q x) (s : List α) :
  (s.dropWhile p).dropWhile q = s.dropWhile q
  := by
  induction s with
  | nil => rfl
  | cons x s ih =>
    by_cases hx : p x
    · rw [List.dropWhile_cons_of_pos hx, List.dropWhile_cons_of_pos (h x hx), ih]
    · rw [List.dropWhile_cons_of_neg hx]

theorem rdropWhile_rdropWhile (h : ∀ x, p x → q x) (s : List α) :
  (s.rdropWhile p).rdropWhile q = s.rdropWhile q
  := by
  simp only [List.rdropWhile, List.reverse_reverse]
  rw [dropWhile_dropWhile h]

/-- The two ends do not meddle with each other. -/
theorem dropWhile_rdropWhile (h : ∀ x, p x → q x) (s : List α) :
  (s.rdropWhile p).dropWhile q = (s.dropWhile q).rdropWhile p
  := by
  induction s using List.reverseRecOn with
  | nil => rfl
  | append_singleton s x ih =>
    have hdrop : (s ++ [x]).dropWhile q
        = if (s.dropWhile q).isEmpty then [x].dropWhile q else s.dropWhile q ++ [x] :=
      List.dropWhile_append
    by_cases hx : p x
    · rw [List.rdropWhile_concat_pos p s x hx, ih, hdrop, List.dropWhile_cons_of_pos (h x hx)]
      split_ifs with hempty
      · rw [List.isEmpty_iff.1 hempty]
        rfl
      · rw [List.rdropWhile_concat_pos p _ x hx]
    · rw [List.rdropWhile_concat_neg p s x hx, hdrop]
      split_ifs with hempty
      · by_cases hq : q x
        · rw [List.dropWhile_cons_of_pos hq]
          rfl
        · rw [List.dropWhile_cons_of_neg hq]
          symm
          apply List.rdropWhile_concat_neg p [] x hx
      · rw [List.rdropWhile_concat_neg p _ x hx]

/-- What is removed first would be removed anyhow. -/
theorem stripBoth_stripBoth (h : ∀ x, p x → q x) (s : List α) :
  stripBoth q (stripBoth p s) = stripBoth q s
  := by
  show (((s.dropWhile p).rdropWhile p).dropWhile q).rdropWhile q = (s.dropWhile q).rdropWhile q
  rw [dropWhile_rdropWhile h, dropWhile_dropWhile h, rdropWhile_rdropWhile h]

/-- What would be removed at the ends may as well not be there. -/
theorem stripBoth_append {before after : List α} (hbefore : ∀ x ∈ before, p x)
    (hafter : ∀ x ∈ after, p x) (s : List α) :
  stripBoth p (before ++ s ++ after) = stripBoth p s
  := by
  have hrdrop : (s ++ after).rdropWhile p = s.rdropWhile p := by
    rw [List.rdropWhile, List.rdropWhile, List.reverse_append, List.dropWhile_append_of_pos]
    simpa using hafter
  have hp : ∀ x, p x → p x := fun _ => id
  show ((before ++ s ++ after).dropWhile p).rdropWhile p = (s.dropWhile p).rdropWhile p
  rw [List.append_assoc, List.dropWhile_append_of_pos hbefore, ← dropWhile_rdropWhile hp, hrdrop,
    dropWhile_rdropWhile hp]

/-- What is left is what stands between the elements that are removed. -/
theorem exists_stripBoth_eq (s : List α) :
  ∃ before after, (∀ x ∈ before, p x) ∧ (∀ x ∈ after, p x) ∧ s = before ++ stripBoth p s ++ after
  := by
  refine ⟨s.takeWhile p, (s.dropWhile p).rtakeWhile p, fun _ => List.mem_takeWhile_imp,
    fun _ => List.mem_rtakeWhile_imp, ?_⟩
  show s = s.takeWhile p ++ (s.dropWhile p).rdropWhile p ++ (s.dropWhile p).rtakeWhile p
  rw [List.append_assoc, List.rdropWhile_append_rtakeWhile, List.takeWhile_append_dropWhile]

/-- What is left does not begin with an element to be removed. -/
theorem head?_stripBoth {s : List α} {x : α} (h : x ∈ (stripBoth p s).head?) :
  p x = false
  := by
  have hshape : stripBoth p s = (s.rdropWhile p).dropWhile p :=
    (dropWhile_rdropWhile (fun _ => id) s).symm
  have hnot := List.head?_dropWhile_not p (s.rdropWhile p)
  rw [hshape, Option.mem_def] at h
  rw [h] at hnot
  exact hnot

/-- What is left does not end with an element to be removed. -/
theorem getLast?_stripBoth {s : List α} {x : α} (h : x ∈ (stripBoth p s).getLast?) :
  p x = false
  := by
  obtain ⟨hne, rfl⟩ := List.mem_getLast?_eq_getLast h
  rw [← Bool.not_eq_true]
  apply List.rdropWhile_last_not p (s.dropWhile p) hne

/-- A list that neither begins nor ends with an element to be removed stays as it is. -/
theorem stripBoth_eq_self_of_ends {s : List α} (hhead : ∀ x ∈ s.head?, p x = false)
    (hlast : ∀ x ∈ s.getLast?, p x = false) :
  stripBoth p s = s
  := by
  have hdrop : s.dropWhile p = s := by
    rw [List.dropWhile_eq_self_iff]
    intro hpos
    rw [hhead _ (by simp [List.head?_eq_getElem?])]
    apply Bool.false_ne_true
  show (s.dropWhile p).rdropWhile p = s
  rw [hdrop, List.rdropWhile_eq_self_iff]
  intro hne
  rw [hlast _ (List.getLast?_eq_getLast_of_ne_nil hne)]
  apply Bool.false_ne_true

theorem stripBoth_eq_self {s : List α} (h : ∀ x ∈ s, p x = false) :
  stripBoth p s = s
  := by
  apply stripBoth_eq_self_of_ends
  · intro x hx
    apply h x (List.mem_of_mem_head? hx)
  · intro x hx
    apply h x (List.mem_of_mem_getLast? hx)

end

/-! ### Trimmed texts -/

/-- The text `padded` is `s` with blank characters around it. -/
def Pads (s padded : String) : Prop :=
  ∃ before after : List Char, (∀ c ∈ before, isBlank c) ∧ (∀ c ∈ after, isBlank c) ∧
    padded.toList = before ++ s.toList ++ after

/-- The text `core` is `s` without the blank characters around it. -/
structure Trims (s core : String) : Prop where
  pads : Pads core s
  head : ∀ c ∈ core.toList.head?, isBlank c = false
  last : ∀ c ∈ core.toList.getLast?, isBlank c = false

theorem trim_of_pads {s padded : String} (h : Pads s padded) :
  trim padded = trim s
  := by
  obtain ⟨before, after, hbefore, hafter, hpadded⟩ := h
  rw [trim, hpadded, stripBoth_append hbefore hafter]
  rfl

/-- Trimming gives the one text that the blank characters stand around. -/
theorem trims_iff {s core : String} :
  Trims s core ↔ trim s = core
  := by
  constructor
  · intro h
    rw [trim_of_pads h.pads, trim, stripBoth_eq_self_of_ends h.head h.last, String.ofList_toList]
  · rintro rfl
    have hcore : (trim s).toList = stripBoth isBlank s.toList := String.toList_ofList
    obtain ⟨before, after, hbefore, hafter, hs⟩ := exists_stripBoth_eq (p := isBlank) s.toList
    constructor
    · rw [← hcore] at hs
      exact ⟨before, after, hbefore, hafter, hs⟩
    · rw [hcore]
      intro c
      apply head?_stripBoth
    · rw [hcore]
      intro c
      apply getLast?_stripBoth

/-- A text that is stripped of some blank characters comes to the same when it is trimmed. -/
theorem trim_stripBoth {p : Char → Bool} (h : ∀ c, p c → isBlank c) (s : List Char) :
  trim (String.ofList (stripBoth p s)) = trim (String.ofList s)
  := by
  rw [trim, trim, String.toList_ofList, String.toList_ofList, stripBoth_stripBoth h]

theorem trim_trim (s : String) :
  trim (trim s) = trim s
  := by
  have h := trim_stripBoth (fun _ => id) s.toList
  rw [String.ofList_toList] at h
  apply h

/-- A text without blank characters stays as it is. -/
theorem trim_eq_self {s : String} (h : ∀ c ∈ s.toList, isBlank c = false) :
  trim s = s
  := by
  rw [trim, stripBoth_eq_self h, String.ofList_toList]

end Reconciliation.Text
