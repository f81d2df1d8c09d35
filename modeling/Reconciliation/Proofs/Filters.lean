import Mathlib
import Reconciliation.IssueFilter
import Reconciliation.Proofs.Grammar

/-!
# What issue filters select

An issue filter is given by two comma-separated lists.  `IssueFilter.Says` is what a list says: its
entries in small letters, with neither the blank characters around them nor the entries that are
blank.  Two lists of words are all that a filter depends on, so that changes of the lists that
leave them alone (`IssueFilter.Rewrites`) leave the filter alone (`IssueFilter.parse_says`).
-/

namespace Reconciliation

namespace Text

/-! ### Small letters -/

theorem isBlank_toLower (c : Char) :
  isBlank c.toLower = isBlank c
  := by
  by_cases h : c.val ≥ 'A'.val ∧ c.val ≤ 'Z'.val
  · have hupper : 65 ≤ c.toNat ∧ c.toNat ≤ 90 := h
    have hlower : c.toLower.toNat = c.toNat + 32 := by
      rw [Char.toLower, dif_pos h, Char.toNat, UInt32.toNat_add]
      apply Nat.mod_eq_of_lt
      show c.toNat + 32 < 2 ^ 32
      omega
    -- Neither a capital nor a small letter is in any of the ranges.
    rw [Bool.eq_iff_iff]
    simp only [isBlank, hlower, Bool.or_eq_true, Bool.and_eq_true, decide_eq_true_eq, beq_iff_eq]
    omega
  · rw [Char.toLower, dif_neg h]

theorem stripBoth_map {α β : Type} {p : β → Bool} {q : α → Bool} {f : α → β}
    (h : ∀ x, p (f x) = q x) (s : List α) :
  stripBoth p (s.map f) = (stripBoth q s).map f
  := by
  have hp : p ∘ f = q := by
    funext x
    apply h
  rw [stripBoth, stripBoth, List.dropWhile_map, ← List.map_reverse, List.dropWhile_map, hp,
    List.map_reverse]

/-- Blank characters stay blank in small letters. -/
theorem trim_toLower (s : String) :
  trim s.toLower = (trim s).toLower
  := by
  rw [← String.toList_inj, trim, String.toLower, String.toLower, String.toList_map,
    String.toList_map, trim, String.toList_ofList, String.toList_ofList]
  apply stripBoth_map isBlank_toLower

theorem toLower_eq_empty {s : String} :
  s.toLower = "" ↔ s = ""
  := by
  rw [← String.toList_eq_nil_iff, ← String.toList_eq_nil_iff, String.toLower, String.toList_map,
    List.map_eq_nil_iff]

/-! ### Parts between commas -/

/-- The text is made of the parts, with commas between them. -/
structure Lists (text : String) (parts : List String) : Prop where
  toList : text.toList = [','].intercalate (parts.map String.toList)
  ne_nil : parts ≠ []
  plain : ∀ part ∈ parts, ',' ∉ part.toList

end Text

namespace IssueFilter

theorem splitAtCommas_eq (s : List Char) :
  splitAtCommas s = s.splitOn ','
  := by
  induction s with
  | nil =>
    rw [List.splitOn_nil]
    rfl
  | cons c s ih =>
    rw [splitAtCommas, ih, List.splitOn_cons_eq_if_modifyHead]
    simp only [beq_iff_eq]
    split
    · rfl
    · obtain ⟨part, parts, hparts⟩ := List.exists_cons_of_ne_nil (List.splitOn_ne_nil ',' s)
      rw [hparts]
      rfl

theorem notMem_of_mem_splitAtCommas {s part : List Char} (h : part ∈ splitAtCommas s) :
  ',' ∉ part
  := by
  induction s generalizing part with
  | nil =>
    rw [List.mem_singleton.1 h]
    apply List.not_mem_nil
  | cons c s ih =>
    rw [splitAtCommas] at h
    split at h
    · rcases List.mem_cons.1 h with rfl | h
      · apply List.not_mem_nil
      · exact ih h
    · next hc =>
      split at h
      · next first parts hsplit =>
        rw [hsplit] at ih
        rcases List.mem_cons.1 h with rfl | h
        · rw [List.mem_cons, not_or]
          exact ⟨Ne.symm hc, ih List.mem_cons_self⟩
        · exact ih (List.mem_cons_of_mem first h)
      · rw [List.mem_singleton.1 h, List.mem_singleton]
        exact Ne.symm hc

theorem lists_iff {text : String} {parts : List String} :
  Text.Lists text parts ↔ splitAtCommas text.toList = parts.map String.toList
  := by
  rw [splitAtCommas_eq]
  constructor
  · intro h
    rw [h.toList]
    apply List.splitOn_intercalate
    · rw [List.forall_mem_map]
      exact h.plain
    · rw [ne_eq, List.map_eq_nil_iff]
      exact h.ne_nil
  · intro h
    constructor
    · rw [← h, List.intercalate_splitOn]
    · rintro rfl
      exact List.splitOn_ne_nil ',' _ h
    · intro part hpart
      apply notMem_of_mem_splitAtCommas (s := text.toList)
      rw [splitAtCommas_eq, h]
      exact List.mem_map_of_mem hpart

/-! ### What a list says -/

/-- The parts of a list, if there is one. -/
def IsOf (list : Option String) (parts : List String) : Prop :=
  match list with
  | none => parts = []
  | some text => Text.Lists text parts

/-- The list has an entry that is this word in small letters.  The entries are the parts between the
commas without the blank characters around them, if anything is left of them. -/
def Says (list : Option String) (word : String) : Prop :=
  ∃ parts entry, IsOf list parts ∧ entry ≠ "" ∧ (∃ part ∈ parts, Text.Trims part entry) ∧
    entry.toLower = word

/-- What a part says if it is not blank. -/
def wordOf (part : String) : String :=
  (Text.trim part).toLower

variable {list list' : Option String} {parts parts' : List String} {word entry : String}

theorem isOf_some {text : String} :
  IsOf (some text) parts ↔ Text.Lists text parts
  := Iff.rfl

theorem exists_isOf (list : Option String) :
  ∃ parts, IsOf list parts
  := by
  cases list with
  | none => exact ⟨[], rfl⟩
  | some text =>
    refine ⟨(splitAtCommas text.toList).map String.ofList, lists_iff.2 ?_⟩
    rw [List.map_map]
    symm
    refine (List.map_congr_left fun part _ => ?_).trans (List.map_id _)
    apply String.toList_ofList

theorem entries_of_isOf (h : IsOf list parts) :
  entries list = (parts.map Text.trim).filter (fun entry => !entry.isEmpty)
  := by
  cases list with
  | none =>
    cases h
    rfl
  | some text =>
    rw [isOf_some, lists_iff] at h
    have htrim : parts.map ((fun part => Text.trim (String.ofList part)) ∘ String.toList)
        = parts.map Text.trim := by
      apply List.map_congr_left
      intro part _
      rw [Function.comp_apply, String.ofList_toList]
    rw [entries, h, List.map_map, htrim]

theorem mem_entries (h : IsOf list parts) :
  entry ∈ entries list ↔ entry ≠ "" ∧ ∃ part ∈ parts, Text.Trims part entry
  := by
  rw [entries_of_isOf h, List.mem_filter, List.mem_map, and_comm]
  simp only [Text.trims_iff, Bool.not_eq_true', ← Bool.not_eq_true, String.isEmpty_iff]

theorem says_iff_entries :
  Says list word ↔ ∃ entry ∈ entries list, entry.toLower = word
  := by
  constructor
  · rintro ⟨parts, entry, hparts, hne, hpart, rfl⟩
    exact ⟨entry, (mem_entries hparts).2 ⟨hne, hpart⟩, rfl⟩
  · rintro ⟨entry, hentry, rfl⟩
    obtain ⟨parts, hparts⟩ := exists_isOf list
    obtain ⟨hne, hpart⟩ := (mem_entries hparts).1 hentry
    exact ⟨parts, entry, hparts, hne, hpart, rfl⟩

theorem says_iff (h : IsOf list parts) :
  Says list word ↔ word ≠ "" ∧ word ∈ parts.map wordOf
  := by
  rw [says_iff_entries, List.mem_map]
  constructor
  · rintro ⟨entry, hentry, rfl⟩
    obtain ⟨hne, part, hpart, htrims⟩ := (mem_entries h).1 hentry
    refine ⟨mt Text.toLower_eq_empty.1 hne, part, hpart, ?_⟩
    rw [wordOf, Text.trims_iff.1 htrims]
  · rintro ⟨hne, part, hpart, rfl⟩
    refine ⟨Text.trim part, (mem_entries h).2 ⟨mt Text.toLower_eq_empty.2 hne, part, hpart, ?_⟩, rfl⟩
    exact Text.trims_iff.2 rfl

theorem entries_eq_nil :
  entries list = [] ↔ ∀ word, ¬ Says list word
  := by
  simp only [says_iff_entries, List.eq_nil_iff_forall_not_mem]
  constructor
  · rintro h _ ⟨entry, hentry, -⟩
    exact h entry hentry
  · intro h entry hentry
    exact h _ ⟨entry, hentry, rfl⟩

/-! ### Changes that change nothing -/

/-- Putting the entries of a list in another order, repeating one, writing them in another ASCII
case, putting blank characters around them, and adding a blank one. -/
inductive Rewrites : List String → List String → Prop where
  | reorder {parts parts' : List String} (h : parts.Perm parts') : Rewrites parts parts'
  | duplicate {part : String} {parts : List String} (h : part ∈ parts) :
    Rewrites parts (part :: parts)
  | recase {parts parts' : List String}
      (h : List.Forall₂ (fun part part' => part.toLower = part'.toLower) parts parts') :
    Rewrites parts parts'
  | pad {parts parts' : List String} (h : List.Forall₂ Text.Pads parts parts') :
    Rewrites parts parts'
  | blank {part : String} {parts : List String} (h : ∀ c ∈ part.toList, Text.isBlank c) :
    Rewrites parts (part :: parts)

/-- A list is made from another by such changes, or the other from it. -/
def AreAlike (list list' : Option String) : Prop :=
  ∃ parts parts', IsOf list parts ∧ IsOf list' parts' ∧ Relation.EqvGen Rewrites parts parts'

/-- A part depends on the letters only up to ASCII case. -/
theorem wordOf_congr {part part' : String} (h : part.toLower = part'.toLower) :
  wordOf part = wordOf part'
  := by
  rw [wordOf, wordOf, ← Text.trim_toLower, ← Text.trim_toLower, h]

theorem wordOf_of_pads {part part' : String} (h : Text.Pads part part') :
  wordOf part = wordOf part'
  := by
  rw [wordOf, wordOf, Text.trim_of_pads h]

theorem wordOf_of_blank {part : String} (h : ∀ c ∈ part.toList, Text.isBlank c) :
  wordOf part = ""
  := by
  have hpads : Text.Pads "" part := ⟨part.toList, [], h, nofun, by simp⟩
  rw [← wordOf_of_pads hpads]
  decide +kernel

/-- Parts that say the same one by one say the same. -/
theorem map_wordOf_eq {R : String → String → Prop}
    (hR : ∀ part part', R part part' → wordOf part = wordOf part')
    (h : List.Forall₂ R parts parts') :
  parts.map wordOf = parts'.map wordOf
  := by
  induction h with
  | nil => rfl
  | cons hpart _ ih => rw [List.map_cons, List.map_cons, hR _ _ hpart, ih]

theorem Rewrites.mem_iff (h : Rewrites parts parts') (hword : word ≠ "") :
  word ∈ parts.map wordOf ↔ word ∈ parts'.map wordOf
  := by
  cases h with
  | reorder h => exact (h.map wordOf).mem_iff
  | duplicate h =>
    rw [List.map_cons, List.mem_cons, or_iff_right_of_imp]
    rintro rfl
    exact List.mem_map_of_mem h
  | recase h => rw [map_wordOf_eq (fun _ _ => wordOf_congr) h]
  | pad h => rw [map_wordOf_eq (fun _ _ => wordOf_of_pads) h]
  | blank h => rw [List.map_cons, List.mem_cons, wordOf_of_blank h, or_iff_right hword]

theorem AreAlike.says_iff (h : AreAlike list list') :
  Says list word ↔ Says list' word
  := by
  obtain ⟨parts, parts', hparts, hparts', hrewrites⟩ := h
  rw [IssueFilter.says_iff hparts, IssueFilter.says_iff hparts']
  apply and_congr_right
  intro hword
  clear hparts hparts'
  induction hrewrites with
  | rel _ _ h => exact h.mem_iff hword
  | refl => rfl
  | symm _ _ _ ih => exact ih.symm
  | trans _ _ _ _ _ ih ih' => exact ih.trans ih'

/-! ### Reading a list -/

section

variable {α β : Type} {read : α → Option β} {l : List α} {bs : List β}

theorem mapM_eq_some_iff :
  l.mapM read = some bs ↔ l.map read = bs.map some
  := by
  induction l generalizing bs with
  | nil =>
    rw [List.mapM_nil, List.map_nil, eq_comm (a := []), List.map_eq_nil_iff, Option.pure_def,
      Option.some.injEq, eq_comm]
  | cons a l ih =>
    rw [List.mapM_cons, List.map_cons]
    simp only [Option.bind_eq_bind, Option.bind_eq_some_iff, Option.pure_def, Option.some.injEq]
    constructor
    · rintro ⟨b, hb, bs, hbs, rfl⟩
      rw [List.map_cons, hb, ih.1 hbs]
    · intro h
      obtain ⟨b, bs, rfl, hb, hbs⟩ := List.map_eq_cons_iff.1 h.symm
      exact ⟨b, hb.symm, bs, ih.2 hbs.symm, rfl⟩

theorem mapM_eq_none_iff :
  l.mapM read = none ↔ ∃ a ∈ l, read a = none
  := by
  induction l with
  | nil => simp
  | cons a l ih =>
    rw [List.mapM_cons]
    simp only [List.mem_cons, exists_eq_or_imp, ← ih]
    cases read a with
    | none => simp
    | some b =>
      cases l.mapM read with
      | none => simp
      | some bs => simp

theorem mem_of_mapM (h : l.mapM read = some bs) (b : β) :
  b ∈ bs ↔ ∃ a ∈ l, read a = some b
  := by
  rw [← List.mem_map, mapM_eq_some_iff.1 h, List.mem_map_of_injective (Option.some_injective β)]

end

variable {o : Outcome} {os : List Outcome} {ds : List Direction} {f : IssueFilter}

theorem issueOfName?_eq_some :
  issueOfName? entry = some o ↔ o.isIssue ∧ entry.toLower = o.name.toLower
  := by
  rw [issueOfName?, Option.filter_eq_some_iff, Outcome.ofName?_eq_some, and_comm]

theorem names_of_issues (word : String) :
  (∃ o : Outcome, o.isIssue ∧ word = o.name.toLower) ↔ word = "failed" ∨ word = "pending"
  := by
  have hfailed : Outcome.failed.name.toLower = "failed" := by decide +kernel
  have hpending : Outcome.pending.name.toLower = "pending" := by decide +kernel
  constructor
  · rintro ⟨o, hissue, rfl⟩
    cases o with
    | success => nomatch hissue
    | failed => exact .inl hfailed
    | pending => exact .inr hpending
  · rintro (rfl | rfl)
    · exact ⟨.failed, rfl, hfailed.symm⟩
    · exact ⟨.pending, rfl, hpending.symm⟩

theorem names_of_directions (word : String) :
  (∃ d : Direction, word = d.name.toLower) ↔ word = "credit" ∨ word = "debit"
  := by
  have hcredit : Direction.credit.name.toLower = "credit" := by decide +kernel
  have hdebit : Direction.debit.name.toLower = "debit" := by decide +kernel
  constructor
  · rintro ⟨d, rfl⟩
    cases d with
    | credit => exact .inl hcredit
    | debit => exact .inr hdebit
  · rintro (rfl | rfl)
    · exact ⟨.credit, hcredit.symm⟩
    · exact ⟨.debit, hdebit.symm⟩

theorem issueOfName?_eq_none :
  issueOfName? entry = none ↔ ¬ (entry.toLower = "failed" ∨ entry.toLower = "pending")
  := by
  rw [← names_of_issues, Option.eq_none_iff_forall_ne_some, not_exists]
  simp only [ne_eq, issueOfName?_eq_some]

theorem directionOfName?_eq_none :
  Direction.ofName? entry = none ↔ ¬ (entry.toLower = "credit" ∨ entry.toLower = "debit")
  := by
  rw [← names_of_directions, Option.eq_none_iff_forall_ne_some, not_exists]
  simp only [ne_eq, Direction.ofName?_eq_some]

/-- The list says nothing but outcomes that a filter may ask for. -/
def SaysOutcomes (list : Option String) : Prop :=
  ∀ word, Says list word → word = "failed" ∨ word = "pending"

/-- The list says nothing but directions. -/
def SaysDirections (list : Option String) : Prop :=
  ∀ word, Says list word → word = "credit" ∨ word = "debit"

/-- A list is accepted if all that it says is accepted. -/
theorem exists_mapM_iff {β : Type} {read : String → Option β} {p : String → Prop}
    (hread : ∀ entry, read entry = none ↔ ¬ p entry.toLower) :
  (∃ bs, (entries list).mapM read = some bs) ↔ ∀ word, Says list word → p word
  := by
  rw [← Option.ne_none_iff_exists', ne_eq, mapM_eq_none_iff]
  simp only [hread, says_iff_entries, not_exists, not_and, not_not]
  constructor
  · rintro h _ ⟨entry, hentry, rfl⟩
    exact h entry hentry
  · intro h entry hentry
    exact h _ ⟨entry, hentry, rfl⟩

theorem saysOutcomes_iff :
  SaysOutcomes list ↔ ∃ os, (entries list).mapM issueOfName? = some os
  := by
  rw [SaysOutcomes, ← exists_mapM_iff (p := fun word => word = "failed" ∨ word = "pending")]
  intro entry
  exact issueOfName?_eq_none

theorem saysDirections_iff :
  SaysDirections list ↔ ∃ ds, (entries list).mapM Direction.ofName? = some ds
  := by
  rw [SaysDirections, ← exists_mapM_iff (p := fun word => word = "credit" ∨ word = "debit")]
  intro entry
  exact directionOfName?_eq_none

theorem mem_outcomes (h : (entries list).mapM issueOfName? = some os) :
  o ∈ os ↔ o.isIssue ∧ Says list o.name.toLower
  := by
  rw [mem_of_mapM h, says_iff_entries]
  simp only [issueOfName?_eq_some]
  constructor
  · rintro ⟨entry, hentry, hissue, hname⟩
    exact ⟨hissue, entry, hentry, hname⟩
  · rintro ⟨hissue, entry, hentry, hname⟩
    exact ⟨entry, hentry, hissue, hname⟩

theorem mem_directions {d : Direction} (h : (entries list).mapM Direction.ofName? = some ds) :
  d ∈ ds ↔ Says list d.name.toLower
  := by
  rw [mem_of_mapM h, says_iff_entries]
  simp only [Direction.ofName?_eq_some]

/-- The list has no entries. -/
def IsSilent (list : Option String) : Prop :=
  ∀ word, ¬ Says list word

theorem isEmpty_of_mapM {β : Type} {read : String → Option β} {bs : List β}
    (h : (entries list).mapM read = some bs) :
  bs.isEmpty ↔ IsSilent list
  := by
  rw [List.isEmpty_iff, IsSilent, ← entries_eq_nil, ← List.map_eq_nil_iff (f := some),
    ← mapM_eq_some_iff.1 h, List.map_eq_nil_iff]

/-! ### Parsing -/

theorem parse_eq_ok {outcomes directions : Option String} :
  parse outcomes directions = .ok f ↔
    ∃ os ds, (entries outcomes).mapM issueOfName? = some os ∧
      (entries directions).mapM Direction.ofName? = some ds ∧
      f = { outcomes := if os.isEmpty then issues.outcomes else os, directions := ds }
  := by
  rw [parse]
  cases (entries outcomes).mapM issueOfName? with
  | none => simp
  | some os =>
    cases (entries directions).mapM Direction.ofName? with
    | none => simp
    | some ds =>
      simp only [Except.ok.injEq, Option.some.injEq]
      constructor
      · rintro rfl
        exact ⟨os, ds, rfl, rfl, rfl⟩
      · rintro ⟨_, _, rfl, rfl, rfl⟩
        rfl

theorem mem_outcomes_of_parse {outcomes directions : Option String}
    (h : parse outcomes directions = .ok f) :
  o ∈ f.outcomes ↔ o.isIssue ∧ (Says outcomes o.name.toLower ∨ IsSilent outcomes)
  := by
  obtain ⟨os, ds, hos, -, rfl⟩ := parse_eq_ok.1 h
  dsimp only
  by_cases hempty : os.isEmpty
  · have hsilent := (isEmpty_of_mapM hos).1 hempty
    rw [if_pos hempty, or_iff_right (hsilent _), and_iff_left hsilent]
    cases o with
    | success => decide
    | failed => decide
    | pending => decide
  · rw [if_neg hempty, mem_outcomes hos, or_iff_left (mt (isEmpty_of_mapM hos).2 hempty)]

theorem selects_of_parse {outcomes directions : Option String} {t : Transaction}
    (h : parse outcomes directions = .ok f) :
  f.selects t ↔
    (t.outcome.isIssue ∧ (Says outcomes t.outcome.name.toLower ∨ IsSilent outcomes)) ∧
      (Says directions t.direction.name.toLower ∨ IsSilent directions)
  := by
  have houtcome := mem_outcomes_of_parse (o := t.outcome) h
  obtain ⟨os, ds, -, hds, rfl⟩ := parse_eq_ok.1 h
  have hne : ¬ (if os.isEmpty then issues.outcomes else os).isEmpty := by
    split
    · nofun
    · assumption
  rw [selects, Bool.and_eq_true, Bool.or_eq_true, Bool.or_eq_true, or_iff_right hne,
    List.contains_iff_mem, List.contains_iff_mem, houtcome, isEmpty_of_mapM hds,
    mem_directions hds, or_comm (a := IsSilent directions)]

/-- Both are refused for the same reason, or both are filters that select the same
transactions. -/
def Agree : Except Fault IssueFilter → Except Fault IssueFilter → Prop
  | .ok f, .ok f' => ∀ t, f.selects t = f'.selects t
  | .error e, .error e' => e = e'
  | _, _ => False

theorem parse_of_not_saysOutcomes {outcomes directions : Option String}
    (h : ¬ SaysOutcomes outcomes) :
  parse outcomes directions = .error (.invalidInput "invalid status filter")
  := by
  rw [saysOutcomes_iff, ← Option.ne_none_iff_exists', not_not] at h
  rw [parse, h]

theorem parse_of_not_saysDirections {outcomes directions : Option String}
    (houtcomes : SaysOutcomes outcomes) (h : ¬ SaysDirections directions) :
  parse outcomes directions = .error (.invalidInput "invalid type filter")
  := by
  obtain ⟨os, hos⟩ := saysOutcomes_iff.1 houtcomes
  rw [saysDirections_iff, ← Option.ne_none_iff_exists', not_not] at h
  rw [parse, hos, h]

theorem exists_parse_iff {outcomes directions : Option String} :
  (∃ f, parse outcomes directions = .ok f) ↔ SaysOutcomes outcomes ∧ SaysDirections directions
  := by
  simp only [parse_eq_ok, saysOutcomes_iff, saysDirections_iff]
  constructor
  · rintro ⟨f, os, ds, hos, hds, -⟩
    exact ⟨⟨os, hos⟩, ds, hds⟩
  · rintro ⟨⟨os, hos⟩, ds, hds⟩
    exact ⟨_, os, ds, hos, hds, rfl⟩

/-- Lists that are alike are refused for the same reason, or select the same transactions. -/
theorem AreAlike.agree {outcomes outcomes' directions directions' : Option String}
    (houtcomes : AreAlike outcomes outcomes') (hdirections : AreAlike directions directions') :
  Agree (parse outcomes directions) (parse outcomes' directions')
  := by
  have hos : SaysOutcomes outcomes ↔ SaysOutcomes outcomes' := by
    simp only [SaysOutcomes, houtcomes.says_iff]
  have hds : SaysDirections directions ↔ SaysDirections directions' := by
    simp only [SaysDirections, hdirections.says_iff]
  by_cases hmeant : SaysOutcomes outcomes
  · by_cases hmeant' : SaysDirections directions
    · obtain ⟨f, hf⟩ := exists_parse_iff.2 ⟨hmeant, hmeant'⟩
      obtain ⟨f', hf'⟩ := exists_parse_iff.2 ⟨hos.1 hmeant, hds.1 hmeant'⟩
      rw [hf, hf', Agree]
      intro t
      rw [Bool.eq_iff_iff, selects_of_parse hf, selects_of_parse hf']
      simp only [IsSilent, houtcomes.says_iff, hdirections.says_iff]
    · rw [parse_of_not_saysDirections hmeant hmeant',
        parse_of_not_saysDirections (hos.1 hmeant) (mt hds.2 hmeant'), Agree]
  · rw [parse_of_not_saysOutcomes hmeant, parse_of_not_saysOutcomes (mt hos.2 hmeant), Agree]

/-- A filter can be made if the lists say nothing but outcomes other than success and directions; an
outcome that is none is reported in preference to a direction that is none.  The filter selects the
transactions whose outcome and direction the lists say, where an empty list of outcomes stands for
failed and pending ones and an empty list of directions for any.  So it never selects a transaction
that succeeded, and does not depend on order, repetition, case and blanks. -/
theorem parse_says (outcomes directions : Option String) :
  ((∃ f, parse outcomes directions = .ok f) ↔ SaysOutcomes outcomes ∧ SaysDirections directions) ∧
    (¬ SaysOutcomes outcomes →
      parse outcomes directions = .error (.invalidInput "invalid status filter")) ∧
    (SaysOutcomes outcomes → ¬ SaysDirections directions →
      parse outcomes directions = .error (.invalidInput "invalid type filter")) ∧
    (∀ f t, parse outcomes directions = .ok f →
      (f.selects t ↔
        (Says outcomes t.outcome.name.toLower ∨
          IsSilent outcomes ∧ (t.outcome = .failed ∨ t.outcome = .pending)) ∧
        (Says directions t.direction.name.toLower ∨ IsSilent directions)) ∧
      (t.outcome = .success → f.selects t = false)) ∧
    ∀ outcomes' directions', AreAlike outcomes outcomes' → AreAlike directions directions' →
      Agree (parse outcomes directions) (parse outcomes' directions')
  := by
  refine ⟨exists_parse_iff, parse_of_not_saysOutcomes, parse_of_not_saysDirections, ?_,
    fun _ _ => AreAlike.agree⟩
  intro f t h
  have hselects := selects_of_parse (t := t) h
  have hmeant := (exists_parse_iff.1 ⟨f, h⟩).1 t.outcome.name.toLower
  constructor
  · rw [hselects]
    apply and_congr_left'
    cases houtcome : t.outcome with
    | success =>
      -- A list that a filter is made from does not name successes.
      rw [houtcome] at hmeant
      have hnot : ¬ Says outcomes Outcome.success.name.toLower := by
        intro h
        exact absurd (hmeant h) (by decide +kernel)
      simp [hnot, Outcome.isIssue]
    | failed => simp [Outcome.isIssue]
    | pending => simp [Outcome.isIssue]
  · intro hsuccess
    rw [← Bool.not_eq_true, hselects, hsuccess]
    intro h
    exact absurd h.1.1 (by decide)

example :
  parse (some " pending, ,FAILED ") (some "debit,")
    = .ok { outcomes := [.pending, .failed], directions := [.debit] }
  := by
  decide +kernel

end IssueFilter

end Reconciliation
