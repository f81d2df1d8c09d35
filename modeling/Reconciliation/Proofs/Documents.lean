import Mathlib.Data.List.Nodup
import Reconciliation.Proofs.Keyed
import Reconciliation.Toml.Document

/-!
# Documents are unambiguous

No table of a document has a key twice (`Toml.Document.distinct_of_read?`).  So what a document says
under a key is one value, and it does not matter which of its lines is looked at first.

A scan that gives only results of a kind is put together from such scans (`Toml.Scan.Yields`); the
tables of a document grow by new keys, or by changes of the tables that are there
(`Toml.Table.Distinct.insert?`, `Toml.Table.Distinct.descend?`).
-/

namespace Reconciliation.Toml

/-! ### Results of scans -/

namespace Scan

variable {α β : Type} {P Q : α → Prop} {R : β → Prop} {s s' : Scan α} {f : α → Scan β}

/-- All results of a scan are of a kind. -/
def Yields (s : Scan α) (P : α → Prop) : Prop :=
  ∀ cs a rest, s cs = some (a, rest) → P a

theorem yields_pure {a : α} (h : P a) :
  Yields (pure a) P
  := by
  intro cs b rest hb
  cases hb
  exact h

theorem yields_failure :
  Yields failure P
  := nofun

/-- What follows a scan may rely on what the scan yields. -/
theorem Yields.bind (hs : s.Yields P) (hf : ∀ a, P a → (f a).Yields R) :
  Yields (s >>= f) R
  := by
  intro cs b rest h
  obtain ⟨⟨a, cs'⟩, ha, hb⟩ := Option.bind_eq_some_iff.1 h
  exact hf a (hs cs a cs' ha) cs' b rest hb

theorem yields_bind (hf : ∀ a, (f a).Yields R) :
  Yields (s >>= f) R
  := Yields.bind (P := fun _ => True) (fun _ _ _ _ => trivial) fun a _ => hf a

theorem Yields.seqRight {t : Scan β} (ht : t.Yields R) :
  Yields (s *> t) R
  := by
  intro cs b rest h
  obtain ⟨⟨a, cs'⟩, ha, hb⟩ := Option.bind_eq_some_iff.1 h
  exact ht cs' b rest hb

theorem Yields.orElse (hs : s.Yields P) (hs' : s'.Yields P) :
  Yields (s <|> s') P
  := by
  intro cs a rest h
  have hor : (s cs).or (s' cs) = some (a, rest) := (Option.or_eq_orElse).trans h
  rcases Option.or_eq_some_iff.1 hor with h | ⟨-, h⟩
  · exact hs cs a rest h
  · exact hs' cs a rest h

end Scan

/-! ### Distinct keys -/

/-- No table in a value has a key twice. -/
inductive Value.Distinct : Value → Prop where
  | integer (n : Int) : Distinct (.integer n)
  | text (s : String) : Distinct (.text s)
  | boolean (b : Bool) : Distinct (.boolean b)
  | real (spelling : String) : Distinct (.real spelling)
  | moment (spelling : String) : Distinct (.moment spelling)
  | array {items : List Value} (h : ∀ v ∈ items, Distinct v) : Distinct (.array items)
  | inline {entries : List (String × Value)} (hkeys : (entries.map Prod.fst).Nodup)
      (h : ∀ entry ∈ entries, Distinct entry.2) : Distinct (.inline entries)
  | table {origin : Origin} {entries : List (String × Value)}
      (hkeys : (entries.map Prod.fst).Nodup) (h : ∀ entry ∈ entries, Distinct entry.2) :
      Distinct (.table origin entries)
  | series {tables : List (List (String × Value))}
      (hkeys : ∀ entries ∈ tables, (entries.map Prod.fst).Nodup)
      (h : ∀ entries ∈ tables, ∀ entry ∈ entries, Distinct entry.2) : Distinct (.series tables)

/-- No table in a table has a key twice, and neither has the table itself. -/
structure Table.Distinct (t : Table) : Prop where
  keys : (t.map Prod.fst).Nodup
  values : ∀ entry ∈ t, entry.2.Distinct

theorem Value.Distinct.entries {origin : Origin} {es : Table}
    (h : (Value.table origin es).Distinct) :
  es.Distinct
  := by
  cases h with
  | table hkeys hvalues => exact ⟨hkeys, hvalues⟩

theorem Value.Distinct.tables {ts : List Table} (h : (Value.series ts).Distinct) :
  ∀ es ∈ ts, es.Distinct
  := by
  cases h with
  | series hkeys hvalues => exact fun es hes => ⟨hkeys es hes, hvalues es hes⟩

namespace Table

variable {t t' : Table} {k : String} {v : Value} {path : List String}

theorem Distinct.value {origin : Origin} (h : t.Distinct) :
  (Value.table origin t).Distinct
  := .table h.keys h.values

theorem distinct_series {ts : List Table} (h : ∀ es ∈ ts, es.Distinct) :
  (Value.series ts).Distinct
  := .series (fun es hes => (h es hes).keys) fun es hes => (h es hes).values

theorem distinct_series_concat {ts : List Table} (h : ∀ es ∈ ts, es.Distinct) (ht : t.Distinct) :
  (Value.series (ts ++ [t])).Distinct
  := by
  apply distinct_series
  intro es hes
  rcases List.mem_append.1 hes with hes | hes
  · exact h es hes
  · rw [List.mem_singleton.1 hes]
    exact ht

theorem distinct_nil :
  Distinct []
  := ⟨List.nodup_nil, nofun⟩

theorem Distinct.get? (h : t.Distinct) (hk : t.get? k = some v) :
  v.Distinct
  := h.values _ (Keyed.mem_of_get? hk)

theorem Distinct.add (h : t.Distinct) (hk : t.get? k = none) (hv : v.Distinct) :
  Distinct (t.add k v)
  where
    keys := by
      rw [Keyed.keys_add, ← List.concat_eq_append]
      exact h.keys.concat (Keyed.get?_eq_none_iff.1 hk)
    values := by
      intro entry hentry
      rcases List.mem_append.1 hentry with hentry | hentry
      · exact h.values entry hentry
      · rw [List.mem_singleton.1 hentry]
        exact hv

theorem Distinct.put (h : t.Distinct) (hv : v.Distinct) :
  Distinct (t.put k v)
  where
    keys := by
      rw [Table.put, Keyed.keys_modify]
      exact h.keys
    values := by
      intro entry hentry
      obtain ⟨old, hold, rfl⟩ := List.mem_map.1 hentry
      split
      · exact hv
      · exact h.values old hold

theorem Distinct.insert? (h : t.Distinct) (hv : v.Distinct) (ht : t.insert? path v = some t') :
  t'.Distinct
  := by
  fun_induction Table.insert? t path v generalizing t' with
  | case1 => cases ht
  | case2 t k v hk =>
    cases ht
    exact h.add (Option.isNone_iff_eq_none.1 hk) hv
  | case3 => cases ht
  | case4 t k path v _ hk ih =>
    obtain ⟨es, hes, rfl⟩ := Option.map_eq_some_iff.1 ht
    exact h.add hk (ih distinct_nil hv hes).value
  | case5 t k path v _ es hk ih | case7 t k path v _ es hk _ ih =>
    obtain ⟨es', hes', rfl⟩ := Option.map_eq_some_iff.1 ht
    exact h.put (ih (h.get? hk).entries hv hes').value
  | case6 => cases ht
  | case8 => cases ht

/-- A change of the table to which a header leads is a change of the whole table. -/
theorem Distinct.descend? {change : Table → Option Table}
    (hchange : ∀ s s', s.Distinct → change s = some s' → s'.Distinct) (h : t.Distinct)
    (ht : t.descend? change path = some t') :
  t'.Distinct
  := by
  fun_induction Table.descend? t change path generalizing t' with
  | case1 => exact hchange _ _ h ht
  | case2 t k path hk ih =>
    obtain ⟨es, hes, rfl⟩ := Option.map_eq_some_iff.1 ht
    exact h.add hk (ih distinct_nil hes).value
  | case3 t k path origin es hk ih =>
    obtain ⟨es', hes', rfl⟩ := Option.map_eq_some_iff.1 ht
    exact h.put (ih (h.get? hk).entries hes').value
  | case4 => cases ht
  | case5 t k path tables hk es hlast ih =>
    obtain ⟨es', hes', rfl⟩ := Option.map_eq_some_iff.1 ht
    have htables := (h.get? hk).tables
    have hes := ih (htables es (List.mem_of_getLast? hlast)) hes'
    apply h.put
    exact distinct_series_concat (fun s hs => htables s (List.dropLast_subset _ hs)) hes
  | case6 => cases ht

theorem Distinct.begin? (h : t.Distinct) (ht : t.begin? k = some t') :
  t'.Distinct
  := by
  rw [Table.begin?] at ht
  split at ht
  · next hk =>
    cases ht
    exact h.add hk distinct_nil.value
  · next es hk =>
    cases ht
    exact h.put (h.get? hk).entries.value
  · cases ht

theorem Distinct.extend? (h : t.Distinct) (ht : t.extend? k = some t') :
  t'.Distinct
  := by
  rw [Table.extend?] at ht
  split at ht
  · next hk =>
    cases ht
    exact h.add hk (distinct_series (List.forall_mem_singleton.2 distinct_nil))
  · next tables hk =>
    cases ht
    exact h.put (distinct_series_concat (h.get? hk).tables distinct_nil)
  · cases ht

theorem Distinct.openHeader? (h : t.Distinct) (ht : t.openHeader? path = some t') :
  t'.Distinct
  := by
  rw [Table.openHeader?] at ht
  split at ht
  · cases ht
  · exact h.descend? (fun _ _ hs => hs.begin?) ht

theorem Distinct.openSeries? (h : t.Distinct) (ht : t.openSeries? path = some t') :
  t'.Distinct
  := by
  rw [Table.openSeries?] at ht
  split at ht
  · cases ht
  · exact h.descend? (fun _ _ hs => hs.extend?) ht

end Table

/-! ### Documents -/

open Scan

theorem yields_number :
  number.Yields Value.Distinct
  := by
  apply Yields.orElse
  · exact yields_bind fun spelling => yields_pure (.moment spelling)
  · apply Yields.orElse
    · exact yields_bind fun spelling => yields_pure (.real spelling)
    · exact yields_bind fun n => yields_pure (.integer n)

theorem yields_scalar :
  scalar.Yields Value.Distinct
  := by
  apply yields_bind
  intro c
  split
  · exact yields_bind fun s => yields_pure (.text s)
  · exact yields_bind fun s => yields_pure (.text s)
  · exact Yields.seqRight (yields_pure (.boolean true))
  · exact Yields.seqRight (yields_pure (.boolean false))
  · split
    · exact yields_number
    · exact yields_failure
  · exact yields_failure

/-- No table in a value has a key twice; nor has one in an item of an array, or a table that is
written in one piece. -/
theorem yields_nested (fuel : Nat) :
  (∀ depth, (value depth fuel).Yields Value.Distinct) ∧
    (∀ depth, (items depth fuel).Yields fun vs => ∀ v ∈ vs, v.Distinct) ∧
    (∀ depth table, Table.Distinct table → (entries depth table fuel).Yields Table.Distinct)
  := by
  induction fuel with
  | zero =>
    refine ⟨fun _ => ?_, fun _ => ?_, fun _ _ _ => ?_⟩
    · rw [value]
      exact yields_failure
    · rw [items]
      exact yields_failure
    · rw [entries]
      exact yields_failure
  | succ fuel ih =>
    obtain ⟨hvalue, hitems, hentries⟩ := ih
    refine ⟨fun depth => ?_, fun depth => ?_, fun depth table htable => ?_⟩
    · rw [value]
      apply yields_bind
      intro c
      split
      · split
        · apply Yields.seqRight
          exact (hitems (depth + 1)).bind fun vs hvs => yields_pure (.array hvs)
        · exact yields_failure
      · split
        · refine yields_bind fun _ => yields_bind fun _ => yields_bind fun _ => ?_
          split
          · exact yields_pure (.inline List.nodup_nil nofun)
          · refine (hentries (depth + 1) [] Table.distinct_nil).bind fun es hes => ?_
            exact yields_pure (.inline hes.keys hes.values)
        · exact yields_failure
      · exact yields_scalar
    · rw [items]
      refine yields_bind fun _ => yields_bind fun _ => ?_
      split
      · exact yields_pure nofun
      · refine (hvalue depth).bind fun v hv => yields_bind fun _ => yields_bind fun _ => ?_
        split
        · refine (hitems depth).bind fun vs hvs => ?_
          exact yields_pure (List.forall_mem_cons.2 ⟨hv, hvs⟩)
        · exact yields_bind fun _ => yields_pure (List.forall_mem_singleton.2 hv)
    · rw [entries]
      refine yields_bind fun path => yields_bind fun _ => yields_bind fun _ => ?_
      refine (hvalue depth).bind fun v hv => yields_bind fun _ => ?_
      split
      · next hinsert =>
        have hgrown := htable.insert? hv hinsert
        apply yields_bind
        intro _
        split
        · exact hentries depth _ hgrown
        · exact yields_bind fun _ => yields_pure hgrown
      · exact yields_failure

/-- No table in the value of a line has a key twice. -/
def Line.Distinct : Line → Prop
  | .entry _ v => v.Distinct
  | .blank => True
  | .header _ => True
  | .seriesHeader _ => True

theorem yields_line :
  line.Yields Line.Distinct
  := by
  apply yields_bind
  intro c
  split
  · exact Yields.seqRight (yields_pure trivial)
  · exact Yields.seqRight (yields_pure trivial)
  · exact Yields.seqRight (yields_pure trivial)
  · apply yields_bind
    intro double
    split
    · refine yields_bind fun _ => yields_bind fun path => yields_bind fun _ => ?_
      exact yields_bind fun _ => yields_pure trivial
    · refine yields_bind fun _ => yields_bind fun path => yields_bind fun _ => ?_
      exact yields_bind fun _ => yields_pure trivial
  · refine yields_bind fun path => yields_bind fun _ => yields_bind fun _ => ?_
    refine yields_bind fun cs => ((yields_nested _).1 0).bind fun v hv => ?_
    exact yields_bind fun _ => yields_pure hv

theorem yields_lines (n : Nat) :
  (lines n).Yields fun ls => ∀ l ∈ ls, l.Distinct
  := by
  induction n with
  | zero => exact yields_pure nofun
  | succ n ih =>
    rw [lines]
    refine yields_bind fun _ => yields_bind fun _ => ?_
    split
    · exact yields_pure nofun
    · refine yields_line.bind fun l hl => ih.bind fun ls hls => ?_
      exact yields_pure (List.forall_mem_cons.2 ⟨hl, hls⟩)

namespace Document

theorem distinct_add? {d d' : Document} {l : Line} (hd : d.root.Distinct) (hl : l.Distinct)
    (h : d.add? l = some d') :
  d'.root.Distinct
  := by
  cases l with
  | blank =>
    cases h
    exact hd
  | entry path v =>
    obtain ⟨root, hroot, rfl⟩ := Option.map_eq_some_iff.1 h
    exact hd.descend? (fun _ _ hs hinsert => hs.insert? hl hinsert) hroot
  | header path =>
    obtain ⟨root, hroot, rfl⟩ := Option.map_eq_some_iff.1 h
    exact hd.openHeader? hroot
  | seriesHeader path =>
    obtain ⟨root, hroot, rfl⟩ := Option.map_eq_some_iff.1 h
    exact hd.openSeries? hroot

theorem distinct_foldlM {d d' : Document} {ls : List Line} (hd : d.root.Distinct)
    (hls : ∀ l ∈ ls, l.Distinct) (h : ls.foldlM add? d = some d') :
  d'.root.Distinct
  := by
  induction ls generalizing d with
  | nil =>
    cases h
    exact hd
  | cons l ls ih =>
    rw [List.forall_mem_cons] at hls
    obtain ⟨d₁, hd₁, h⟩ := Option.bind_eq_some_iff.1 h
    exact ih (distinct_add? hd hls.1 hd₁) hls.2 h

/-- No table of a document has a key twice. -/
theorem distinct_of_read? {text : String} {t : Table} (h : read? text = some t) :
  t.Distinct
  := by
  obtain ⟨ls, hls, h⟩ := Option.bind_eq_some_iff.1 h
  obtain ⟨d, hd, h⟩ := Option.bind_eq_some_iff.1 h
  cases h
  apply distinct_foldlM Table.distinct_nil _ hd
  rw [complete] at hls
  split at hls
  · next ls' hlines =>
    cases hls
    exact yields_lines _ _ _ _ hlines
  · cases hls

end Document

end Reconciliation.Toml
