import Mathlib.Data.List.Dedup
import Mathlib.Data.List.Induction
import Reconciliation.Proofs.Store
import Reconciliation.Rehearsal.Store

/-!
# Requests to a store

A `Store.Request` is anything that callers ask of a store: to create, to revise or to save, or a
question.  What it makes of the record of its identity, and what it is answered, depends on that
record alone (`Request.record`, `Request.reply`); all other records stay as they are.  So requests
about different identities do not get in each other's way, one that is refused or breaks off leaves
no trace, and a record, once created, is there for good (`Store.perform_frame`).
-/

namespace Reconciliation.Store

open Rehearsal (StoreOutcome written)

/-- What callers ask of a store. -/
inductive Request where
  | create (upload : Upload)
  /-- The edit may be any, and may break off with the upload half changed. -/
  | revise (id : String) (edit : Upload → Edit)
  | saveResults (id : String) (balance : Amount) (issues : List Transaction)
      (counts : LineCounts)
  | balance (id : String)
  | listIssues (id : String) (filter : IssueFilter) (page : Page)

namespace Request

/-- The identity that a request is about. -/
def id : Request → String
  | create upload => upload.id
  | revise id _ => id
  | saveResults id _ _ _ => id
  | balance id => id
  | listIssues id _ _ => id

/-- The record that a request creates. -/
def first? : Request → Option UploadRecord
  | create upload => some { upload }
  | revise _ _ => none
  | saveResults _ _ _ _ => none
  | balance _ => none
  | listIssues _ _ _ => none

/-- What a request puts in place of a record. -/
def next? : Request → UploadRecord → Option UploadRecord
  | create _, _ => none
  | revise _ edit, r =>
    match edit r.upload with
    | .completed upload => some { r with upload }
    | .panicked _ _ => none
  | saveResults _ amount issues counts, r =>
    some { upload := { r.upload with counts }, balance := amount, issues }
  | balance _, _ => none
  | listIssues _ _ _, _ => none

/-- What a request is answered about a record. -/
def answer : Request → UploadRecord → StoreOutcome
  | create upload, _ => .refused (.conflict upload.id)
  | revise _ edit, r =>
    match edit r.upload with
    | .completed _ => .done
    | .panicked _ message => .brokenOff message
  | saveResults _ _ _ _, _ => .done
  | balance _, r => .balance r.balance r.upload
  | listIssues _ filter page, r =>
    let selected := r.issues.filter filter.selects
    .issues {
      transactions := page.slice selected
      total := selected.length
      stage := r.upload.stage }

/-- The record of the request's identity once the request is dealt with. -/
def record (q : Request) : Option UploadRecord → Option UploadRecord
  | some r => some ((q.next? r).getD r)
  | none => q.first?

/-- What a request is answered, with or without a record of its identity. -/
def reply (q : Request) : Option UploadRecord → StoreOutcome
  | some r => q.answer r
  | none => q.first?.elim (.refused (.notFound q.id)) (fun _ => .done)

variable {q : Request}

/-- Only a request to create a record has one to begin with. -/
theorem first?_eq_none (h : ∀ upload, q ≠ .create upload) :
  q.first? = none
  := by
  cases q with
  | create upload => exact absurd rfl (h upload)
  | revise | saveResults | balance | listIssues => rfl

/-- A request that creates nothing is refused for want of a record, and for nothing else. -/
theorem reply_eq_refused_iff (h : q.first? = none) {found : Option UploadRecord}
    {fault : StoreFault} :
  q.reply found = .refused fault ↔ found = none ∧ fault = .notFound q.id
  := by
  cases found with
  | none =>
    rw [reply, h]
    simp [eq_comm]
  | some r =>
    refine iff_of_false ?_ nofun
    rw [reply]
    cases q with
    | create => cases h
    | revise id edit =>
      rw [answer]
      split
      · nofun
      · nofun
    | saveResults | balance | listIssues => nofun

end Request

/-- The store after a request, and what is answered. -/
def perform (s : Store) : Request → Store × StoreOutcome
  | .create upload => written s (s.create upload)
  | .revise id edit =>
    match s.revise id edit with
    | .ok (t, none) => (t, .done)
    | .ok (t, some message) => (t, .brokenOff message)
    | .error f => (s, .refused f)
  | .saveResults id balance issues counts => written s (s.saveResults id balance issues counts)
  | .balance id =>
    match s.balance id with
    | .ok (balance, upload) => (s, .balance balance upload)
    | .error f => (s, .refused f)
  | .listIssues id filter page =>
    match s.listIssues id filter page with
    | .ok slice => (s, .issues slice)
    | .error f => (s, .refused f)

/-- A new store after some requests. -/
def after (past : List Request) : Store :=
  past.foldl (fun s q => (s.perform q).1) {}

/-- The identities that some requests were to create records for. -/
def asked (past : List Request) : List String :=
  past.filterMap (fun q => q.first?.map fun _ => q.id)

/-- Some requests to a new store have created a record: one of them was to create it, and was
answered with success. -/
def Created (past : List Request) (id : String) : Prop :=
  ∃ earlier upload later, past = earlier ++ .create upload :: later ∧ upload.id = id ∧
    ((after earlier).perform (.create upload)).2 = .done

variable {s t : Store} {p q : Request} {past : List Request} {id : String} {r : UploadRecord}

/-! ### One request -/

/-- Where there is no record, a request creates one or is refused. -/
theorem perform_of_none (hs : s.get? q.id = none) :
  s.perform q =
    match q.first? with
    | some r => ({ records := s.records.add q.id r }, .done)
    | none => (s, .refused (.notFound q.id))
  := by
  cases q with
  | create upload =>
    have hcreate : s.create upload = .ok _ := create_eq_ok_iff.2 ⟨hs, rfl⟩
    rw [perform, hcreate]
    rfl
  | revise | saveResults | balance | listIssues =>
    simp only [Request.id] at hs
    simp [perform, written, revise, saveResults, Store.balance, listIssues, find, hs, bind,
      Except.bind, Request.id, Request.first?]

/-- A record that is there is replaced, or stays as it is. -/
theorem perform_of_some (hs : s.get? q.id = some r) :
  s.perform q = ((q.next? r).elim s (s.replace q.id), q.answer r)
  := by
  cases q with
  | create upload =>
    simp only [Request.id] at hs
    rw [perform, create, hs]
    rfl
  | revise id edit =>
    simp only [Request.id] at hs
    rw [perform, revise, find, hs, Request.next?, Request.answer]
    simp only [bind, Except.bind]
    cases edit r.upload with
    | completed => rfl
    | panicked => rfl
  | saveResults id amount issues counts =>
    simp only [Request.id] at hs
    rw [perform, saveResults_of_get? hs]
    rfl
  | balance id =>
    simp only [Request.id] at hs
    rw [perform, Store.balance, find, hs]
    rfl
  | listIssues id filter page =>
    simp only [Request.id] at hs
    rw [perform, listIssues, find, hs]
    rfl

/-- What a request is answered depends on the record of its identity. -/
theorem perform_reply (s : Store) (q : Request) :
  (s.perform q).2 = q.reply (s.get? q.id)
  := by
  cases hs : s.get? q.id with
  | none =>
    rw [perform_of_none hs, Request.reply]
    cases q.first? with
    | none => rfl
    | some r => rfl
  | some r =>
    rw [perform_of_some hs]
    rfl

/-- A request changes no record but that of its identity. -/
theorem get?_perform (s : Store) (q : Request) (id : String) :
  (s.perform q).1.get? id = if id = q.id then q.record (s.get? q.id) else s.get? id
  := by
  cases hs : s.get? q.id with
  | none =>
    rw [perform_of_none hs, Request.record]
    cases q.first? with
    | none =>
      dsimp only
      split
      · next hid => rw [hid, hs]
      · rfl
    | some r =>
      dsimp only
      split
      · next hid =>
        rw [hid]
        exact Keyed.get?_add_self hs r
      · next hid => exact Keyed.get?_add_of_ne hid r
  | some r =>
    rw [perform_of_some hs, Request.record]
    cases q.next? r with
    | none =>
      split
      · next hid =>
        rw [hid]
        exact hs
      · rfl
    | some r' => exact get?_replace hs r' id

/-- What is not answered with success has left the store as it is: the request was refused, or broke
off, or was a question. -/
theorem perform_of_ne_done (h : (s.perform q).2 ≠ .done) :
  (s.perform q).1 = s
  := by
  cases hs : s.get? q.id with
  | none =>
    rw [perform_of_none hs] at h ⊢
    cases hfirst : q.first? with
    | none => rfl
    | some r =>
      rw [hfirst] at h
      exact absurd rfl h
  | some r =>
    rw [perform_of_some hs] at h ⊢
    cases q with
    | create | balance | listIssues => rfl
    | saveResults => exact absurd rfl h
    | revise id edit =>
      rw [Request.answer] at h
      rw [Request.next?]
      cases hedit : edit r.upload with
      | completed upload =>
        rw [hedit] at h
        exact absurd rfl h
      | panicked => rfl

/-- Any request but one to create a record is refused exactly if there is no record. -/
theorem refused_iff (s : Store) (hq : ∀ upload, q ≠ .create upload) {fault : StoreFault} :
  (s.perform q).2 = .refused fault ↔ s.get? q.id = none ∧ fault = .notFound q.id
  := by
  rw [perform_reply]
  exact Request.reply_eq_refused_iff (Request.first?_eq_none hq)

/-- An edit that is completed changes what is known of the upload. -/
theorem perform_revise {edit : Upload → Edit} {upload : Upload} (hr : s.get? id = some r)
    (hedit : edit r.upload = .completed upload) :
  (s.perform (.revise id edit)).2 = .done ∧
  (s.perform (.revise id edit)).1.get? id = some { r with upload }
  := by
  rw [perform_of_some (q := .revise id edit) hr, Request.answer, Request.next?, hedit]
  exact ⟨rfl, (get?_replace hr _ id).trans (if_pos rfl)⟩

/-- An edit that breaks off leaves no trace. -/
theorem perform_revise_panicked {edit : Upload → Edit} {upload : Upload} {message : String}
    (hr : s.get? id = some r) (hedit : edit r.upload = .panicked upload message) :
  s.perform (.revise id edit) = (s, .brokenOff message)
  := by
  rw [perform_of_some (q := .revise id edit) hr, Request.answer, Request.next?, hedit]
  rfl

/-- Results that are saved change the balance, the issues and the counts. -/
theorem perform_saveResults (hr : s.get? id = some r) (amount : Amount)
    (issues : List Transaction) (counts : LineCounts) :
  (s.perform (.saveResults id amount issues counts)).2 = .done ∧
  (s.perform (.saveResults id amount issues counts)).1.get? id
    = some { upload := { r.upload with counts }, balance := amount, issues }
  := by
  rw [perform_of_some (q := .saveResults id amount issues counts) hr]
  exact ⟨rfl, (get?_replace hr _ id).trans (if_pos rfl)⟩

/-- The identities of the records are those that were there, and that of a record just created. -/
theorem keys_perform (s : Store) (q : Request) :
  (s.perform q).1.records.map Prod.fst
    = s.records.map Prod.fst ++
      if s.get? q.id = none then (q.first?.map fun _ => q.id).toList else []
  := by
  cases hs : s.get? q.id with
  | none =>
    rw [perform_of_none hs, if_pos rfl]
    cases q.first? with
    | none => exact (List.append_nil _).symm
    | some r => exact Keyed.keys_add s.records q.id r
  | some r =>
    rw [perform_of_some hs, if_neg nofun, List.append_nil]
    cases q.next? r with
    | none => rfl
    | some r' => exact Keyed.keys_modify s.records q.id (fun _ => r')

/-- The number of records after a request depends on the record of its identity. -/
theorem size_perform (s : Store) (q : Request) :
  (s.perform q).1.size
    = s.size + if s.get? q.id = none then q.first?.toList.length else 0
  := by
  have hlength := congrArg List.length (s.keys_perform q)
  rw [List.length_append, List.length_map, List.length_map] at hlength
  rw [size, size, hlength]
  split
  · cases q.first? with
    | none => rfl
    | some r => rfl
  · rfl

/-! ### Two requests -/

/-- Of two requests about different identities, neither is answered differently because of the
other, and whichever comes first the records are the same in the end. -/
theorem perform_comm (s : Store) (h : p.id ≠ q.id) :
  ((s.perform p).1.perform q).2 = (s.perform q).2 ∧
  ((s.perform p).1.perform q).1.size = ((s.perform q).1.perform p).1.size ∧
  ∀ id, ((s.perform p).1.perform q).1.get? id = ((s.perform q).1.perform p).1.get? id
  := by
  have hq : (s.perform p).1.get? q.id = s.get? q.id := by
    rw [get?_perform, if_neg h.symm]
  have hp : (s.perform q).1.get? p.id = s.get? p.id := by
    rw [get?_perform, if_neg h]
  refine ⟨?_, ?_, fun id => ?_⟩
  · rw [perform_reply, perform_reply, hq]
  · rw [size_perform, size_perform, size_perform, size_perform, hq, hp]
    omega
  · rw [get?_perform _ q, hq, get?_perform s p, get?_perform _ p, hp, get?_perform s q]
    by_cases hid : id = q.id
    · rw [if_pos hid, if_neg (fun hid' => h (hid'.symm.trans hid)), if_pos hid]
    · rw [if_neg hid, if_neg hid]

/-! ### Many requests -/

theorem after_concat (past : List Request) (q : Request) :
  after (past ++ [q]) = ((after past).perform q).1
  := by
  rw [after, List.foldl_append]
  rfl

theorem asked_concat (past : List Request) (q : Request) :
  asked (past ++ [q]) = asked past ++ (q.first?.map fun _ => q.id).toList
  := by
  rw [asked, List.filterMap_append, ← asked]
  cases h : q.first?.map fun _ => q.id with
  | none => simp [h]
  | some id => simp [h]

/-- There is a record for each identity that one was asked for, and for no other. -/
theorem isSome_get?_after (past : List Request) (id : String) :
  ((after past).get? id).isSome ↔ id ∈ asked past
  := by
  induction past using List.reverseRecOn with
  | nil => exact ⟨nofun, nofun⟩
  | append_singleton past q ih =>
    rw [after_concat, asked_concat, List.mem_append, ← ih, get?_perform]
    by_cases hid : id = q.id
    · subst hid
      rw [if_pos rfl]
      cases (after past).get? q.id with
      | none =>
        rw [Request.record]
        cases q.first? with
        | none => simp
        | some r => simp
      | some r => simp [Request.record]
    · rw [if_neg hid]
      cases q.first? with
      | none => simp
      | some r => simp [hid]

/-- No identity has two records. -/
theorem nodup_keys_after (past : List Request) :
  ((after past).records.map Prod.fst).Nodup
  := by
  induction past using List.reverseRecOn with
  | nil => exact List.nodup_nil
  | append_singleton past q ih =>
    rw [after_concat, keys_perform]
    split
    · next hnone =>
      cases q.first? with
      | none => simpa using ih
      | some r =>
        refine (List.perm_append_singleton _ _).nodup_iff.2 (List.nodup_cons.2 ⟨?_, ih⟩)
        exact Keyed.get?_eq_none_iff.1 hnone
    · rw [List.append_nil]
      exact ih

/-- There are as many records as identities that one was asked for. -/
theorem size_after (past : List Request) :
  (after past).size = (asked past).dedup.length
  := by
  rw [size, ← List.length_map Prod.fst]
  apply List.Perm.length_eq
  rw [List.perm_ext_iff_of_nodup (nodup_keys_after past) (List.nodup_dedup _)]
  intro id
  rw [List.mem_dedup, ← isSome_get?_after]
  exact Keyed.isSome_get?_iff.symm

/-- Where a record was asked for, one was created. -/
theorem mem_asked_iff :
  id ∈ asked past ↔ Created past id
  := by
  constructor
  · induction past using List.reverseRecOn with
    | nil => exact nofun
    | append_singleton past q ih =>
      intro hid
      by_cases hpast : id ∈ asked past
      · obtain ⟨earlier, upload, later, rfl, hrest⟩ := ih hpast
        exact ⟨earlier, upload, later ++ [q], by simp, hrest⟩
      · -- The last request is the first to ask for this record, so it creates it.
        rw [asked_concat, List.mem_append] at hid
        have hlast := hid.resolve_left hpast
        cases q with
        | create upload =>
          have hupload : id = upload.id := List.mem_singleton.1 hlast
          rw [hupload, ← isSome_get?_after, Option.not_isSome_iff_eq_none] at hpast
          refine ⟨past, upload, [], rfl, hupload.symm, ?_⟩
          rw [perform_of_none (q := .create upload) hpast]
          rfl
        | revise | saveResults | balance | listIssues => cases hlast
  · rintro ⟨earlier, upload, later, rfl, rfl, -⟩
    rw [asked, List.mem_filterMap]
    exact ⟨.create upload, by simp, rfl⟩

/-- A record is there exactly if it was created. -/
theorem get?_after_eq_none_iff :
  (after past).get? id = none ↔ ¬ Created past id
  := by
  rw [← mem_asked_iff, ← isSome_get?_after, Option.not_isSome_iff_eq_none]

/-- No record disappears. -/
theorem isSome_get?_perform (past : List Request) (q : Request)
    (h : ((after past).get? id).isSome) :
  (((after past).perform q).1.get? id).isSome
  := by
  rw [isSome_get?_after] at h
  rw [← after_concat, isSome_get?_after, asked_concat]
  exact List.mem_append_left _ h

/-- A record is created unless one was asked for before. -/
theorem perform_create (past : List Request) (upload : Upload) :
  if upload.id ∈ asked past then
    ((after past).perform (.create upload)).2 = .refused (.conflict upload.id)
  else
    ((after past).perform (.create upload)).2 = .done ∧
    ((after past).perform (.create upload)).1.get? upload.id = some { upload }
  := by
  split
  · next hasked =>
    obtain ⟨r, hr⟩ := Option.isSome_iff_exists.1 ((isSome_get?_after past upload.id).2 hasked)
    rw [perform_of_some (q := .create upload) hr]
    rfl
  · next hasked =>
    rw [mem_asked_iff, ← get?_after_eq_none_iff] at hasked
    rw [perform_of_none (q := .create upload) hasked]
    exact ⟨rfl, Keyed.get?_add_self hasked _⟩

/-- Whatever has been asked of a new store, a request that is refused, breaks off or asks a question
leaves the store as it is, and one that succeeds changes the record of its identity alone: what is
known of the upload if it revises, and the balance, the issues and the counts if it saves results.
An edit of a record that panics is told as such, whatever it has changed of the upload by then.
No record disappears.  Of all requests to create a record the first succeeds and no other; any other
request fails to find the record exactly if none was created.  There are as many records as
identities that one was asked for, and requests about two identities can change places. -/
theorem perform_frame (past : List Request) (q : Request) :
  let s := after past
  let t := (s.perform q).1
  let answer := (s.perform q).2
  (answer ≠ .done → t = s) ∧
  (∀ id ≠ q.id, t.get? id = s.get? id) ∧
  (∀ id, (s.get? id).isSome → (t.get? id).isSome) ∧
  (∀ upload, q = .create upload →
    if upload.id ∈ asked past then answer = .refused (.conflict upload.id)
    else answer = .done ∧ t.get? upload.id = some { upload }) ∧
  ((∀ upload, q ≠ .create upload) →
    (answer = .refused (.notFound q.id) ↔ ¬ Created past q.id) ∧
    ∀ fault, answer = .refused fault → fault = .notFound q.id) ∧
  (∀ id edit r upload, q = .revise id edit → s.get? id = some r →
    edit r.upload = .completed upload →
    answer = .done ∧ t.get? id = some { r with upload }) ∧
  (∀ id edit r upload message, q = .revise id edit → s.get? id = some r →
    edit r.upload = .panicked upload message → answer = .brokenOff message ∧ t = s) ∧
  (∀ id amount issues counts r, q = .saveResults id amount issues counts → s.get? id = some r →
    answer = .done ∧
    t.get? id = some { upload := { r.upload with counts }, balance := amount, issues }) ∧
  s.size = (asked past).dedup.length ∧
  ∀ p : Request, p.id ≠ q.id →
    ((s.perform p).1.perform q).2 = answer ∧ (t.perform p).2 = (s.perform p).2 ∧
    ((s.perform p).1.perform q).1.size = (t.perform p).1.size ∧
    ∀ id, ((s.perform p).1.perform q).1.get? id = (t.perform p).1.get? id
  := by
  intro s t answer
  refine ⟨perform_of_ne_done, fun id hid => (get?_perform s q id).trans (if_neg hid),
    fun id => isSome_get?_perform past q, ?_, fun hq => ?_, ?_, ?_, ?_, size_after past,
    fun p hpq => ?_⟩
  · rintro upload rfl
    exact perform_create past upload
  · rw [← get?_after_eq_none_iff]
    exact ⟨(s.refused_iff hq).trans (and_iff_left rfl), fun fault hfault =>
      ((s.refused_iff hq).1 hfault).2⟩
  · rintro id edit r upload rfl hr hedit
    exact perform_revise hr hedit
  · rintro id edit r upload message rfl hr hedit
    have hperform := perform_revise_panicked hr hedit
    exact ⟨congrArg Prod.snd hperform, congrArg Prod.fst hperform⟩
  · rintro id amount issues counts r rfl hr
    exact perform_saveResults hr amount issues counts
  · obtain ⟨hanswer, hsize, hrecords⟩ := perform_comm s hpq
    exact ⟨hanswer, (perform_comm s hpq.symm).1, hsize, hrecords⟩

end Reconciliation.Store
