import Reconciliation.Proofs.Keyed
import Reconciliation.Store

/-!
# Records under the operations of a store

What each operation that succeeds does to the record of every identity: it changes the record
of its own identity, in a way that is spelled out, and no other one.
-/

namespace Reconciliation.Store

/-- A replaced record shows at its own identity and at no other. -/
theorem get?_replace {s : Store} {id : String} {r : UploadRecord} (h : s.get? id = some r)
    (r' : UploadRecord) (id' : String) :
  (s.replace id r').get? id' = if id' = id then some r' else s.get? id'
  := Keyed.get?_modify h (fun _ => r') id'

/-- A new upload takes an identity that was free, and its record is the one of an upload just
accepted. -/
theorem create_eq_ok_iff {s s' : Store} {u : Upload} :
  s.create u = .ok s'
    ↔ s.get? u.id = none ∧ s' = { records := s.records.add u.id { upload := u } }
  := by
  unfold create
  cases s.get? u.id with
  | none => simp [eq_comm]
  | some r => simp

theorem get?_create_self {s s' : Store} {u : Upload} (h : s.create u = .ok s') :
  s'.get? u.id = some { upload := u }
  := by
  obtain ⟨hfree, rfl⟩ := create_eq_ok_iff.1 h
  exact Keyed.get?_add_self hfree _

theorem get?_create_of_ne {s s' : Store} {u : Upload} (h : s.create u = .ok s') {id : String}
    (hid : id ≠ u.id) :
  s'.get? id = s.get? id
  := by
  obtain ⟨-, rfl⟩ := create_eq_ok_iff.1 h
  exact Keyed.get?_add_of_ne hid _

/-- Saving results finds the record and replaces its balance, its issues and its counts. -/
theorem saveResults_of_get? {s : Store} {id : String} {r : UploadRecord}
    (h : s.get? id = some r) (balance : Amount) (issues : List Transaction)
    (counts : LineCounts) :
  s.saveResults id balance issues counts
    = .ok (s.replace id { upload := { r.upload with counts }, balance, issues })
  := by
  simp [saveResults, find, h, bind, Except.bind, pure, Except.pure]

/-- A revision that is completed replaces what is known of the upload. -/
theorem revise_of_get? {s : Store} {id : String} {r : UploadRecord} (h : s.get? id = some r)
    (change : Upload → Upload) :
  s.revise id (fun u => .completed (change u))
    = .ok (s.replace id { r with upload := change r.upload }, none)
  := by
  simp [revise, find, h, bind, Except.bind, pure, Except.pure]

end Reconciliation.Store
