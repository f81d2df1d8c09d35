import Reconciliation.Fault

/-!
# Pages

A list is shown in pages, numbered from 1.  `Page.slice` cuts a page out of a list.  The
positions of a page are computed in 64-bit words and stay at the largest word where they
would exceed it.
-/

namespace Reconciliation

/-- A page of a list: its number, from 1, and the number of elements on a page. -/
structure Page where
  number : Nat
  size : Nat
  deriving DecidableEq, Repr

namespace Page

/-- The largest page that a caller can ask for. -/
def sizeLimit : Nat := 100

/-- The first page, of the usual size. -/
def first : Page := { number := 1, size := 10 }

/-- The page that a caller asks for. -/
def ask (number size : Nat) : Except Fault Page :=
  if number < 1 then .error (.invalidInput "invalid page")
  else if size < 1 then .error (.invalidInput "invalid page_size")
  else .ok { number, size := min size sizeLimit }

/-- The largest 64-bit word. -/
def wordMax : Nat := 0xFFFFFFFFFFFFFFFF

/-- The position of the first element of a page. -/
def start (p : Page) : Nat :=
  min ((p.number - 1) * p.size) wordMax

/-- The position after the last element of a page. -/
def stop (p : Page) : Nat :=
  min (p.start + p.size) wordMax

/-- The elements of a list at the positions of a page, in one pass that counts the elements
gone by. -/
def sliceFrom {α : Type} (p : Page) (position : Nat) : List α → List α
  | [] => []
  | x :: rest =>
    if p.start ≤ position ∧ position < p.stop then x :: p.sliceFrom (position + 1) rest
    else p.sliceFrom (position + 1) rest

/-- The elements of a list that stand on a page. -/
def slice {α : Type} (p : Page) (list : List α) : List α :=
  p.sliceFrom 0 list

end Page

end Reconciliation
