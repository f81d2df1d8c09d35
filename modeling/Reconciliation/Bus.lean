import Reconciliation.Party
import Reconciliation.Transaction

/-!
# The notice bus

The bus carries notices from publishers to takers, first in, first out, each notice to one
taker.  It holds a limited number of notices; publishers wait while it is full, takers while
it is empty, both in the order of their arrival.  A publisher gives up when its token fires.

A closed bus refuses new publishers.  Those that already wait may still be served, so the bus
has ended, for takers, only when it is closed and empty and no publisher waits.

Each operation is possible only in certain states; where it is not, it is `none`.
-/

namespace Reconciliation

/-- A publisher that waits for room. -/
structure Offer where
  publisher : Party
  token : Token
  notice : Notice
  deriving DecidableEq, Repr

/-- A queue of notices, with those that wait at its two ends. -/
structure Bus where
  capacity : Nat
  /-- The publishers that wait, in the order of their arrival. -/
  offers : List Offer := []
  /-- The notices on their way. -/
  queue : List Notice := []
  /-- The takers that wait, in the order of their arrival. -/
  takers : List Party := []
  isOpen : Bool := true
  /-- The tokens that have fired. -/
  fired : List Token := []
  deriving DecidableEq, Repr

namespace Bus

/-- The empty bus for so many notices, one at least. -/
def ofCapacity (n : Nat) : Bus :=
  { capacity := max n 1 }

/-- The steps of publishers and takers. -/
inductive Action where
  /-- A publisher arrives. -/
  | publish (publisher : Party) (token : Token) (notice : Notice)
  /-- The notice of the first publisher finds room. -/
  | accept (publisher : Party)
  /-- A publisher whose token has fired gives up. -/
  | withdraw (publisher : Party)
  /-- A taker arrives. -/
  | next (taker : Party)
  /-- The first taker takes the first notice. -/
  | take (taker : Party)
  /-- The first taker learns that there will be no more notices. -/
  | finish (taker : Party)
  | close
  | fire (token : Token)
  deriving DecidableEq, Repr

/-- The publisher or taker that acts. -/
def Action.party? : Action → Option Party
  | .publish p _ _ | .accept p | .withdraw p | .next p | .take p | .finish p => some p
  | .close | .fire _ => none

/-- The answers that publishers and takers get. -/
inductive Reply where
  | published
  | closed
  | canceled
  | delivered (notice : Notice)
  | ended
  deriving DecidableEq, Repr

/-- The bus with one more publisher; a closed bus refuses it. -/
def publish (b : Bus) (publisher : Party) (token : Token) (notice : Notice) :
    Bus × Option Reply :=
  if b.isOpen then ({ b with offers := b.offers ++ [{ publisher, token, notice }] }, none)
  else (b, some .closed)

/-- The bus once the notice of its first publisher is queued. -/
def accept? (b : Bus) (publisher : Party) : Option Bus :=
  match b.offers with
  | [] => none
  | o :: offers =>
    if o.publisher = publisher ∧ b.queue.length < b.capacity then
      some { b with offers, queue := b.queue ++ [o.notice] }
    else none

/-- The bus without a publisher whose token has fired. -/
def withdraw? (b : Bus) (publisher : Party) : Option Bus :=
  match b.offers.find? (fun o => o.publisher == publisher) with
  | none => none
  | some o =>
    if o.token ∈ b.fired then
      some { b with offers := b.offers.eraseP (fun o => o.publisher == publisher) }
    else none

/-- The bus with one more taker. -/
def next (b : Bus) (taker : Party) : Bus :=
  { b with takers := b.takers ++ [taker] }

/-- The first notice, and the bus once its first taker has taken it. -/
def take? (b : Bus) (taker : Party) : Option (Notice × Bus) :=
  match b.takers, b.queue with
  | t :: takers, n :: queue =>
    if t = taker then some (n, { b with takers, queue }) else none
  | _, _ => none

/-- A bus that will carry no more notices. -/
def hasEnded (b : Bus) : Bool :=
  !b.isOpen && b.offers.isEmpty && b.queue.isEmpty

/-- The bus without its first taker, who has learnt that the bus has ended. -/
def finish? (b : Bus) (taker : Party) : Option Bus :=
  match b.takers with
  | [] => none
  | t :: takers => if t = taker ∧ b.hasEnded then some { b with takers } else none

/-- The bus that refuses new publishers. -/
def close (b : Bus) : Bus :=
  { b with isOpen := false }

/-- The bus once a token has fired. -/
def fire (b : Bus) (token : Token) : Bus :=
  { b with fired := token :: b.fired }

/-- The bus after an action, and the answer that the acting party gets. -/
def apply (b : Bus) : Action → Option (Bus × Option Reply)
  | .publish p token notice => some (b.publish p token notice)
  | .accept p => (b.accept? p).map (·, some .published)
  | .withdraw p => (b.withdraw? p).map (·, some .canceled)
  | .next p => some (b.next p, none)
  | .take p => (b.take? p).map (fun (n, b) => (b, some (.delivered n)))
  | .finish p => (b.finish? p).map (·, some .ended)
  | .close => some (b.close, none)
  | .fire token => some (b.fire token, none)

/-- The parties that wait at the bus. -/
def waiting (b : Bus) : List Party :=
  b.offers.map Offer.publisher ++ b.takers

/-- What a party that waits at the bus may do. -/
def options (p : Party) : List Action :=
  [.accept p, .withdraw p, .take p, .finish p]

/-- A bound on the number of actions that waiting parties can still take. -/
def work (b : Bus) : Nat :=
  b.offers.length + b.takers.length

end Bus

end Reconciliation
