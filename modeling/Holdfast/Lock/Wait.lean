import Holdfast.Lock

namespace Holdfast.Lock

open Store

/-- Waiting for a lock: an attempt at once, then one after each pause, until the deadline if there
is one. -/
structure Wait where
  deadline : Option Nat
  sleep : Nat
deriving DecidableEq, Repr

/-- Where a wait stands. -/
inductive Wait.Phase
  | attempting
  | pausing (due : Nat)
  | over (result : Except LockError (Option Handle))
deriving Repr

namespace Wait

/-- Before an attempt a wait looks whether it has been cancelled. -/
def attemptUnless (isCancelled : Bool) : Phase :=
  if isCancelled then .over (.error .cancelled) else .attempting

/-- The pause ends at the deadline where that is nearer. -/
def pause (w : Wait) (now : Nat) : Phase :=
  match w.deadline with
  | none => .pausing (now + w.sleep)
  | some deadline =>
    if deadline ≤ now then .over (.ok none) else .pausing (min (now + w.sleep) deadline)

/-- A failure counts as an attempt that did not win. -/
def attempted (w : Wait) (now : Nat) : Except Failure (Option Handle) → Phase
  | .ok (some h) => .over (.ok (some h))
  | .ok none | .error _ => w.pause now

/-- A pause ends when its time is over, or at once when the wait is cancelled. -/
def wake? (now due : Nat) (isCancelled : Bool) : Option Phase :=
  if isCancelled then some (.over (.error .cancelled))
  else if due ≤ now then some .attempting
  else none

end Wait
end Holdfast.Lock
