import Holdfast.Deployment.Line

namespace Holdfast

open Store

namespace Deployment

/-- Whether an answer has arrived. -/
def hasLanded (d : Deployment) (f : Flight) : Bool := f.due ≤ d.now

/-- Puts a pool and a checkout from it back in their places. -/
def settleBorrowing (d : Deployment) (id : Nat) (next : Pool Link × Checkout Link) :
    Deployment × Borrowing :=
  (d.setPool id next.1, { pool := id, checkout := next.2 })

/-- Begins a checkout from a pool. -/
def borrow (d : Deployment) (id : Nat) : Deployment × Borrowing :=
  match d.pools[id]? with
  | some p => d.settleBorrowing id (Checkout.start p d.now)
  | none => (d, { pool := id, checkout := Checkout.fail mismatch })

/-- One step of a checkout, or none while it waits or when it is over. -/
def stepBorrowing (d : Deployment) (b : Borrowing) : Option (Deployment × Borrowing) := do
  let p ← d.pools[b.pool]?
  match b.checkout, b.flight with
  | .over _, _ => none
  | .queued ticket deadline, _ =>
    let next ← Checkout.wake? p d.now ticket deadline
    return d.settleBorrowing b.pool next
  | .testing conn, none =>
    let (d, conn, flight) := d.send conn .ping
    return (d, { b with checkout := .testing conn, flight := some flight })
  | .testing conn, some flight =>
    if d.hasLanded flight then
      return d.settleBorrowing b.pool (Checkout.tested p conn (d.outcome flight))
    else none
  | .opening, none =>
    let (d, flight) := d.dial p.backend p.endpoint
    return (d, { b with flight := some flight })
  | .opening, some flight =>
    if d.hasLanded flight then
      let (d, r) := d.connected flight
      return d.settleBorrowing b.pool (Checkout.opened p r)
    else none

/-- Gives a checkout up, wherever it stands. -/
def abandonBorrowing (d : Deployment) (b : Borrowing) : Deployment :=
  d.modifyPool b.pool fun p => Checkout.abandon p b.checkout

/-- Ends a loan. -/
def restore (d : Deployment) (l : Lent) : Deployment := d.modifyPool l.pool (·.restore l.loan)

end Deployment

namespace Borrowing

/-- When a checkout that waits goes on at the latest. -/
def due? (b : Borrowing) : Option Nat :=
  match b.checkout with
  | .queued _ deadline => some deadline
  | _ => b.flight.map Flight.due

def result? (b : Borrowing) : Option (Except Failure Lent) :=
  match b.checkout with
  | .over r => some (r.map fun loan => ⟨b.pool, loan⟩)
  | _ => none

end Borrowing
end Holdfast
