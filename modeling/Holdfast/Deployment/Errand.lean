import Holdfast.Deployment.Borrowing

namespace Holdfast

open Store

namespace Deployment

/-- The pool that serves a key at present. -/
def poolFor? (d : Deployment) (router : Nat) (key : Bytes) : Option Nat := do
  let r ← d.routers[router]?
  r.pools[r.locate key]?

/-- Asks the shard that owns a key for a connection. -/
def startErrand (d : Deployment) (router : Nat) (key : Bytes) (aim : Lock.Aim) :
    Deployment × Errand :=
  match d.poolFor? router key with
  | some pool =>
    let (d, b) := d.borrow pool
    (d, .borrowing b aim)
  | none => (d, .over (aim.refused mismatch))

/-- A fresh attempt to take a lock. -/
def startAttempt (d : Deployment) (l : PlacedLock) : Deployment × Errand :=
  d.startErrand l.router l.lock.key (.attempt l.lock)

/-- A handle of another lock is not talked about at all. -/
def startRelease (d : Deployment) (l : PlacedLock) (h : Lock.Handle) : Deployment × Errand :=
  if h.key = l.lock.key then d.startErrand l.router l.lock.key (.release h)
  else (d, .over (.release { handle := h, phase := .over (.ok false) }))

def startProbe (d : Deployment) (l : PlacedLock) : Deployment × Errand :=
  d.startErrand l.router l.lock.key (.probe l.lock.key)

/-- The connection comes back when the talk is over, marked where a call has failed. -/
def endErrand (d : Deployment) (lent : Lent) (talk : Lock.Talk) : Deployment × Errand :=
  let loan := if talk.hasFailed then lent.loan.markBroken else lent.loan
  (d.restore { lent with loan }, .over talk)

/-- One step of an errand, or none while it waits or when it is over. -/
def stepErrand (d : Deployment) : Errand → Option (Deployment × Errand)
  | .over _ => none
  | .borrowing b aim =>
    match b.result? with
    | some (.ok lent) => some (d.spendOwner, .talking lent none (aim.talk d.moment))
    | some (.error f) => some (d, .over (aim.refused f))
    | none => do
      let (d, b) ← d.stepBorrowing b
      return (d, .borrowing b aim)
  | .talking lent none talk =>
    match talk.call? with
    | none => some (d.endErrand lent talk)
    | some request =>
      let loan := lent.loan.before request
      let (d, conn, flight) := d.send loan.conn request
      some (d, .talking { lent with loan := { loan with conn } } (some flight) talk)
  | .talking lent (some flight) talk =>
    if d.hasLanded flight then
      let o := d.outcome flight
      let loan := match talk.call? with
        | some request => lent.loan.after request o
        | none => lent.loan
      some (d.spendOwner, .talking { lent with loan } none (talk.resume d.moment o))
    else none

/-- Gives an errand up; its connection comes back as it is. -/
def abandonErrand (d : Deployment) : Errand → Deployment
  | .borrowing b _ => d.abandonBorrowing b
  | .talking lent _ _ => d.restore lent
  | .over _ => d

end Deployment

namespace Errand

def due? : Errand → Option Nat
  | .borrowing b _ => b.due?
  | .talking _ flight _ => flight.map Flight.due
  | .over _ => none

def talk? : Errand → Option Lock.Talk
  | .over talk => some talk
  | _ => none

end Errand
end Holdfast
