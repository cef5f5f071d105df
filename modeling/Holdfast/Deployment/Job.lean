import Holdfast.Deployment.Waiting
import Holdfast.Deployment.Watching

namespace Holdfast

open Store

namespace Deployment

def stepRequest (d : Deployment) (r : Request) : Option (Deployment × Request) :=
  match r.outcome, r.flight with
  | some _, _ => none
  | none, none =>
    let (d, link, flight) := d.send r.link r.call
    some (d, { r with link, flight := some flight })
  | none, some flight =>
    if d.hasLanded flight then some (d, { r with outcome := some (d.outcome flight) }) else none

/-- One step of a job, or none while it waits or when it is over. -/
def stepJob (d : Deployment) : Job → Option (Deployment × Job)
  | .borrow b => (d.stepBorrowing b).map fun (d, b) => (d, .borrow b)
  | .errand e => (d.stepErrand e).map fun (d, e) => (d, .errand e)
  | .wait w => (d.stepWaiting w).map fun (d, w) => (d, .wait w)
  | .request r => (d.stepRequest r).map fun (d, r) => (d, .request r)
  | .attend id index =>
    match d.monitors[id]? with
    | some m =>
      if index < m.listeners.length && m.isAttended index then some (d, .attend id (index + 1))
      else none
    | none => none
  | .farewell _ | .idle => none

def isOver (d : Deployment) : Job → Bool
  | .borrow b => b.result?.isSome
  | .errand (.over _) => true
  | .wait { phase := .over _, .. } => true
  | .request r => r.outcome.isSome
  | .attend id index => (d.monitors[id]?.map fun m => decide (m.listeners.length ≤ index)).getD true
  | .farewell id => (d.monitors[id]?.map Monitor.hasEnded).getD true
  | _ => false

/-- Drops a job, with all that it holds. -/
def abandon (d : Deployment) : Job → Deployment
  | .borrow b => d.abandonBorrowing b
  | .errand e => d.abandonErrand e
  | .wait w => d.abandonWaiting w
  | _ => d

end Deployment

/-- The handle of a lock that a waiting caller has got in the end. -/
def Job.won? : Job → Option Lock.Handle
  | wait { phase := .over (.ok h), .. } => h
  | _ => none

/-- When a job that waits goes on by itself. -/
def Job.due? : Job → Option Nat
  | borrow b => b.due?
  | errand e => e.due?
  | wait w => w.due?
  | request r => r.flight.map Flight.due
  | _ => none

end Holdfast
