import Holdfast.Deployment.Line
import Holdfast.Failover.Switch

namespace Holdfast

open Failover Store

namespace Deployment

def applySwitch (d : Deployment) (router : Nat) (payload : String) : Deployment :=
  match d.routers[router]? with
  | none => d
  | some r =>
    let (pools, r) := r.applySwitch d.pools payload
    { d with pools, routers := d.routers.set router r }

/-- Lets go of the stream that a listener holds. -/
def hangUp (d : Deployment) (l : Listener Stream) : Deployment :=
  match l.stream? with
  | some s => d.unsubscribe s
  | none => d

/-- What a listener does next that nobody stops, or none while it waits or when it has
terminated. -/
def carryOn (d : Deployment) (m : Monitor) (l : Listener Stream) :
    Option (Deployment × Listener Stream) :=
  match l.phase with
  | .starting => some (d, { l with phase := .subscribing })
  | .subscribing =>
    let (d, due, answer) := d.subscribe m.backend l.peer channel
    some (d, { l with phase := .asking due answer })
  | .asking due answer =>
    if due ≤ d.now then some (d, { l with phase := Listener.subscribed m.backoff d.now answer })
    else none
  | .listening s =>
    match d.hear s with
    | (.nothing, _) => none
    | (.message payload, s) =>
      some (d.applySwitch m.router payload, { l with phase := .listening s })
    | (.ended, s) => some (d.unsubscribe s, { l with phase := Listener.lost m.backoff d.now })
  | .pausing due => if due ≤ d.now then some (d, { l with phase := .subscribing }) else none
  | .terminated => none

/-- One step of a listener, or none while it waits or when it has terminated. Wherever it waits, a
cancellation ends it. -/
def stepListener (d : Deployment) (m : Monitor) (l : Listener Stream) :
    Option (Deployment × Listener Stream) :=
  if m.isCancelled && l.isWaiting then some (d.hangUp l, { l with phase := .terminated })
  else d.carryOn m l

/-- Starts a listener on every peer. -/
def watch (d : Deployment) (b : Backend) (router : Nat) (peers : List Endpoint) (backoff : Nat) :
    Deployment × Nat :=
  let m : Monitor := { router, backend := b, backoff, listeners := peers.map fun peer => { peer } }
  ({ d with monitors := d.monitors ++ [m] }, d.monitors.length)

def cancelMonitor (d : Deployment) (id : Nat) : Deployment :=
  { d with monitors := d.monitors.modify id fun m => { m with isCancelled := true } }

/-- Does away with the listeners of a monitor. -/
def dropMonitor (d : Deployment) (id : Nat) : Deployment :=
  match d.monitors[id]? with
  | none => d
  | some m =>
    let d := m.listeners.foldl hangUp d
    { d with monitors := d.monitors.modify id fun m => { m with listeners := [] } }

end Deployment

namespace Monitor

def states (m : Monitor) : List (Endpoint × ListenerState) :=
  m.listeners.map fun l => (l.peer, l.state)

/-- Whether a wait for this listener to listen is over: it listens, or never will. -/
def isAttended (m : Monitor) (index : Nat) : Bool :=
  match m.listeners[index]? with
  | some l => l.state = .listening || l.state = .terminated
  | none => true

def hasEnded (m : Monitor) : Bool := m.listeners.all fun l => l.state = .terminated

def listenerDue? (l : Listener Stream) : Option Nat :=
  match l.phase with
  | .pausing due | .asking due _ => some due
  | .listening (.scripted s) => s.due?
  | _ => none

end Monitor
end Holdfast
