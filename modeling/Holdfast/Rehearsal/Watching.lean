import Holdfast.Client

namespace Holdfast.Rehearsal

open Failover

/-- A router whose listeners hear what a script lays down. -/
structure Watching where
  deployment : Deployment
  router : Nat
  monitor : Nat
  /-- The pools that the router began with. -/
  firstPools : List Nat
  /-- How many subscriptions have been reported. -/
  reported : Nat := 0
deriving Repr

/-- What can be seen of a router and its listeners. -/
structure Look where
  states : List (Endpoint × ListenerState)
  masters : List Endpoint
  /-- The subscriptions since the last look, by time and then by peer. -/
  subscribed : List Script.Subscribed
  /-- Which shards still have the pool that they began with. -/
  originalPools : List Bool
  time : Nat
deriving Repr

/-- The end of a rehearsal: how long the listeners took to stop, and what they did meanwhile. -/
structure Farewell where
  waited : Nat
  subscriptions : Nat
  masters : List Endpoint
deriving Repr

namespace Watching

def start (shards : List String) (masters peers : List Endpoint) (backoff : Nat)
    (subscriptions : Table Endpoint (List (Except Store.Failure (List Script.Item)))) :
    Except TopologyError Watching := do
  let answered := subscriptions.map fun (peer, outcomes) =>
    (peer, outcomes.map fun outcome => { outcome : Script.Subscription })
  let d : Deployment := { directory := .script { subscriptions := answered } }
  let (d, router) ← d.addRouter shards ⟨masters⟩ {} .memory
  let (deployment, monitor) := d.watch .memory router peers backoff
  let firstPools := (d.routers[router]?.map Router.pools).getD []
  return { deployment, router, monitor, firstPools }

def log (w : Watching) : List Script.Subscribed :=
  match w.deployment.directory with
  | .script s => s.subscribed
  | .sentinel _ => []

def masters (w : Watching) : List Endpoint :=
  (w.deployment.routers[w.router]?.map fun r => r.topology.masters).getD []

def states (w : Watching) : List (Endpoint × ListenerState) :=
  (w.deployment.monitors[w.monitor]?.map Monitor.states).getD []

def pools (w : Watching) : List Nat := (w.deployment.routers[w.router]?.map Router.pools).getD []

def earlier (a b : Script.Subscribed) : Bool :=
  a.time < b.time || (a.time = b.time && a.peer.toText ≤ b.peer.toText)

def look (w : Watching) : Watching × Look :=
  ({ w with reported := w.log.length },
    { states := w.states
      masters := w.masters
      subscribed := (w.log.drop w.reported).mergeSort earlier
      originalPools := List.zipWith (fun a b => decide (a = b)) w.firstPools w.pools
      time := w.deployment.now })

/-- A look after every span of time. -/
def looks (w : Watching) : List Nat → Watching × List Look
  | [] => (w, [])
  | ms :: spans =>
    let (w, seen) := { w with deployment := w.deployment.advance ms }.look
    let (w, rest) := looks w spans
    (w, seen :: rest)

/-- Looks at once, when everybody waits, and after every span; then stops the listeners. -/
def run (w : Watching) (spans : List Nat) : List Look × Farewell :=
  let (w, first) := w.look
  let (w, settled) := { w with deployment := w.deployment.settle }.look
  let (w, later) := w.looks spans
  let after := { w with deployment := (w.deployment.shutdownMonitor w.monitor).settle }
  (first :: settled :: later,
    { waited := after.deployment.now - w.deployment.now
      subscriptions := after.log.length - w.log.length
      masters := after.masters })

end Watching
end Holdfast.Rehearsal
