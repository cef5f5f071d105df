import Holdfast.Deployment.Searching

namespace Holdfast

open Store

/-- A client of a deployment, with the locks that it has handed out under their names. -/
structure Client where
  router : Nat
  /-- Only a client that found its masters by discovery keeps up with their switches. -/
  monitor : Option Nat
  defaults : Lock.Options
  locks : Table String Nat := []
deriving Repr

namespace Client

/-- The lock of a name, which is made at the first request and stays as it is. -/
def lock (c : Client) (placed : List PlacedLock) (name : String) (options : Option Lock.Options) :
    Except LockError (Client × List PlacedLock × Nat) :=
  match c.locks.get? name with
  | some id => .ok (c, placed, id)
  | none => do
    let lock ← Lock.ofName name (options.getD c.defaults)
    let id := placed.length
    return ({ c with locks := c.locks.set name id }, placed ++ [⟨lock, c.router⟩], id)

end Client

/-- How a configured client gets into a server of some kind. -/
def Config.backend (c : Config) : Kind → Backend
  | .memory => .memory
  | .redis => .redis ⟨c.username, c.password, c.database.toInt⟩
  | .etcd => .etcd (Etcd.Credentials.of? c.username c.password)

namespace Deployment

/-- Opens a router, with the next free number. -/
def addRouter (d : Deployment) (names : List String) (t : Topology) (o : PoolOptions)
    (b : Backend) : Except TopologyError (Deployment × Nat) := do
  let (pools, r) ← Router.new names t o b d.pools
  return ({ d with pools, routers := d.routers ++ [r] }, d.routers.length)

/-- Searches for the masters of the shards that a client is configured with. -/
def discoverFor (d : Deployment) (c : Config) (b : Backend) (peers : List Endpoint) :
    Deployment × Except TopologyError Topology :=
  d.discover b peers c.shards c.failover.startupRetries.toNat c.failover.startupBackoff.toNat

/-- The masters of a configuration, and the peers to listen to afterwards. -/
def findMasters (d : Deployment) (c : Config) (b : Backend) (hasDiscovery : Bool) :
    Deployment × Except ConfigError (Topology × Option (List Endpoint)) :=
  match c.masters with
  | .static masters => (d, .ok (⟨masters⟩, none))
  | .sentinel peers =>
    if hasDiscovery then
      let (d, found) := d.discoverFor c b peers
      (d, (found.mapError .topology).map fun t => (t, some peers))
    else (d, .error .noDiscovery)

/-- Opens the pools of a client and starts its listeners. -/
def openClient (d : Deployment) (c : Config) (b : Backend) (t : Topology)
    (peers : Option (List Endpoint)) : Except ConfigError (Deployment × Client) := do
  let (d, router) ← (d.addRouter c.shards t c.pool b).mapError .topology
  match peers with
  | none => return (d, { router, monitor := none, defaults := c.lock })
  | some peers =>
    let (d, monitor) := d.watch b router peers c.failover.resubscribeBackoff.toNat
    return (d, { router, monitor := some monitor, defaults := c.lock })

def isStatic : MasterSource → Bool
  | .static _ => true
  | .sentinel _ => false

/-- Makes a client. That etcd knows no discovery is reported before all else. -/
def connectClient (d : Deployment) (c : Config) (kind : Kind) (hasDiscovery : Bool) :
    Deployment × Except ConfigError Client :=
  let b := c.backend kind
  match kind, isStatic c.masters with
  | .etcd, false => (d, .error .needsStatic)
  | _, _ =>
    match c.validate with
    | .error e => (d, .error e)
    | .ok () =>
      match d.findMasters c b hasDiscovery with
      | (d, .error e) => (d, .error e)
      | (d, .ok (t, peers)) =>
        match d.openClient c b t peers with
        | .error e => (d, .error e)
        | .ok (d, client) => (d, .ok client)

def shutdownRouter (d : Deployment) (id : Nat) : Deployment :=
  match d.routers[id]? with
  | some r => { d with pools := r.shutdown d.pools }
  | none => d

/-- Stops the listeners of a monitor and waits for their end. -/
def shutdownMonitor (d : Deployment) (id : Nat) : Deployment :=
  ((d.cancelMonitor id).perform (.farewell id)).1

/-- Stops the listeners of a client, then closes its pools. -/
def shutdownClient (d : Deployment) (c : Client) : Deployment :=
  let d := match c.monitor with
    | some id => d.shutdownMonitor id
    | none => d
  d.shutdownRouter c.router

/-- Waits for some milliseconds until every listener of a monitor listens. -/
def awaitListening (d : Deployment) (monitor : Option Nat) (ms : Nat) : Deployment × Bool :=
  match monitor with
  | none => (d, true)
  | some id =>
    let (d, job) := d.performFor (.attend id 0) ms
    (d, job.isSome)

end Deployment
end Holdfast
