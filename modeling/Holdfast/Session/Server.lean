import Holdfast.Session.Run

namespace Holdfast.Session

open Store

/-- The one server of a session, and what its clients are configured with. -/
structure Target where
  kind : Kind
  server : Endpoint
  config : Config
deriving Repr

/-- The server is a discovery peer, or else the one master. -/
def Target.configured (t : Target) (shards : List String) (isDiscovered : Bool) : Config :=
  { t.config with
    shards
    masters := if isDiscovered then .sentinel [t.server] else .static [t.server] }

def Target.backend (t : Target) : Backend := t.config.backend t.kind

/-- A step of a session with one server, which may have one client and one lock. -/
inductive ServerStep
  | connect (label : String)
  | call (conn : String) (request : GivenCall)
  | ask (name : String)
  | subscribe (channel : String)
  | next
  /-- Makes a client, waits until it listens, and gets its lock. -/
  | client (shards : List String) (isDiscovered : Bool) (lock : String) (options : Lock.Options)
  | states
  | tryLock (label : String)
  | unlock (handle : String)
  | isLocked
  | isHeld (handle : String)
  | shutdown
deriving Repr

/-- The result of such a step; a client shows its listeners and its masters. -/
inductive ServerResult
  | step (r : Result)
  | client (states : List (Endpoint × Failover.ListenerState)) (t : Topology)
deriving Repr

/-- The label of the one client, of its lock, and of the one subscription. -/
def only : String := ""

def theClient : Act Client := find "client" clients only

def shownClient : Act ServerResult := do
  let c ← theClient
  let d ← current
  let r ← orMissing "client" d.routers[c.router]?
  let states := match c.monitor.bind fun id => d.monitors[id]? with
    | some m => m.states
    | none => []
  return .client states r.topology

/-- Waits until every listener of a client listens. -/
def awaitClient (c : Client) : Act Unit := do
  match c.monitor with
  | some id => change fun d => (d.perform (.attend id 0)).1
  | none => return

def stopClient : Act Unit := do
  match (← get).clients.get? only with
  | some _ => discard <| failoverStep (.clientShutdown only)
  | none => return

/-- A client whose lock cannot be made is not kept, and the one before it stays. -/
def makeClient (t : Target) (config : Config) (lock : String) (options : Lock.Options) :
    Act ServerResult := do
  match ← onDeployment (·.connectClient config t.kind true) with
  | .error e => throw (.config e)
  | .ok c =>
    awaitClient c
    match c.lock (← current).locks lock (some options) with
    | .error e =>
      change (·.shutdownClient c)
      throw (.lock e)
    | .ok (c, locks, id) =>
      change fun d => { d with locks }
      discard <| keepClient only c
      discard <| keepLock only id
      shownClient

def onLock (s : LockStep) : Act ServerResult := do
  discard theClient
  return .step (← lockStep s)

def serverStep (t : Target) : ServerStep → Act ServerResult
  | .connect label => return .step (← storeStep (.connect t.backend t.server label))
  | .call conn request => return .step (← storeStep (.call conn request))
  | .ask name => return .step (← failoverStep (.ask t.backend t.server name))
  | .subscribe channel =>
    return .step (← failoverStep (.openStream t.backend t.server channel only))
  | .next => return .step (← failoverStep (.next only))
  | .client shards isDiscovered lock options =>
    makeClient t (t.configured shards isDiscovered) lock options
  | .states => shownClient
  | .tryLock label => onLock (.tryLock only label)
  | .unlock handle => onLock (.unlock only handle)
  | .isLocked => onLock (.isLocked only)
  | .isHeld handle => onLock (.isHeld only handle)
  | .shutdown => do
    stopClient
    return .step .done

/-- Takes a step, then lets everybody go on until they wait. -/
def stepOnServer (t : Target) (s : Session) (st : ServerStep) : Session × ServerResult :=
  let (r, s) := (serverStep t st).run s
  let result := match r with
    | .ok result => result
    | .error trouble => .step (.trouble trouble)
  (s.settle, result)

end Holdfast.Session
