import Holdfast.Session.State

namespace Holdfast.Session

open Store

/-- The store at an endpoint. -/
def serverAt (e : Endpoint) : Act Memory.Server := do
  match (← current).stores with
  | .cluster c => orMissing "at" (c.servers.get? e)
  | .script _ => throw (.missing "at")

def setServer (e : Endpoint) (s : Memory.Server) : Act Unit :=
  change fun d =>
    match d.stores with
    | .cluster c => { d with stores := .cluster { c with servers := c.servers.set e s } }
    | .script _ => d

def addNode (e : Endpoint) : Act Unit :=
  change fun d =>
    match d.stores with
    | .cluster c => { d with stores := .cluster (c.add e) }
    | .script _ => d

/-- Gives a connection back to where it came from. -/
def letGo (d : Deployment) : Conn → Deployment
  | .raw _ => d
  | .pooled l => d.restore l

/-- Keeps a connection under a label; one that stood there before is let go. -/
def keepConn (label : String) (c : Conn) : Act Unit := do
  let old := (← get).conns.get? label
  modify fun s => { s with conns := s.conns.set label c }
  match old with
  | some old => change (letGo · old)
  | none => pure ()

/-- The loan of a pooled connection. -/
def lentConn (label : String) : Act Lent := do
  match ← find "conn" conns label with
  | .pooled l => return l
  | .raw _ => throw (.missing "conn")

def setConn (label : String) (c : Conn) : Act Unit :=
  modify fun s => { s with conns := s.conns.set label c }

def takeConn (label : String) : Act Conn := do
  let c ← find "conn" conns label
  modify fun s => { s with conns := s.conns.erase label }
  return c

/-- Waits for the answer to a call. -/
def request (link : Link) (call : Call) : Act (Link × Outcome) :=
  onDeployment fun d =>
    match d.perform (.request { link, call }) with
    | (d, .request { link, outcome := some o, .. }) => (d, link, o)
    | (d, _) => (d, link, .error mismatch)

/-- A call on a named connection; a loan keeps account of its watch. -/
def callOn (label : String) (call : Call) : Act Outcome := do
  match ← find "conn" conns label with
  | .raw link =>
    let (link, o) ← request link call
    setConn label (.raw link)
    return o
  | .pooled lent =>
    let loan := lent.loan.before call
    let (conn, o) ← request loan.conn call
    setConn label (.pooled { lent with loan := { loan with conn }.after call o })
    return o

/-- A watch that begins or ends shows on a loan only. -/
def watchResult (label : String) : Act Result := do
  match ← find "conn" conns label with
  | .raw _ => return .done
  | .pooled lent => return .watching lent.loan.isWatching

def callResult (label : String) (call : Call) (r : Reply) : Act Result := do
  match call, r with
  | .setIfAbsent .., .flag b => return .created b
  | .expire .., .flag b => return .applied b
  | .get _, .value v => return .value (← shownValue v)
  | .watch _, .done | .unwatch, .done => watchResult label
  | .exec _, .effects none => return .replies none
  | .exec _, .effects (some es) => return .replies (some (← es.mapM shownEffect))
  | .ping, .done => return .done
  | _, _ => throw (.store mismatch)

/-- Milliseconds in whole seconds, rounded up. -/
def secondsUp (ms : Nat) : Nat := (ms + 999) / 1000

def storeStep : StoreStep → Act Result
  | .node e => do
    addNode e
    return .node e ((← serverAt e).node.keyCount Deployment.storeClock)
  | .reach e up => do
    setServer e ((← serverAt e).setUp up)
    return .reachable up
  | .readDelay e ms => do
    setServer e { ← serverAt e with readDelay := ms }
    return .done
  | .rawGet e key => do
    let s ← serverAt e
    return .value (← shownValue (s.node.value? Deployment.storeClock key))
  | .rawSet e key value => do
    let s ← serverAt e
    let node := s.node.put key (← bytesOf value)
    setServer e { s with node }
    return .keys (node.keyCount Deployment.storeClock)
  | .timeToLive e key => do
    let s ← serverAt e
    return .timeToLive ((s.node.timeToLive? Deployment.storeClock key).map secondsUp)
  | .keyCount e => return .keys ((← serverAt e).node.keyCount Deployment.storeClock)
  | .connect b e label => do
    let r ← onDeployment fun d =>
      let (d, flight) := d.dial b e
      d.connected flight
    keepConn label (.raw (← orStore r))
    return .done
  | .call conn given => do
    discard <| find "conn" conns conn
    let call ← callOf given
    callResult conn call (← orStore (← callOn conn call))
  | .watching conn => return .watching (← lentConn conn).loan.isWatching
  | .markBroken conn => do
    let lent ← lentConn conn
    setConn conn (.pooled { lent with loan := lent.loan.markBroken })
    return .done
  | .release conn isHealthy => do
    let lent ← lentConn conn
    discard <| takeConn conn
    change (·.restore { lent with loan := { lent.loan with isBroken := !isHealthy } })
    return .done
  | .drop conn => do
    match (← get).conns.get? conn with
    | none => return .dropped false
    | some c =>
      discard <| takeConn conn
      change (letGo · c)
      return .dropped true

end Holdfast.Session
