import Holdfast.Session.Locks

namespace Holdfast.Session

open Store

def onSentinel (f : Memory.Sentinel → Memory.Sentinel) : Act Result := do
  change fun d =>
    match d.directory with
    | .sentinel s => { d with directory := .sentinel (f s) }
    | .script _ => d
  return .done

def sentinel : Act Memory.Sentinel := do
  match (← current).directory with
  | .sentinel s => return s
  | .script _ => return {}

def namedMonitor (label : String) : Act (Nat × Monitor) := do
  let id ← find "monitor" Session.monitors label
  return (id, ← orMissing "monitor" (← current).monitors[id]?)

def statesOf (id : Nat) : Act Result := do
  return .states (((← current).monitors[id]?.map Monitor.states).getD [])

/-- Keeps a client, and its router under the same label. -/
def keepClient (label : String) (c : Client) : Act Result := do
  let old := (← get).clients.get? label
  modify fun s => { s with clients := s.clients.set label c }
  match old.bind Client.monitor with
  | some id => change (·.dropMonitor id)
  | none => pure ()
  keepRouter label c.router

def clientLock (label name : String) (options : Option Lock.Options) (as : String) :
    Act Result := do
  let c ← find "client" clients label
  match c.lock (← current).locks name options with
  | .error e => throw (.lock e)
  | .ok (c, locks, id) =>
    change fun d => { d with locks }
    modify fun s => { s with clients := s.clients.set label c }
    keepLock as id

/-- The next news on a stream; one that has ended is let go. -/
def hearNext (label : String) : Act Result := do
  let stream ← find "stream" streams label
  match (← current).hear stream with
  | (.message payload, stream) =>
    modify fun s => { s with streams := s.streams.set label stream }
    return .message payload
  | (.nothing, stream) =>
    modify fun s => { s with streams := s.streams.set label stream }
    return .pending
  | (.ended, stream) =>
    modify fun s => { s with streams := s.streams.erase label }
    change (·.unsubscribe stream)
    return .ended

def openStream (b : Backend) (e : Endpoint) (channel label : String) : Act Result := do
  let (_, answer) ← onDeployment (·.subscribe b e channel)
  let stream ← orStore answer
  let old := (← get).streams.get? label
  modify fun s => { s with streams := s.streams.set label stream }
  match old with
  | some old => change (·.unsubscribe old)
  | none => pure ()
  return .done

def closeStream (label : String) : Act Result := do
  match (← get).streams.get? label with
  | none => return .dropped false
  | some stream =>
    modify fun s => { s with streams := s.streams.erase label }
    change (·.unsubscribe stream)
    return .dropped true

def failoverStep : FailoverStep → Act Result
  | .peer e => onSentinel (·.addPeer e)
  | .reachPeer e up => onSentinel (·.setUp e up)
  | .setMaster name master => onSentinel (·.setMaster name master)
  | .master name => return .master ((← sentinel).master? name)
  | .failover name master => onSentinel (·.failover name master)
  | .publish channel payloads => onSentinel fun s => payloads.foldl (·.publish channel ·) s
  | .subscribers e => return .subscribers ((← sentinel).readers e)
  | .ask b e name => do return .master (← orStore (← onDeployment (·.ask b e name)))
  | .openStream b e channel label => openStream b e channel label
  | .next stream => hearNext stream
  | .closeStream stream => closeStream stream
  | .discover peers names retries backoff => do
    let r ← onDeployment (·.discover .memory peers names retries backoff)
    return .discovered (← orTopology r)
  | .monitor router peers backoff label => do
    let (routerId, _) ← namedRouter router
    let id ← onDeployment (·.watch .memory routerId peers backoff)
    let old := (← get).monitors.get? label
    modify fun s => { s with monitors := s.monitors.set label id }
    match old with
    | some old => change (·.dropMonitor old)
    | none => pure ()
    statesOf id
  | .states monitor => do
    let (id, _) ← namedMonitor monitor
    statesOf id
  | .awaitListening monitor ms => do
    let (id, _) ← namedMonitor monitor
    return .listening (← onDeployment (·.awaitListening (some id) ms))
  | .shutdown monitor => do
    let (id, _) ← namedMonitor monitor
    modify fun s => { s with monitors := s.monitors.erase monitor }
    change (·.shutdownMonitor id)
    return .done
  | .client config kind hasDiscovery label => do
    match ← onDeployment (·.connectClient config kind hasDiscovery) with
    | .error e => throw (.config e)
    | .ok c => keepClient label c
  | .clientLock client name options label => clientLock client name options label
  | .clientStates client => do
    let c ← find "client" clients client
    match c.monitor with
    | some id => statesOf id
    | none => return .states []
  | .clientAwait client ms => do
    let c ← find "client" clients client
    return .listening (← onDeployment (·.awaitListening c.monitor ms))
  | .clientShutdown client => do
    let c ← find "client" clients client
    modify fun s => { s with clients := s.clients.erase client }
    change (·.shutdownClient c)
    return .done

end Holdfast.Session
