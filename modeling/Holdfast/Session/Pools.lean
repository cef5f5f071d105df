import Holdfast.Session.Stores

namespace Holdfast.Session

open Store

def poolAt (id : Nat) : Act (Pool Link) := do orMissing "pool" (← current).pools[id]?

def namedPool (label : String) : Act (Nat × Pool Link) := do
  let id ← find "pool" Session.pools label
  return (id, ← poolAt id)

/-- Borrows a connection, keeps it under a label, and tells where it leads. -/
def acquire (pool : Nat) (label : String) : Act Endpoint := do
  let job ← onDeployment fun d =>
    let (d, b) := d.borrow pool
    d.perform (.borrow b)
  match job with
  | .borrow b =>
    let lent ← orStore (b.result?.getD (.error mismatch))
    keepConn label (.pooled lent)
    return (← poolAt pool).endpoint
  | _ => throw (.store mismatch)

def poolState (label : String) : Act Result := do
  let (_, p) ← namedPool label
  return .poolState p.idle.length p.isClosed

def namedRouter (label : String) : Act (Nat × Router) := do
  let id ← find "router" Session.routers label
  return (id, ← orMissing "router" (← current).routers[id]?)

/-- The pools of a router by their numbers. -/
def shownPoolsOf (r : Router) : Act (List Nat) := r.pools.mapM numberOf

/-- Keeps a router under a label and shows it. -/
def keepRouter (label : String) (id : Nat) : Act Result := do
  modify fun s => { s with routers := s.routers.set label id }
  let (_, r) ← namedRouter label
  return .router r.topology r.names (← shownPoolsOf r)

/-- The shard that a key belongs to, with the pool that serves it now. -/
def resolve (r : Router) (key : Bytes) : Act Shard := do
  let index := r.locate key
  let pool ← orMissing "router" r.pools[index]?
  return ⟨index, r.names[index]?.getD "", pool⟩

def applyChange (id : Nat)
    (change : Except TopologyError (Pools Link × Router × Bool)) : Act Result := do
  let (pools, r, isChanged) ← orTopology change
  onDeployment fun d => ({ d with pools, routers := d.routers.set id r }, ())
  return .changed isChanged r.topology (← shownPoolsOf r)

def acquireFromShard (shard : Shard) (label : String) : Act Result := do
  let e := (← poolAt shard.pool).endpoint
  tryCatch (do return .shardEndpoint (← acquire shard.pool label) e)
    fun trouble => return .shardTrouble trouble e

def spawn (label : String) (job : Job) : Act Result := do
  let id ← onDeployment (·.spawn job)
  let old := (← get).tasks.get? label
  modify fun s => { s with tasks := s.tasks.set label id }
  match old with
  | some old => change (·.abort old)
  | none => pure ()
  return .done

def poolStep : PoolStep → Act Result
  | .pool e options label => do
    let id ← onDeployment fun d =>
      ({ d with pools := d.pools.add (.new e options .memory) }, d.pools.length)
    modify fun s => { s with pools := s.pools.set label id }
    return .pool e (← numberOf id)
  | .acquire pool label => do
    let (id, _) ← namedPool pool
    return .endpoint (← acquire id label)
  | .spawnAcquire pool label => do
    let (id, _) ← namedPool pool
    let b ← onDeployment (·.borrow id)
    spawn label (.borrow b)
  | .state pool => poolState pool
  | .close pool => do
    let (id, _) ← namedPool pool
    change fun d => { d with pools := d.pools.closePool id }
    poolState pool
  | .router shards masters options label => do
    match (← current).addRouter shards ⟨masters⟩ options .memory with
    | .error e => throw (.topology e)
    | .ok (d, id) =>
      change fun _ => d
      keepRouter label id
  | .resolve router key label => do
    let (_, r) ← namedRouter router
    let shard ← resolve r key
    match label with
    | some label => modify fun s => { s with shards := s.shards.set label shard }
    | none => pure ()
    return .resolved shard.index shard.name (← poolAt shard.pool).endpoint
  | .acquireFromShard shard label => do acquireFromShard (← find "shard" shards shard) label
  | .acquireFor router key label => do
    let (_, r) ← namedRouter router
    return .endpoint (← acquire (← resolve r key).pool label)
  | .rebuild router masters => do
    let (id, r) ← namedRouter router
    applyChange id (r.rebuild (← current).pools ⟨masters⟩)
  | .update router index master => do
    let (id, r) ← namedRouter router
    applyChange id (r.update (← current).pools index master)
  | .topology router => do
    let (_, r) ← namedRouter router
    return .topology r.topology (← shownPoolsOf r)
  | .shardIndex router name => do
    let (_, r) ← namedRouter router
    return .index (r.shardIndex? name)
  | .shutdown router => do
    let (id, _) ← namedRouter router
    change (·.shutdownRouter id)
    return .done
  | .subscribe router label => do
    let (id, r) ← namedRouter router
    modify fun s => { s with receivers := s.receivers.set label ⟨id, r.version⟩ }
    return .done
  | .receive receiver => do
    let seen ← find "receiver" receivers receiver
    let isHeld := (← get).holdsRouter seen.router
    let r ← orMissing "receiver" (← current).routers[seen.router]?
    modify fun s => { s with receivers := s.receivers.set receiver { seen with seen := r.version } }
    return .received (isHeld && seen.seen ≠ r.version) r.topology

end Holdfast.Session
