import Holdfast.Config
import Holdfast.Store.Backend
import Holdfast.Lock.Token

namespace Holdfast.Session

/-- A value as a step gives it: bytes, a token, or the token of a handle, perhaps with another
expiry. -/
inductive Given
  | bytes (b : Bytes)
  | token (t : Lock.Token)
  | handle (label : String) (expiry : Option UInt64)
deriving Repr

inductive GivenWrite
  | put (key : Bytes) (value : Given)
  | delete (key : Bytes)
  | expire (key : Bytes) (seconds : Nat)
deriving Repr

/-- A call on a named connection. -/
inductive GivenCall
  | setIfAbsent (key : Bytes) (value : Given)
  | get (key : Bytes)
  | expire (key : Bytes) (seconds : Nat)
  | watch (key : Bytes)
  | unwatch
  | exec (writes : List GivenWrite)
  | ping
deriving Repr

/-- Stores and connections. -/
inductive StoreStep
  | node (e : Endpoint)
  | reach (e : Endpoint) (up : Bool)
  | readDelay (e : Endpoint) (ms : Option Nat)
  | rawGet (e : Endpoint) (key : Bytes)
  | rawSet (e : Endpoint) (key : Bytes) (value : Given)
  | timeToLive (e : Endpoint) (key : Bytes)
  | keyCount (e : Endpoint)
  | connect (backend : Store.Backend) (e : Endpoint) (label : String)
  | call (conn : String) (request : GivenCall)
  | watching (conn : String)
  | markBroken (conn : String)
  | release (conn : String) (isHealthy : Bool)
  | drop (conn : String)
deriving Repr

/-- Pools and routers. -/
inductive PoolStep
  | pool (e : Endpoint) (options : PoolOptions) (label : String)
  | acquire (pool label : String)
  | spawnAcquire (pool label : String)
  | state (pool : String)
  | close (pool : String)
  | router (shards : List String) (masters : List Endpoint) (options : PoolOptions) (label : String)
  | resolve (router : String) (key : Bytes) (label : Option String)
  | acquireFromShard (shard label : String)
  | acquireFor (router : String) (key : Bytes) (label : String)
  | rebuild (router : String) (masters : List Endpoint)
  | update (router : String) (index : Nat) (master : Endpoint)
  | topology (router : String)
  | shardIndex (router name : String)
  | shutdown (router : String)
  | subscribe (router label : String)
  | receive (receiver : String)
deriving Repr

inductive LockStep
  | lock (router name : String) (options : Lock.Options) (label : String)
  | describe (lock : String)
  | tryLock (lock label : String)
  | tryLockFor (lock : String) (ms : Nat) (label : String) (flag : Option String)
  | cutTryLock (lock : String) (ms : Nat) (label : String)
  | unlock (lock handle : String)
  | isLocked (lock : String)
  | isHeld (lock handle : String)
  | flag (label : String)
  | cancel (flag : String)
  | spawnLock (lock label : String) (ms : Option Nat) (flag : Option String)
  | spawnUnlock (lock handle label : String)
  | task (task : String)
  | abort (task : String)
deriving Repr

/-- Discovery, monitors and clients. -/
inductive FailoverStep
  | peer (e : Endpoint)
  | reachPeer (e : Endpoint) (up : Bool)
  | setMaster (name : String) (master : Endpoint)
  | master (name : String)
  | failover (name : String) (master : Endpoint)
  | publish (channel : String) (payloads : List String)
  | subscribers (e : Endpoint)
  | ask (backend : Store.Backend) (e : Endpoint) (name : String)
  | openStream (backend : Store.Backend) (e : Endpoint) (channel label : String)
  | next (stream : String)
  | closeStream (stream : String)
  | discover (peers : List Endpoint) (names : List String) (retries backoff : Nat)
  | monitor (router : String) (peers : List Endpoint) (backoff : Nat) (label : String)
  | states (monitor : String)
  | awaitListening (monitor : String) (ms : Nat)
  | shutdown (monitor : String)
  | client (config : Config) (kind : Store.Kind) (hasDiscovery : Bool) (label : String)
  | clientLock (client name : String) (options : Option Lock.Options) (label : String)
  | clientStates (client : String)
  | clientAwait (client : String) (ms : Nat)
  | clientShutdown (client : String)
deriving Repr

/-- A step of a session. What it makes, it keeps under a label; what it needs, it names. -/
inductive Step
  | advance (ms : Nat)
  | store (s : StoreStep)
  | pool (s : PoolStep)
  | lock (s : LockStep)
  | failover (s : FailoverStep)
deriving Repr

end Holdfast.Session
