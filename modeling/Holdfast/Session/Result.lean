import Holdfast.Config
import Holdfast.Failover.Listener
import Holdfast.Lock

namespace Holdfast.Session

/-- A stored value: the label under which it became known as a token, or its bytes. -/
inductive Shown
  | learned (label : String)
  | bytes (b : Bytes)
deriving Repr

inductive ShownEffect
  | previous (v : Option Shown)
  | count (n : Int)
deriving Repr

/-- Why a step came to nothing. -/
inductive Trouble
  /-- The step names something that does not exist. -/
  | missing (field : String)
  | store (f : Store.Failure)
  | lock (e : LockError)
  | topology (e : TopologyError)
  | config (e : ConfigError)
deriving Repr

/-- A lock that was taken, and the seconds it is held. -/
structure Acquired where
  handle : Lock.Handle
  hold : Nat
deriving Repr

structure LockReport where
  lock : Lock
  /-- The label under which this lock was shown first, if it was shown before. -/
  sameAs : Option String
deriving Repr

inductive Result
  | done
  | node (e : Endpoint) (keys : Nat)
  | keys (n : Nat)
  | reachable (b : Bool)
  | value (v : Option Shown)
  /-- Seconds, rounded up. -/
  | timeToLive (seconds : Option Nat)
  | created (b : Bool)
  | applied (b : Bool)
  | watching (b : Bool)
  | replies (es : Option (List ShownEffect))
  | dropped (b : Bool)
  | pool (e : Endpoint) (id : Nat)
  | endpoint (e : Endpoint)
  | poolState (idle : Nat) (isClosed : Bool)
  | router (t : Topology) (names : List String) (pools : List Nat)
  | resolved (index : Nat) (name : String) (e : Endpoint)
  | shardEndpoint (e shard : Endpoint)
  | shardTrouble (t : Trouble) (shard : Endpoint)
  | changed (b : Bool) (t : Topology) (pools : List Nat)
  | topology (t : Topology) (pools : List Nat)
  | index (i : Option Nat)
  | received (isChanged : Bool) (t : Topology)
  | lock (r : LockReport)
  | text (s : String)
  | acquired (a : Option Acquired)
  | cut
  | released (b : Bool)
  | locked (b : Bool)
  | held (b : Bool)
  | pending
  | finished (time : Nat) (r : Result)
  | master (e : Option Endpoint)
  | subscribers (n : Nat)
  | message (payload : String)
  | ended
  | discovered (t : Topology)
  | states (s : List (Endpoint × Failover.ListenerState))
  | listening (b : Bool)
  | trouble (t : Trouble)
deriving Repr

/-- The result of a step, the time at its end, and the connections that were opened until then. -/
structure Report where
  result : Result
  time : Nat
  connects : Nat
deriving Repr

end Holdfast.Session
