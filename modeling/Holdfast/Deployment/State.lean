import Holdfast.Etcd.Connection
import Holdfast.Failover.Listener
import Holdfast.Failover.Script
import Holdfast.Lock.Talk
import Holdfast.Lock.Wait
import Holdfast.Memory.Cluster
import Holdfast.Memory.Sentinel
import Holdfast.Pool.Checkout
import Holdfast.Redis.Connection
import Holdfast.Router
import Holdfast.Store.Script

namespace Holdfast

open Store

/-- A connection to a store. -/
inductive Link
  | memory (c : Memory.Connection)
  | scripted (number : Nat)
  | redis
  | etcd (c : Etcd.Connection)
deriving Repr

/-- The stores that connections lead to. -/
inductive Stores
  | cluster (c : Memory.Cluster)
  | script (s : Script)
deriving Repr

/-- The peers that know the masters of the shards. -/
inductive Directory
  | sentinel (s : Memory.Sentinel)
  | script (s : Failover.Script)
deriving Repr

/-- A subscription to a discovery peer. -/
inductive Stream
  | reader (r : Memory.Reader)
  | scripted (s : Failover.Script.Stream)
deriving Repr

/-- A lock with the router that finds its shard. -/
structure PlacedLock where
  lock : Lock
  router : Nat
deriving Repr

/-- The listeners that keep a router up to date. -/
structure Monitor where
  router : Nat
  backend : Backend
  /-- The pause before a listener subscribes again. -/
  backoff : Nat
  listeners : List (Failover.Listener Stream)
  isCancelled : Bool := false
deriving Repr

/-- An answer that is under way. -/
inductive Flight
  | reply (due : Nat) (o : Outcome)
  /-- A slow read, which sees the value that is there at its end. -/
  | read (due : Nat) (e : Endpoint) (key : Bytes)
  | dialled (due : Nat) (r : Except Failure Link)
  /-- A connection that a script lets through. -/
  | opened (due : Nat)
deriving Repr

def Flight.due : Flight → Nat
  | reply due _ | read due .. | dialled due _ | opened due => due

/-- A checkout from a pool with the answer that it waits for. -/
structure Borrowing where
  pool : Nat
  checkout : Checkout Link
  flight : Option Flight := none
deriving Repr

/-- A loan with the pool it comes from. -/
structure Lent where
  pool : Nat
  loan : Loan Link
deriving Repr

/-- A talk of a lock with its store, from the checkout of a connection to its return. -/
inductive Errand
  | borrowing (b : Borrowing) (aim : Lock.Aim)
  | talking (lent : Lent) (flight : Option Flight) (talk : Lock.Talk)
  | over (talk : Lock.Talk)
deriving Repr

/-- Where a waiting caller stands. -/
inductive Waiting.Phase
  | attempting (e : Errand)
  | pausing (due : Nat)
  | over (result : Except LockError (Option Lock.Handle))
deriving Repr

/-- A caller that waits for a lock, and the flag that cancels it. -/
structure Waiting where
  lock : PlacedLock
  wait : Lock.Wait
  flag : Option Nat
  phase : Waiting.Phase
deriving Repr

/-- A call on one connection. -/
structure Request where
  link : Link
  call : Call
  flight : Option Flight := none
  outcome : Option Outcome := none
deriving Repr

/-- What a caller is doing. -/
inductive Job
  | borrow (b : Borrowing)
  | errand (e : Errand)
  | wait (w : Waiting)
  | request (r : Request)
  /-- Waits until the listeners of a monitor, from the given one on, are listening. -/
  | attend (monitor index : Nat)
  /-- Waits until every listener of a monitor has terminated. -/
  | farewell (monitor : Nat)
  /-- Waits for ever. -/
  | idle
deriving Repr

/-- A job in the background, and when it was done. -/
structure Task where
  job : Job
  doneAt : Option Nat := none
deriving Repr

/-- Stores, discovery peers and all callers under one clock, which stands still while anybody can
go on. -/
structure Deployment where
  now : Nat := 0
  /-- The wall clock, which tokens carry and which does not advance. -/
  clock : Nat := 1700000000000
  stores : Stores := .cluster {}
  directory : Directory := .sentinel {}
  pools : Pools Link := []
  routers : List Router := []
  locks : List PlacedLock := []
  monitors : List Monitor := []
  /-- Which flags have been raised. -/
  flags : List Bool := []
  tasks : Table Nat Task := []
  nextTask : Nat := 0
  nextOwner : Nat := 0
deriving Repr

namespace Deployment

/-- Owners are drawn from the upper half of their range. -/
def freshOwner (d : Deployment) : BitVec 128 := BitVec.ofNat 128 (1 <<< 127 + d.nextOwner)

def moment (d : Deployment) : Lock.Moment := ⟨d.clock, d.freshOwner⟩

/-- The owner of the last moment may have gone into a token. -/
def spendOwner (d : Deployment) : Deployment := { d with nextOwner := d.nextOwner + 1 }

def isRaised (d : Deployment) (flag : Option Nat) : Bool :=
  match flag with
  | some i => d.flags[i]?.getD false
  | none => false

def setPool (d : Deployment) (id : Nat) (p : Pool Link) : Deployment :=
  { d with pools := d.pools.set id p }

def modifyPool (d : Deployment) (id : Nat) (f : Pool Link → Pool Link) : Deployment :=
  { d with pools := d.pools.modify id f }

def connects (d : Deployment) : Nat :=
  match d.stores with
  | .cluster c => c.connects
  | .script s => s.opened

end Deployment
end Holdfast
