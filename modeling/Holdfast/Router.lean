import Holdfast.Pool.Registry
import Holdfast.Ring

namespace Holdfast

/-- Sends each key to a shard, and each shard to the pool of its present master. -/
structure Router where
  names : List String
  ring : Ring
  options : PoolOptions
  backend : Store.Backend
  topology : Topology
  /-- One pool per shard. -/
  pools : List Nat
  /-- How many topologies were published before this one. -/
  version : Nat := 0
deriving Repr

namespace Router

/-- Opens a pool to each endpoint. -/
def openPools (o : PoolOptions) (b : Store.Backend) (ps : Pools κ) :
    List Endpoint → Pools κ × List Nat
  | [] => (ps, [])
  | e :: es =>
    let (rest, ids) := openPools o b (ps.add (.new e o b)) es
    (rest, ps.length :: ids)

def new (names : List String) (t : Topology) (o : PoolOptions) (b : Store.Backend) (ps : Pools κ) :
    Except TopologyError (Pools κ × Router) :=
  if t.size = names.length then
    let (ps, pools) := openPools o b ps t.masters
    let ring := Ring.ofShards names.length
    .ok (ps, { names, ring, options := o, backend := b, topology := t, pools })
  else .error (.cardinality names.length t.size)

/-- A shard whose master stays keeps its pool, unless that has been closed. -/
def renew (o : PoolOptions) (b : Store.Backend) (ps : Pools κ) :
    List (Endpoint × Nat) → Pools κ × List Nat
  | [] => (ps, [])
  | (e, id) :: shards =>
    if ps.serves id e then
      let (rest, ids) := renew o b ps shards
      (rest, id :: ids)
    else
      let (rest, ids) := renew o b (ps.add (.new e o b)) shards
      (rest, ps.length :: ids)

/-- Publishes a new topology and closes the pools that it replaces; an equal one changes nothing. -/
def rebuild (r : Router) (ps : Pools κ) (t : Topology) :
    Except TopologyError (Pools κ × Router × Bool) :=
  if t.size ≠ r.names.length then .error (.cardinality r.names.length t.size)
  else if r.topology = t then .ok (ps, r, false)
  else
    let (ps, pools) := renew r.options r.backend ps (t.masters.zip r.pools)
    let retired := r.pools.filter (· ∉ pools)
    .ok (ps.closeAll retired, { r with topology := t, pools, version := r.version + 1 }, true)

/-- Moves one shard to another master. -/
def update (r : Router) (ps : Pools κ) (index : Nat) (master : Endpoint) :
    Except TopologyError (Pools κ × Router × Bool) :=
  (r.topology.withMaster index master).bind (r.rebuild ps)

def shutdown (r : Router) (ps : Pools κ) : Pools κ := ps.closeAll r.pools

def shardIndex? (r : Router) (name : String) : Option Nat := r.names.findIdx? (· = name)

/-- The shard that owns a key; it does not depend on the masters. -/
def locate (r : Router) (key : Bytes) : Nat := r.ring.locate key

end Router
end Holdfast
