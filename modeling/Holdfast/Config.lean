import Holdfast.Lock.Options
import Holdfast.Topology

namespace Holdfast

/-- How a shard's connections are pooled; times are in milliseconds. -/
structure PoolOptions where
  maxSize : UInt64 := 8
  maxIdle : UInt64 := 8
  checkoutTimeout : UInt64 := 2000
  testOnBorrow : Bool := true
deriving DecidableEq, Repr

structure FailoverOptions where
  /-- Failed rounds of discovery that startup puts up with, over all shards. -/
  startupRetries : UInt64 := 10
  startupBackoff : UInt64 := 1000
  /-- The pause before a listener subscribes again. -/
  resubscribeBackoff : UInt64 := 5000
deriving DecidableEq, Repr

/-- Where the masters of the shards come from. -/
inductive MasterSource
  | sentinel (peers : List Endpoint)
  | static (masters : List Endpoint)
deriving DecidableEq, Repr

structure Config where
  shards : List String
  masters : MasterSource
  pool : PoolOptions := {}
  connectTimeout : UInt64 := 2000
  username : Option String := none
  password : Option String := none
  database : Int64 := 0
  lock : Lock.Options := {}
  failover : FailoverOptions := {}
deriving DecidableEq, Repr

inductive ConfigError
  | noShards
  | blankName
  | repeatedName (name : String)
  | noPeers
  | noDiscovery
  | needsStatic
  | topology (e : TopologyError)
deriving DecidableEq, Repr

namespace ConfigError

def message : ConfigError → String
  | noShards => "invalid config: at least one shard name is required"
  | blankName => "invalid config: shard names cannot be empty"
  | repeatedName name => s!"invalid config: duplicate shard name `{name}`"
  | noPeers => "invalid config: at least one discovery peer is required"
  | noDiscovery => "invalid config: a sentinel topology requires a discovery client"
  | needsStatic => "invalid config: etcd shards require a static topology"
  | topology e => e.message

end ConfigError

namespace Config

/-- Goes through the names in order; a blank name counts before a repeated one. -/
def checkNames (seen : List String) : List String → Except ConfigError Unit
  | [] => .ok ()
  | name :: names =>
    if name.toList.all Text.isBlank then .error .blankName
    else if name ∈ seen then .error (.repeatedName name)
    else checkNames (name :: seen) names

def checkMasters (shards : Nat) : MasterSource → Except ConfigError Unit
  | .sentinel peers => if peers.isEmpty then .error .noPeers else .ok ()
  | .static masters =>
    if masters.length = shards then .ok ()
    else .error (.topology (.cardinality shards masters.length))

def validate (c : Config) : Except ConfigError Unit := do
  if c.shards.isEmpty then throw .noShards
  checkNames [] c.shards
  checkMasters c.shards.length c.masters

end Config
end Holdfast
