import Holdfast.Endpoint
import Holdfast.Text.Quoted

namespace Holdfast

inductive TopologyError
  | cardinality (expected actual : Nat)
  | outOfRange (index length : Nat)
  | undiscovered (name : String) (peers : List Endpoint) (attempts : Nat)
deriving DecidableEq, Repr

/-- One master per shard, in routing order. -/
structure Topology where
  masters : List Endpoint
deriving DecidableEq, Repr

namespace Topology

def size (t : Topology) : Nat := t.masters.length

def master? (t : Topology) (index : Nat) : Option Endpoint := t.masters[index]?

def withMaster (t : Topology) (index : Nat) (master : Endpoint) : Except TopologyError Topology :=
  if index < t.size then .ok ⟨t.masters.set index master⟩ else .error (.outOfRange index t.size)

def toText (t : Topology) : String :=
  "[" ++ " ".intercalate (t.masters.map Endpoint.toText) ++ "]"

end Topology

namespace TopologyError

/-- A peer as it is listed in a report. -/
def listed (e : Endpoint) : String :=
  s!"HostAndPort \x7b host: {Text.quoted e.host}, port: {e.port.toNat} \x7d"

def message : TopologyError → String
  | cardinality expected actual =>
    s!"topology has {actual} masters but {expected} shards are configured"
  | outOfRange index length => s!"shard index {index} out of range for {length} shards"
  | undiscovered name peers attempts =>
    let list := ", ".intercalate (peers.map listed)
    s!"no discovery peer in [{list}] knows the master of `{name}` after {attempts} attempts"

end TopologyError
end Holdfast
