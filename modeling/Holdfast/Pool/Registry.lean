import Holdfast.Pool

namespace Holdfast

/-- All pools that were ever opened; the place of a pool is its identity. -/
abbrev Pools (κ : Type) := List (Pool κ)

namespace Pools

def add (ps : Pools κ) (p : Pool κ) : Pools κ := ps ++ [p]

def closePool (ps : Pools κ) (id : Nat) : Pools κ := ps.modify id Pool.close

/-- Whether a pool is open and leads to the endpoint. -/
def serves (ps : Pools κ) (id : Nat) (e : Endpoint) : Bool :=
  match ps[id]? with
  | some p => p.endpoint = e && !p.isClosed
  | none => false

def closeAll (ps : Pools κ) (ids : List Nat) : Pools κ := ids.foldl closePool ps

end Pools
end Holdfast
