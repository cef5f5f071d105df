import Holdfast.Memory.Connection

namespace Holdfast.Memory

open Store

/-- Stores by their endpoints, and how many connections to them were opened. -/
structure Cluster where
  servers : Table Endpoint Server := []
  connects : Nat := 0
deriving Repr

namespace Cluster

/-- A store that is there already stays as it is. -/
def add (c : Cluster) (e : Endpoint) : Cluster :=
  if (c.servers.get? e).isSome then c else { c with servers := c.servers.set e {} }

def connect (c : Cluster) (e : Endpoint) : Cluster × Except Failure Connection :=
  match c.servers.get? e with
  | none => (c, .error (.unreachable e))
  | some s =>
    match s.connect e with
    | .ok conn => ({ c with connects := c.connects + 1 }, .ok conn)
    | .error f => (c, .error f)

def call (c : Cluster) (conn : Connection) (now : Nat) (request : Call) :
    Cluster × Connection × Answer :=
  match c.servers.get? conn.endpoint with
  | none => (c, conn, .now (.error (.unreachable conn.endpoint)))
  | some s =>
    let (conn, s, answer) := conn.call s now request
    ({ c with servers := c.servers.set conn.endpoint s }, conn, answer)

/-- The end of a slow read; the connection is not looked at again. -/
def read (c : Cluster) (e : Endpoint) (now : Nat) (key : Bytes) : Option Bytes :=
  (c.servers.get? e).bind fun s => s.node.value? now key

end Cluster
end Holdfast.Memory
