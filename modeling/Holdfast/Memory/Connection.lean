import Holdfast.Memory.Node

namespace Holdfast.Memory

open Store

/-- A store that can be cut off; its outages are counted. -/
structure Server where
  node : Node := {}
  isUp : Bool := true
  outages : Nat := 0
  /-- How long a read through a connection takes. -/
  readDelay : Option Nat := none
deriving DecidableEq, Repr

def Server.setUp (s : Server) (up : Bool) : Server :=
  { s with isUp := up, outages := if up then s.outages else s.outages + 1 }

/-- A connection knows how many outages there had been when it was opened, and the version that each
key it watches had at its first watch. -/
structure Connection where
  endpoint : Endpoint
  openedAfter : Nat
  watched : Table Bytes (Option Nat) := []
deriving DecidableEq, Repr

def Server.connect (s : Server) (endpoint : Endpoint) : Except Failure Connection :=
  if s.isUp then .ok ⟨endpoint, s.outages, []⟩ else .error (.unreachable endpoint)

/-- How a store answers a call: at once, or by reading a key after a while. -/
inductive Answer
  | now (o : Outcome)
  | readAfter (ms : Nat) (key : Bytes)
deriving Repr

namespace Connection

/-- An outage cuts every connection that is open then, for good. -/
def isCut (c : Connection) (s : Server) : Bool := !s.isUp || s.outages ≠ c.openedAfter

/-- Watching a key again keeps the version of the first watch. -/
def watch (c : Connection) (key : Bytes) (version : Option Nat) : Connection :=
  if (c.watched.get? key).isSome then c else { c with watched := c.watched.set key version }

def isUntouched (c : Connection) (n : Node) (now : Nat) : Bool :=
  c.watched.all fun (key, version) => n.version? now key = version

/-- A transaction ends the watches, and runs unless a watched key was touched. -/
def exec (c : Connection) (n : Node) (now : Nat) (writes : List Write) :
    Connection × Node × Option (List Effect) :=
  let after := { c with watched := [] }
  if c.isUntouched n now then
    let (n, effects) := n.applyAll now writes
    (after, n, some effects)
  else (after, n, none)

def call (c : Connection) (s : Server) (now : Nat) (request : Call) :
    Connection × Server × Answer :=
  if c.isCut s then (c, s, .now (.error (.unreachable c.endpoint))) else
  match request with
  | .setIfAbsent key value =>
    let (node, created) := s.node.setIfAbsent now key value
    (c, { s with node }, .now (.ok (.flag created)))
  | .get key =>
    match s.readDelay with
    | some ms => (c, s, .readAfter ms key)
    | none => (c, s, .now (.ok (.value (s.node.value? now key))))
  | .expire key seconds =>
    let (node, applied) := s.node.expire now key seconds
    (c, { s with node }, .now (.ok (.flag applied)))
  | .watch key => (c.watch key (s.node.version? now key), s, .now (.ok .done))
  | .unwatch => ({ c with watched := [] }, s, .now (.ok .done))
  | .exec writes =>
    let (c, node, effects) := c.exec s.node now writes
    (c, { s with node }, .now (.ok (.effects effects)))
  | .ping => (c, s, .now (.ok .done))

end Connection
end Holdfast.Memory
