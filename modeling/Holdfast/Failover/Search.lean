import Holdfast.Store.Failure
import Holdfast.Topology

namespace Holdfast.Failover

open Store

/-- Where the search for the masters stands. -/
inductive Search.Phase
  /-- The peers that have not been asked in this round. -/
  | asking (peers : List Endpoint)
  | pausing (due : Nat)
  | over (result : Except TopologyError Topology)
deriving Repr

/-- Finds the master of each shard, one after the other. In a round the peers are asked in order
until one knows the master; failed rounds draw on one budget for all shards. -/
structure Search where
  peers : List Endpoint
  backoff : Nat
  retries : Nat
  /-- Shards without a master so far. -/
  names : List String
  found : List Endpoint := []
  attempts : Nat := 0
  phase : Search.Phase
deriving Repr

namespace Search

/-- A round for the first shard that is left. -/
def round (s : Search) : Search :=
  match s.names with
  | [] => { s with phase := .over (.ok ⟨s.found⟩) }
  | _ :: _ => { s with attempts := s.attempts + 1, phase := .asking s.peers }

def start (peers : List Endpoint) (names : List String) (retries backoff : Nat) : Search :=
  round { peers, names, retries, backoff, phase := .asking [] }

/-- Whom the search asks next, and about which shard. -/
def question? (s : Search) : Option (Endpoint × String) :=
  match s.phase, s.names with
  | .asking (peer :: _), name :: _ => some (peer, name)
  | _, _ => none

/-- An answer that names no master, or a failure, sends the search to the next peer. -/
def answered (s : Search) (answer : Except Failure (Option Endpoint)) : Search :=
  match answer with
  | .ok (some master) => round { s with names := s.names.tail, found := s.found ++ [master] }
  | _ =>
    match s.phase with
    | .asking (_ :: peers) => { s with phase := .asking peers }
    | _ => s

/-- A round in which no peer knew the master. -/
def failed (s : Search) (now : Nat) : Search :=
  match s.retries with
  | 0 => { s with phase := .over (.error (.undiscovered (s.names.headD "") s.peers s.attempts)) }
  | n + 1 => { s with retries := n, phase := .pausing (now + s.backoff) }

/-- A bound on the steps that are left. A round that is over costs a shard or a retry. -/
def left (s : Search) : Nat :=
  (s.names.length + s.retries) * (s.peers.length + 3) +
    match s.phase with
    | .over _ => 0
    | .asking peers => peers.length + 1
    | .pausing _ => s.peers.length + 2

/-- What the search has come to, once it is over. -/
def result? (s : Search) : Option (Except TopologyError Topology) :=
  match s.phase with
  | .over result => some result
  | .asking _ | .pausing _ => none

end Search
end Holdfast.Failover
