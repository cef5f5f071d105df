import Holdfast.Failover.Announcement
import Holdfast.Memory.Feed
import Holdfast.Store.Failure
import Holdfast.Table

namespace Holdfast.Memory

open Store

structure Peer where
  isUp : Bool := true
  feed : Nat
deriving DecidableEq, Repr

/-- Discovery peers that agree on the masters of the shards and announce their switches. -/
structure Sentinel where
  masters : Table String Endpoint := []
  peers : Table Endpoint Peer := []
  /-- All feeds that there ever were. -/
  feeds : List Feed := []
deriving Repr

namespace Sentinel

/-- A peer that is added again starts a new feed, and its old one ends. -/
def addPeer (s : Sentinel) (e : Endpoint) : Sentinel :=
  let feeds := match s.peers.get? e with
    | some peer => s.feeds.modify peer.feed fun f => { f with isOpen := false }
    | none => s.feeds
  { s with peers := s.peers.set e { feed := feeds.length }, feeds := feeds ++ [{}] }

def setMaster (s : Sentinel) (name : String) (master : Endpoint) : Sentinel :=
  { s with masters := s.masters.set name master }

def master? (s : Sentinel) (name : String) : Option Endpoint := s.masters.get? name

/-- A peer that goes away disconnects its subscribers. -/
def setUp (s : Sentinel) (e : Endpoint) (up : Bool) : Sentinel :=
  match s.peers.get? e with
  | none => s
  | some peer =>
    { s with
      peers := s.peers.set e { peer with isUp := up }
      feeds := if up then s.feeds else s.feeds.modify peer.feed (·.push .disconnect) }

def readers (s : Sentinel) (e : Endpoint) : Nat :=
  match (s.peers.get? e).bind fun peer => s.feeds[peer.feed]? with
  | some f => f.readers
  | none => 0

/-- Sends a payload through every peer that is up. -/
def publish (s : Sentinel) (channel payload : String) : Sentinel :=
  let sent (feeds : List Feed) : Endpoint × Peer → List Feed := fun (_, peer) =>
    if peer.isUp then feeds.modify peer.feed (·.push (.message channel payload)) else feeds
  { s with feeds := s.peers.foldl sent s.feeds }

/-- Makes a shard's new master known and announces it. -/
def failover (s : Sentinel) (name : String) (master : Endpoint) : Sentinel :=
  (s.setMaster name master).publish Failover.channel
    (Failover.Announcement.payload name (s.master? name) master)

def upPeer? (s : Sentinel) (e : Endpoint) : Except Failure Peer :=
  match s.peers.get? e with
  | some peer => if peer.isUp then .ok peer else .error (.unreachable e)
  | none => .error (.unreachable e)

def ask (s : Sentinel) (e : Endpoint) (name : String) : Except Failure (Option Endpoint) :=
  (s.upPeer? e).map fun _ => s.master? name

def countReader (s : Sentinel) (feed : Nat) (count : Nat → Nat) : Sentinel :=
  { s with feeds := s.feeds.modify feed fun f => { f with readers := count f.readers } }

/-- A subscription sees what is sent from now on. -/
def subscribe (s : Sentinel) (e : Endpoint) (channel : String) :
    Sentinel × Except Failure Reader :=
  match s.upPeer? e with
  | .error f => (s, .error f)
  | .ok peer =>
    let position := (s.feeds[peer.feed]?.map fun f => f.events.length).getD 0
    (s.countReader peer.feed (· + 1), .ok ⟨peer.feed, channel, position⟩)

def unsubscribe (s : Sentinel) (r : Reader) : Sentinel := s.countReader r.feed (· - 1)

def next (s : Sentinel) (r : Reader) : Heard × Reader :=
  match s.feeds[r.feed]? with
  | some f => f.next r
  | none => (.ended, r)

end Sentinel
end Holdfast.Memory
