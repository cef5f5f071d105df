import Holdfast.Store.Call
import Holdfast.Table

namespace Holdfast.Memory

open Store

/-- A stored value with the number of the write that last touched it. -/
structure Entry where
  value : Bytes
  version : Nat
  expiresAt : Option Nat
deriving DecidableEq, Repr

/-- The data of one store, and the number of the last write. Times are in milliseconds. -/
structure Node where
  entries : Table Bytes Entry := []
  version : Nat := 0
deriving DecidableEq, Repr

def Entry.isLive (now : Nat) (e : Entry) : Bool :=
  match e.expiresAt with
  | some due => now < due
  | none => true

namespace Node

/-- An entry whose time has come is as good as absent. -/
def live? (n : Node) (now : Nat) (key : Bytes) : Option Entry :=
  (n.entries.get? key).filter (Entry.isLive now)

def value? (n : Node) (now : Nat) (key : Bytes) : Option Bytes := (n.live? now key).map Entry.value

def version? (n : Node) (now : Nat) (key : Bytes) : Option Nat :=
  (n.live? now key).map Entry.version

def keyCount (n : Node) (now : Nat) : Nat :=
  (n.entries.filter fun (_, e) => Entry.isLive now e).length

/-- Milliseconds until the key expires, if it ever does. -/
def timeToLive? (n : Node) (now : Nat) (key : Bytes) : Option Nat :=
  (n.live? now key).bind fun e => e.expiresAt.map (· - now)

/-- Writes a value without an expiry. -/
def put (n : Node) (key value : Bytes) : Node :=
  ⟨n.entries.set key ⟨value, n.version + 1, none⟩, n.version + 1⟩

def delete (n : Node) (key : Bytes) : Node := { n with entries := n.entries.erase key }

/-- Counts as a write even where there is nothing to expire. -/
def expire (n : Node) (now : Nat) (key : Bytes) (seconds : Nat) : Node × Bool :=
  match n.live? now key with
  | some e =>
    (⟨n.entries.set key ⟨e.value, n.version + 1, some (now + seconds * 1000)⟩, n.version + 1⟩, true)
  | none => ({ n with version := n.version + 1 }, false)

def setIfAbsent (n : Node) (now : Nat) (key value : Bytes) : Node × Bool :=
  if (n.live? now key).isSome then (n, false) else (n.put key value, true)

def apply (n : Node) (now : Nat) : Write → Node × Effect
  | .put key value => (n.put key value, .previous (n.value? now key))
  | .delete key => (n.delete key, .count (if (n.live? now key).isSome then 1 else 0))
  | .expire key seconds =>
    let (n, applied) := n.expire now key seconds
    (n, .count (if applied then 1 else 0))

/-- Applies the operations one after the other, each on what the ones before it left. -/
def applyAll (n : Node) (now : Nat) : List Write → Node × List Effect
  | [] => (n, [])
  | w :: ws =>
    let (n, e) := n.apply now w
    let (n, es) := n.applyAll now ws
    (n, e :: es)

end Node
end Holdfast.Memory
