import Holdfast.Redis.Request
import Holdfast.Store.Call

namespace Holdfast.Redis

open Store

/-- A conversation with a Redis server that may fail. -/
abbrev Talk (α : Type) := ExceptT Failure (Exchange Answer) α

def lift (r : Except Fault α) : Except Failure α := r.mapError Failure.redis

/-- A conversation that says nothing. -/
def Talk.of (r : Except Failure α) : Talk α := ExceptT.mk (return r)

def ask (r : Request) : Talk Value := ExceptT.mk do return lift (← Exchange.ask r)

/-- Any reply will do that is no fault. -/
def order (r : Request) : Talk Unit := do .of (lift (← ask r).asDone)

def connect (l : Login) : Talk Unit := do
  order .dial
  l.commands.forM fun c => order (.command c)

def decimal (n : Nat) : Bytes := Bytes.ofText (toString n)

def commandOf : Write → Command
  | .put key value => ⟨"GETSET", [key, value]⟩
  | .delete key => ⟨"DEL", [key]⟩
  | .expire key seconds => ⟨"EXPIRE", [key, decimal seconds]⟩

/-- What is sent for a call. A transaction without operations is not sent. -/
def request? : Call → Option Request
  | .setIfAbsent key value => some (.command ⟨"SETNX", [key, value]⟩)
  | .get key => some (.command ⟨"GET", [key]⟩)
  | .expire key seconds => some (.command ⟨"EXPIRE", [key, decimal seconds]⟩)
  | .watch key => some (.command ⟨"WATCH", [key]⟩)
  | .unwatch => some (.command ⟨"UNWATCH", []⟩)
  | .exec [] => none
  | .exec writes => some (.transaction (writes.map commandOf))
  | .ping => some (.command ⟨"PING", []⟩)

def effectOf : Write → Value → Except Failure Effect
  | .put .., v => return .previous (← lift v.asBytes)
  | .delete _, v | .expire .., v => return .count (← lift v.asInt)

def effectsOf : List Write → List Value → Except Failure (List Effect)
  | w :: writes, v :: vs => return (← effectOf w v) :: (← effectsOf writes vs)
  | _, _ => return []

/-- There must be one reply for each operation; no list at all means that the transaction was
aborted. -/
def transacted (writes : List Write) (v : Value) : Except Failure (Option (List Effect)) := do
  match ← lift v.asList with
  | none => return none
  | some vs =>
    if vs.length ≠ writes.length then
      throw (.protocol s!"expected {writes.length} transaction replies, got {vs.length}")
    return some (← effectsOf writes vs)

def ponged (v : Value) : Except Failure Reply := do
  let pong ← lift v.asText
  if pong = "PONG" then return .done else throw (.protocol s!"unexpected PING reply `{pong}`")

/-- What a reply means for a call. -/
def interpret (v : Value) : Call → Outcome
  | .setIfAbsent .. | .expire .. => return .flag (← lift v.asFlag)
  | .get _ => return .value (← lift v.asBytes)
  | .watch _ | .unwatch => do
    lift v.asDone
    return .done
  | .exec writes => return .effects (← transacted writes v)
  | .ping => ponged v

/-- A call on a connection. -/
def call (c : Call) : Talk Reply :=
  match request? c with
  | none => return .effects (some [])
  | some r => do .of (interpret (← ask r) c)

/-- The first two texts of the reply are host and port. -/
def masterOf (v : Value) : Except Failure (Option Endpoint) := do
  match ← lift v.asTexts with
  | some (host :: port :: _) =>
    match Endpoint.ofParts host.toList port.toList with
    | .ok e => return some e
    | .error e => throw (.protocol e.message)
  | _ => return none

/-- Asks a discovery peer for the master of a shard, on a connection of its own. -/
def askMaster (name : String) : Talk (Option Endpoint) := do
  connect {}
  let query : Command :=
    ⟨"SENTINEL", [Bytes.ofText "get-master-addr-by-name", Bytes.ofText name]⟩
  .of (masterOf (← ask (.command query)))

/-- Subscribes to a channel of a discovery peer, on a connection of its own. -/
def subscribe (channel : String) : Talk Unit := do
  connect {}
  order (.subscribe channel)

end Holdfast.Redis
