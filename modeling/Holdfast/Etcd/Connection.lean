import Holdfast.Etcd.Request
import Holdfast.Store.Call
import Holdfast.Store.Retry
import Holdfast.Table

namespace Holdfast.Etcd

open Store

/-- A conversation with an etcd server that may fail. -/
abbrev Talk (α : Type) := ExceptT Failure (Exchange Answer) α

def ask (r : Request) : Talk r.Reply :=
  ExceptT.mk do return (← Exchange.ask r).mapError Failure.etcd

/-- Sends a request again for as long as its failures are transient and a delay is left. -/
def insist (r : Request) : Talk r.Reply :=
  ExceptT.mk do
    let answer ← retrying Fault.isTransient Exchange.rest (Exchange.ask r) defaultDelays
    return answer.mapError Failure.etcd

/-- A connection knows the key it watches, with the revision of the key's last change; a key that
was absent has revision 0. -/
structure Connection where
  watched : Option (Bytes × Int) := none
deriving DecidableEq, Repr

/-- A server is asked for credentials only where there are any. -/
def connect : Option Credentials → Talk Connection
  | none => return {}
  | some c => do
    discard <| ask (.authenticate c)
    return {}

def isAbsent (key : Bytes) : Condition := ⟨key, .version, .equal, 0⟩

def isPresent (key : Bytes) : Condition := ⟨key, .version, .greater, 0⟩

def isUnchanged : Bytes × Int → Condition
  | (key, 0) => isAbsent key
  | (key, revision) => ⟨key, .modRevision, .equal, revision⟩

def maxTtl : Nat := 1 <<< 63 - 1

def grant (seconds : Nat) : Talk Int := insist (.grant (min seconds maxTtl))

/-- Gives leases back; one that is gone already does no harm. -/
def revoke : List Int → Talk Unit
  | [] => return
  | lease :: leases => do
    if lease ≠ 0 then
      tryCatch (insist (.revoke lease)) fun _ => return
    revoke leases

/-- Runs a transaction; leases that were granted for it are given back if it fails. -/
def runTxn (conditions : List Condition) (ops : List Op) (granted : List Int) : Talk TxnReply :=
  tryCatch (insist (.txn conditions ops)) fun f => do
    revoke granted
    throw f

def replaced : OpReply → List Int
  | .put previous => previous.toList.map Pair.lease
  | .delete _ previous => previous.map Pair.lease
  | .other _ => []

/-- The leases of the values that a transaction replaced, but not those it has just attached. -/
def superseded (replies : List OpReply) (granted : List Int) : List Int :=
  (replies.flatMap replaced).filter fun lease => lease ≠ 0 && lease ∉ granted

def setIfAbsent (key value : Bytes) : Talk Bool := do
  return (← insist (.txn [isAbsent key] [.put key (some value) none false])).succeeded

def get (key : Bytes) : Talk (Option Bytes) := do
  return (← insist (.range key)).head?.map Pair.value

/-- Attaches a fresh lease to a key that is there, and gives back the one it replaces. -/
def expire (key : Bytes) (seconds : Nat) : Talk Bool := do
  let lease ← grant seconds
  let reply ← runTxn [isPresent key] [.put key none (some lease) true] [lease]
  if reply.succeeded then
    revoke (superseded reply.replies [lease])
    return true
  else
    revoke [lease]
    return false

def watch (key : Bytes) : Talk Connection := do
  let pairs ← insist (.range key)
  return ⟨some (key, (pairs.head?.map Pair.modRevision).getD 0)⟩

/-- One lease for each expiry, which must come after a put of its key. -/
def grantLeases (written : List Bytes) (leases : Table Bytes Int) :
    List Write → Talk (Table Bytes Int)
  | [] => return leases
  | .put key _ :: writes => grantLeases (key :: written) leases writes
  | .delete _ :: writes => grantLeases written leases writes
  | .expire key seconds :: writes => do
    if key ∉ written then
      throw (.protocol "an expire inside an etcd transaction must follow a write of the same key")
    let lease ← grant seconds
    grantLeases written (leases.set key lease) writes

/-- An expiry is no operation of its own: its lease goes with the puts of the key. -/
def opOf? (leases : Table Bytes Int) : Write → Option Op
  | .put key value => some (.put key (some value) (leases.get? key) true)
  | .delete key => some (.delete key true)
  | .expire .. => none

/-- The effects of the writes, read off the replies to the operations. -/
def effectsOf : List Write → List OpReply → Except Failure (List Effect)
  | [], _ => return []
  | .expire .. :: writes, replies => return .count 1 :: (← effectsOf writes replies)
  | _ :: writes, .put previous :: replies =>
    return .previous (previous.map Pair.value) :: (← effectsOf writes replies)
  | _ :: writes, .delete count _ :: replies => return .count count :: (← effectsOf writes replies)
  | _ :: _, .other shown :: _ =>
    .error (.protocol s!"unexpected etcd txn response Some({shown})")
  | _ :: _, [] => .error (.protocol "unexpected etcd txn response None")

def exec (watched : Option (Bytes × Int)) (writes : List Write) : Talk (Option (List Effect)) := do
  let leases ← grantLeases [] [] writes
  let granted := leases.map Prod.snd
  let reply ← runTxn (watched.toList.map isUnchanged) (writes.filterMap (opOf? leases)) granted
  if reply.succeeded then
    revoke (superseded reply.replies granted)
    return some (← effectsOf writes reply.replies)
  else
    revoke granted
    return none

/-- Keeps the connection as it is, whatever the call comes to. -/
def Connection.same (c : Connection) (t : Talk Reply) : Exchange Answer (Connection × Outcome) := do
  return (c, ← t.run)

/-- A call on a connection. A transaction ends the watch even if it fails. -/
def Connection.call (c : Connection) : Call → Exchange Answer (Connection × Outcome)
  | .setIfAbsent key value => c.same do return .flag (← setIfAbsent key value)
  | .get key => c.same do return .value (← get key)
  | .expire key seconds => c.same do return .flag (← expire key seconds)
  | .watch key => do
    match ← (watch key).run with
    | .ok c => return (c, .ok .done)
    | .error f => return (c, .error f)
  | .unwatch => return ({}, .ok .done)
  | .exec writes => Connection.same {} do return .effects (← exec c.watched writes)
  | .ping => c.same do
    discard <| ask .status
    return .done

end Holdfast.Etcd
