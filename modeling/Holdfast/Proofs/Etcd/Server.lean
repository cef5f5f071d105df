import Holdfast.Etcd.Request
import Holdfast.Proofs.Exchange
import Holdfast.Table

namespace Holdfast.Etcd

/-- What a server keeps under a key. The version counts the puts since the key was created, and the
revision is that of the last one; lease 0 is none. -/
structure Row where
  value : Bytes
  version : Nat := 1
  modRevision : Nat
  lease : Int := 0
deriving DecidableEq

structure Data where
  rows : Table Bytes Row := []
  revision : Nat := 1
  /-- The leases that were granted and neither ran out nor were given back. -/
  leases : List Int := []
  nextLease : Int := 1
deriving DecidableEq

def Row.pair (r : Row) : Pair := ⟨r.value, r.modRevision, r.lease⟩

namespace Data

def value? (d : Data) (key : Bytes) : Option Bytes := (d.rows.get? key).map Row.value

/-- A key that is absent has version 0 and revision 0. -/
def number (d : Data) (key : Bytes) : Target → Nat
  | .version => ((d.rows.get? key).map Row.version).getD 0
  | .modRevision => ((d.rows.get? key).map Row.modRevision).getD 0

def meets (d : Data) (c : Condition) : Bool :=
  match c.relation with
  | .equal => d.number c.key c.target = c.number
  | .greater => d.number c.key c.target > c.number

/-- One operation of a transaction that takes the given revision. A put needs its lease, and where
it brings no value it needs one that is there. -/
def perform (d : Data) (revision : Nat) : Op → Except Fault (Data × OpReply)
  | .put key value lease wantsPrevious => do
    let previous := d.rows.get? key
    let some value := value <|> previous.map Row.value
      | throw (.status .invalidArgument false)
    if lease.any (· ∉ d.leases) then
      throw (.status .notFound false)
    let version := (previous.map Row.version).getD 0 + 1
    return ({ d with
        rows := d.rows.set key ⟨value, version, revision, lease.getD 0⟩
        revision },
      .put (if wantsPrevious then previous.map Row.pair else none))
  | .delete key wantsPrevious =>
    match d.rows.get? key with
    | none => return (d, .delete 0 [])
    | some row =>
      return ({ d with rows := d.rows.erase key, revision },
        .delete 1 (if wantsPrevious then [row.pair] else []))

def performAll (d : Data) (revision : Nat) : List Op → Except Fault (Data × List OpReply)
  | [] => return (d, [])
  | op :: ops => do
    let (d, reply) ← d.perform revision op
    let (d, replies) ← d.performAll revision ops
    return (d, reply :: replies)

/-- A transaction is carried out as a whole, or nothing of it is. -/
def transact (d : Data) (conditions : List Condition) (ops : List Op) :
    Data × Except Fault TxnReply :=
  if conditions.all d.meets then
    match d.performAll (d.revision + 1) ops with
    | .ok (d, replies) => (d, .ok ⟨true, replies⟩)
    | .error f => (d, .error f)
  else (d, .ok ⟨false, []⟩)

/-- The keys of a lease go with it. -/
def revoke (d : Data) (lease : Int) : Data × Except Fault Unit :=
  if lease ∈ d.leases then
    ({ d with
        rows := d.rows.filter fun (_, row) => row.lease ≠ lease
        revision := d.revision + 1
        leases := d.leases.erase lease },
      .ok ())
  else (d, .error (.status .notFound false))

def execute (d : Data) : (r : Request) → Data × Answer r
  | .range key => (d, .ok ((d.rows.get? key).map Row.pair).toList)
  | .txn conditions ops => d.transact conditions ops
  | .grant _ =>
    ({ d with leases := d.nextLease :: d.leases, nextLease := d.nextLease + 1 }, .ok d.nextLease)
  | .revoke lease => d.revoke lease
  | .status => (d, .ok ())
  | .authenticate _ => (d, .ok "")

/-- The puts and deletes that are carried out for a request. -/
def deeds (d : Data) : Request → List Op
  | .txn conditions ops =>
    match d.transact conditions ops with
    | (_, .ok ⟨true, _⟩) => ops
    | _ => []
  | _ => []

end Data

/-- What becomes of a request that a client has sent. -/
inductive Fate
  | answered
  /-- The server executes the request, but a fault reaches the client. -/
  | lost (f : Fault)
  /-- The server never executes the request. -/
  | refused (f : Fault)
deriving DecidableEq

/-- A request, with the data it found and what became of it. -/
structure Event where
  found : Data
  request : Request
  fate : Fate
deriving DecidableEq

namespace Event

def answer (e : Event) : Answer e.request :=
  match e.fate with
  | .answered => (e.found.execute e.request).2
  | .lost f | .refused f => .error f

def left (e : Event) : Data :=
  match e.fate with
  | .answered | .lost _ => (e.found.execute e.request).1
  | .refused _ => e.found

/-- The puts and deletes that the server carried out. -/
def deeds (e : Event) : List Op :=
  match e.fate with
  | .answered | .lost _ => e.found.deeds e.request
  | .refused _ => []

def line (e : Event) : Sigma Answer := ⟨e.request, e.answer⟩

end Event

/-- A server with the requests of one client, in order. -/
structure Server where
  data : Data := {}
  log : List Event := []
deriving DecidableEq

/-- How a server treats its client: what all others and the running out of leases have made of the
data when a request arrives, and what becomes of the request. -/
abbrev Behaviour := Server → Request → Data × Fate

def serve (b : Behaviour) (s : Server) (r : Request) : Server × Answer r :=
  let (found, fate) := b s r
  let e : Event := { found, request := r, fate }
  (⟨e.left, s.log ++ [e]⟩, e.answer)

/-- A conversation with a server goes by the events that are new in its log. -/
theorem goes_of_serve (b : Behaviour) (e : Exchange Answer α) (s : Server) :
    ∃ events, (e.run (serve b) s).1.log = s.log ++ events ∧
      e.Goes (events.map Event.line) (e.run (serve b) s).2.2 :=
  Exchange.goes_of_run (fun s r => ⟨⟨(b s r).1, r, (b s r).2⟩, rfl, rfl⟩) e s

theorem Data.succeeded_of_deeds {d : Data} {r : Request} (h : d.deeds r ≠ []) :
    ∃ conditions ops replies, r = .txn conditions ops ∧
      (d.transact conditions ops).2 = .ok ⟨true, replies⟩ := by
  cases r with
  | txn conditions ops =>
    simp only [deeds] at h
    split at h
    · rename_i data replies hs
      exact ⟨conditions, ops, replies, rfl, by rw [hs]⟩
    · exact absurd rfl h
  | _ => exact absurd rfl h

end Holdfast.Etcd
