import Holdfast.Bytes
import Holdfast.Etcd.Fault
import Holdfast.Exchange

namespace Holdfast.Etcd

structure Credentials where
  user : String
  password : String
deriving DecidableEq, Repr

/-- A name without a password, or the other way round, is no use. -/
def Credentials.of? : Option String → Option String → Option Credentials
  | some user, some password => some ⟨user, password⟩
  | _, _ => none

/-- What a condition of a transaction looks at. -/
inductive Target
  | version
  | modRevision
deriving DecidableEq, Repr

inductive Relation
  | equal
  | greater
deriving DecidableEq, Repr

structure Condition where
  key : Bytes
  target : Target
  relation : Relation
  number : Int
deriving DecidableEq, Repr

/-- One operation of a transaction. -/
inductive Op
  /-- No value leaves the one that is there; the lease, if any, replaces the present one. -/
  | put (key : Bytes) (value : Option Bytes) (lease : Option Int) (wantsPrevious : Bool)
  | delete (key : Bytes) (wantsPrevious : Bool)
deriving DecidableEq, Repr

inductive Request
  | range (key : Bytes)
  | txn (conditions : List Condition) (ops : List Op)
  | grant (ttl : Int)
  | revoke (lease : Int)
  | status
  | authenticate (c : Credentials)
deriving DecidableEq, Repr

/-- A value as the server keeps it. -/
structure Pair where
  value : Bytes
  modRevision : Int
  lease : Int
deriving DecidableEq, Repr

/-- The answer to one operation of a transaction, with the values that it replaced. -/
inductive OpReply
  | put (previous : Option Pair)
  | delete (count : Int) (previous : List Pair)
  /-- The answer to an operation of another kind, as it is shown. -/
  | other (shown : String)
deriving DecidableEq, Repr

structure TxnReply where
  succeeded : Bool
  replies : List OpReply
deriving DecidableEq, Repr

/-- What a request is answered with when it does not fail. -/
abbrev Request.Reply : Request → Type
  | range _ => List Pair
  | txn .. => TxnReply
  | grant _ => Int
  | revoke _ => Unit
  | status => Unit
  | authenticate _ => String

abbrev Answer (r : Request) : Type := Except Fault r.Reply

/-- A server that cannot be reached. -/
def absent (_ : Unit) (r : Request) : Unit × Answer r := ((), .error .transport)

end Holdfast.Etcd
