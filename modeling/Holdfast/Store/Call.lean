import Holdfast.Bytes
import Holdfast.Store.Failure

namespace Holdfast.Store

/-- One operation of a transaction. -/
inductive Write
  | put (key value : Bytes)
  | delete (key : Bytes)
  | expire (key : Bytes) (seconds : Nat)
deriving DecidableEq, Repr

/-- What one operation of a transaction answers: the value it replaced, or how many keys it met. -/
inductive Effect
  | previous (value : Option Bytes)
  | count (n : Int)
deriving DecidableEq, Repr

/-- A call on a connection to a store. -/
inductive Call
  | setIfAbsent (key value : Bytes)
  | get (key : Bytes)
  | expire (key : Bytes) (seconds : Nat)
  | watch (key : Bytes)
  | unwatch
  | exec (writes : List Write)
  | ping
deriving DecidableEq, Repr

inductive Reply
  | done
  | flag (b : Bool)
  | value (v : Option Bytes)
  /-- No effects where the transaction was aborted. -/
  | effects (es : Option (List Effect))
deriving DecidableEq, Repr

abbrev Outcome := Except Failure Reply

/-- A reply to another kind of call. -/
def mismatch : Failure := .protocol "script mismatch"

def Reply.asValue : Reply → Except Failure (Option Bytes)
  | value v => .ok v
  | _ => .error mismatch

end Holdfast.Store
