import Holdfast.Endpoint
import Holdfast.Etcd.Fault
import Holdfast.Redis.Fault
import Holdfast.Text.Span

namespace Holdfast.Store

/-- Why a call to a store failed. -/
inductive Failure
  | unreachable (e : Endpoint)
  | connectTimeout (e : Endpoint) (ms : Nat)
  | poolExhausted (e : Endpoint)
  | poolClosed (e : Endpoint)
  | protocol (what : String)
  | redis (fault : Redis.Fault)
  | etcd (fault : Etcd.Fault)
deriving DecidableEq, Repr

namespace Failure

/-- Faults of a server's own client library have no text here. -/
def message? : Failure → Option String
  | unreachable e => some s!"endpoint {e} is unreachable"
  | connectTimeout e ms => some s!"timed out after {Text.spanText ms} connecting to {e}"
  | poolExhausted e => some s!"no pooled connection to {e} became available in time"
  | poolClosed e => some s!"connection pool for {e} is closed"
  | protocol what => some s!"unexpected reply: {what}"
  | redis _ => none
  | etcd _ => none

/-- Whether the same call may succeed if it is tried again later. -/
def isTransient : Failure → Bool
  | unreachable _ => true
  | connectTimeout _ _ => true
  | poolExhausted _ => true
  | poolClosed _ => false
  | protocol _ => false
  | redis fault => fault.isTransient
  | etcd fault => fault.isTransient

end Failure
end Holdfast.Store
