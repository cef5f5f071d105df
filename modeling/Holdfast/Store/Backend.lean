import Holdfast.Etcd.Request
import Holdfast.Redis.Request

namespace Holdfast.Store

/-- The kinds of servers that hold locks. -/
inductive Kind
  | memory
  | redis
  | etcd
deriving DecidableEq, Repr

/-- A kind of server, with what it needs to let a connection in. -/
inductive Backend
  | memory
  | redis (login : Redis.Login)
  | etcd (credentials : Option Etcd.Credentials)
deriving DecidableEq, Repr

end Holdfast.Store
