import Holdfast.Config
import Holdfast.Json.Render

namespace Holdfast

open Json (Value)

def writeText (s : String) : Value := .string (some s)

def writeInt (i : Int) : Value := .number (.ofInt i)

def writeCount (n : UInt64) : Value := writeInt n.toNat

def writeOptional : Option String → Value
  | none => .null
  | some s => writeText s

def writeObject (members : List (String × Value)) : Value :=
  .object (members.map fun (k, v) => (some k, v)) true

def writeArray (items : List Value) : Value := .array items true

def Endpoint.write (e : Endpoint) : Value := writeText e.toText

def PoolOptions.write (o : PoolOptions) : Value :=
  writeObject [("max_size", writeCount o.maxSize), ("max_idle", writeCount o.maxIdle),
    ("checkout_timeout_ms", writeCount o.checkoutTimeout), ("test_on_borrow", .bool o.testOnBorrow)]

def Lock.Options.write (o : Lock.Options) : Value :=
  writeObject [("hold_timeout_secs", writeInt o.hold.toInt),
    ("retry_sleep_ms", writeInt o.sleep.toInt)]

def FailoverOptions.write (o : FailoverOptions) : Value :=
  writeObject [("startup_retries", writeCount o.startupRetries),
    ("startup_backoff_ms", writeCount o.startupBackoff),
    ("resubscribe_backoff_ms", writeCount o.resubscribeBackoff)]

def MasterSource.write : MasterSource → Value
  | .sentinel peers =>
    writeObject [("kind", writeText "sentinel"), ("peers", writeArray (peers.map Endpoint.write))]
  | .static masters =>
    writeObject [("kind", writeText "static"), ("masters", writeArray (masters.map Endpoint.write))]

def Config.write (c : Config) : Value :=
  writeObject [("shards", writeArray (c.shards.map writeText)), ("topology", c.masters.write),
    ("pool", c.pool.write), ("connect_timeout_ms", writeCount c.connectTimeout),
    ("username", writeOptional c.username), ("password", writeOptional c.password),
    ("database", writeInt c.database.toInt), ("lock", c.lock.write), ("failover", c.failover.write)]

def Config.toText (c : Config) : String := c.write.render

end Holdfast
