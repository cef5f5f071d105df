import Holdfast.Lock.Options
import Holdfast.Lock.Token
import Holdfast.Store.Failure
import Holdfast.Text.Quoted

namespace Holdfast

/-- A named lock: how many seconds it is held, and the milliseconds between attempts. -/
structure Lock where
  name : String
  hold : Nat
  sleep : Nat
deriving DecidableEq, Repr

/-- Why a lock could not be made, taken or released. -/
inductive LockError
  | invalidName
  | cancelled
  | store (f : Store.Failure)
deriving DecidableEq, Repr

def LockError.message? : LockError → Option String
  | invalidName => some "lock name cannot be empty"
  | cancelled => some "lock acquisition cancelled"
  | store f => f.message?

namespace Lock

/-- What a successful attempt hands out, and a release takes back. -/
structure Handle where
  key : Bytes
  token : Token
deriving DecidableEq, Repr

/-- The wall clock in milliseconds, and an owner that no token carries yet. -/
structure Moment where
  clock : Nat
  owner : BitVec 128
deriving DecidableEq, Repr

def ofName (name : String) (o : Options) : Except LockError Lock :=
  if name.isEmpty then .error .invalidName
  else .ok { name, hold := o.holdSeconds, sleep := o.sleepMillis }

def keyPrefix : Bytes := Bytes.ofText "shard-lock:"

def key (l : Lock) : Bytes := keyPrefix ++ Bytes.ofText l.name

def freshToken (l : Lock) (m : Moment) : Token :=
  ⟨m.owner, UInt64.ofNat (m.clock + l.hold * 1000)⟩

def handle (l : Lock) (t : Token) : Handle := ⟨l.key, t⟩

def toText (l : Lock) : String :=
  let hold := Text.spanText (l.hold * 1000)
  let sleep := Text.spanText l.sleep
  let name := Text.quoted l.name
  s!"DistributedLock \x7b name: {name}, hold_timeout: {hold}, retry_sleep: {sleep} \x7d"

end Lock
end Holdfast
