import Holdfast.Bytes
import Holdfast.Text.Decimal

namespace Holdfast.Lock

/-- The proof of ownership that is stored under a lock's key. -/
structure Token where
  owner : BitVec 128
  expiry : UInt64
deriving DecidableEq, Repr

namespace Token

def length : Nat := 24

/-- Sixteen bytes of owner, then eight of expiry, each the most significant byte first. -/
def bytes (t : Token) : Bytes :=
  Bytes.bigEndian 16 t.owner.toNat ++ Bytes.bigEndian 8 t.expiry.toNat

def ofBytes? (bytes : Bytes) : Option Token :=
  if bytes.length = length then
    some ⟨BitVec.ofNat 128 (Bytes.value (bytes.take 16)),
      UInt64.ofNat (Bytes.value (bytes.drop 16))⟩
  else none

def isExpired (t : Token) (now : UInt64) : Bool := t.expiry < now

/-- The whole seconds, to the nearest, until a token expires. -/
def secondsLeft (t : Token) (now : Nat) : Nat := (t.expiry.toNat - now + 500) / 1000

def toText (t : Token) : String :=
  s!"LockToken({String.ofList (Text.hexadecimal 32 t.owner.toNat)}@{t.expiry.toNat})"

end Token

/-- A value that is no token cannot belong to a live holder. -/
def isStale (value : Bytes) (now : UInt64) : Bool :=
  match Token.ofBytes? value with
  | some t => t.isExpired now
  | none => true

end Holdfast.Lock
