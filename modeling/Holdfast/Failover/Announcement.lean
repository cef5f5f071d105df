import Holdfast.Endpoint

namespace Holdfast.Failover

/-- The channel on which discovery peers announce a switch of masters. -/
def channel : String := "+switch-master"

/-- The news that a shard has a new master. -/
structure Announcement where
  shard : String
  old : Endpoint
  new : Endpoint
deriving DecidableEq, Repr

inductive AnnouncementError
  | fieldCount (n : Nat)
  | endpoint (e : InvalidEndpoint)
deriving DecidableEq, Repr

def AnnouncementError.message : AnnouncementError → String
  | fieldCount n => s!"expected 5 space separated fields, got {n}"
  | endpoint e => e.message

namespace Announcement

def readEndpoint (host port : List Char) : Except AnnouncementError Endpoint :=
  (Endpoint.ofParts host port).mapError .endpoint

/-- Name, old host and port, new host and port, with any blanks around them. -/
def parse (s : String) : Except AnnouncementError Announcement :=
  match Text.words s.toList with
  | [name, oldHost, oldPort, newHost, newPort] => do
    let old ← readEndpoint oldHost oldPort
    let new ← readEndpoint newHost newPort
    return ⟨String.ofList name, old, new⟩
  | fields => .error (.fieldCount fields.length)

/-- The payload that announces `new` as the master of `shard`; a first master replaces none. -/
def payload (shard : String) (old : Option Endpoint) (new : Endpoint) : String :=
  let (oldHost, oldPort) := match old with
    | some e => (e.host, toString e.port.toNat)
    | none => ("-", "0")
  s!"{shard} {oldHost} {oldPort} {new.host} {new.port.toNat}"

end Announcement
end Holdfast.Failover
